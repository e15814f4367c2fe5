import FieldPost.Proofs.Exchanges
import FieldPost.Proofs.Isolation

/-!
Delivery. With the uploaders that send requests, a run marks an instance as sent or removes it
only after exactly one request was made for it, which carried its payload and which came to an
answer that the protocol demands. That answer is the one to this request itself, unless an answer
led the client elsewhere; then it may be one to a request of the client's own, which carried
nothing, or the same row again. An instance with a fault on this side causes no request and ends
as a failure. What is done at an address that an answer leads to is not said.
-/

namespace FieldPost.Run

open FieldPost.Http FieldPost.Text FieldPost.Upload

def Turn.requests (turn : Turn Peer) : List Request :=
  turn.after.far.received.drop turn.before.far.received.length

/-- The requests that the client made of itself. -/
def Turn.hops (turn : Turn Peer) : List Hop :=
  turn.after.far.followed.drop turn.before.far.followed.length

/-- A row was removed, or it became submitted. -/
def Concluded (start final : Device) (id : Int) : Prop :=
  (start.row? id ≠ none ∧ final.row? id = none) ∨
    ∃ row later, start.row? id = some row ∧ row.status ≠ Status.submitted.text ∧
      final.row? id = some later ∧ later.status = Status.submitted.text

/-- In a turn exactly one request was sent; it carried the payload as it lies among these files,
and it was itself answered with success. -/
def DeliveredAtOnce (route : Route) (files : FileTree) (turn : Turn Peer) : Prop :=
  ∃ request status contentType body whole location, turn.requests = [request] ∧ turn.hops = [] ∧
    turn.before.far.replies.headD Peer.accepting =
      .answer status contentType body whole location ∧
    Accepts route status ∧ Carries route files turn.filled request

/-- In a turn exactly one request was made; it carried the payload as it lies among these files,
and success was the answer to it or to the last of at most ten requests that the client made of
itself, from one answer that leads elsewhere to the next. These carried nothing, or the row that
the request had carried. -/
def Delivered (route : Route) (files : FileTree) (turn : Turn Peer) : Prop :=
  ∃ request status contentType body whole, turn.requests = [request] ∧
    Reaches (some request.content) turn.before.far.replies turn.hops
      (.answer status contentType body whole) ∧
    Accepts route status ∧ Carries route files turn.filled request ∧ turn.hops.length ≤ 10 ∧
    ∀ hop ∈ turn.hops, hop.isUsable = true ∧
      (hop.content = none ∨ route = .spreadsheet ∧ hop.content = some request.content)

/-- What was delivered without any detour was delivered at once. -/
theorem Delivered.at_once {route : Route} {files : FileTree} {turn : Turn Peer}
    (delivered : Delivered route files turn) (direct : turn.hops = []) :
    DeliveredAtOnce route files turn := by
  obtain ⟨request, status, contentType, body, whole, requests, reaches, accepts, carries, _⟩ :=
    delivered
  generalize said : Response.answer status contentType body whole = response at reaches
  rw [direct] at reaches
  cases reaches with
  | here stays =>
      rcases first : turn.before.far.replies.headD Peer.accepting with
        _ | ⟨status', contentType', body', whole', location⟩
      · rw [first] at said
        cases said
      · rw [first] at said
        cases said
        exact ⟨request, _, _, _, _, location, requests, direct, first, accepts, carries⟩

/-- Only a row is sent twice; the parts of a form are not. -/
theorem repeated_row {route : Route} {files : FileTree} {filled : Instance} {request : Request}
    {hop : Hop} (carries : Carries route files filled request)
    (repeats : hop.Repeats (some request.content)) :
    hop.content = none ∨ route = .spreadsheet ∧ hop.content = some request.content := by
  rcases repeats with nothing | ⟨unstreamed, same⟩
  · exact .inl nothing
  · cases route with
    | server deviceId =>
        obtain ⟨_, attachments, part, _, content, _⟩ := carries
        exact absurd (congrArg some content) (unstreamed (part :: attachments))
    | spreadsheet => exact .inr ⟨rfl, same⟩

theorem delivered_of_keeps {route : Route} {files : FileTree} {turn : Turn Peer}
    {request : Request} {status : Nat} {contentType : Option String} {body : Bytes} {whole : Bool}
    {hops : List Hop}
    (keeps : turn.before.far.Keeps request (.answer status contentType body whole) hops
      turn.after.far)
    (accepts : Accepts route status) (carries : Carries route files turn.filled request) :
    Delivered route files turn := by
  have requests : turn.requests = [request] := by
    rw [Turn.requests, keeps.received, List.drop_left]
  have followed : turn.hops = hops := by
    rw [Turn.hops, keeps.followed, List.drop_left]
  subst followed
  refine ⟨request, status, contentType, body, whole, requests, keeps.reaches, accepts, carries,
    keeps.atMost, ?_⟩
  intro hop member
  exact ⟨keeps.usable hop member, repeated_row carries (keeps.repeats hop member)⟩

theorem not_concluded_of_same {start final : Device} {id : Int}
    (same : final.row? id = start.row? id) : ¬ Concluded start final id := by
  rintro (⟨present, gone⟩ | ⟨row, later, found, unsent, ended, submitted⟩)
  · rw [same] at gone
    exact present gone
  · rw [same, found] at ended
    cases ended
    exact unsent submitted

theorem not_concluded_of_failed (device : Device) (id : Int) :
    ¬ Concluded device (device.updateStatus id .submissionFailed).2 id := by
  rcases Device.update_status_cases device id .submissionFailed with
    failed | ⟨row, before, found, _, _, written⟩
  · apply not_concluded_of_same
    rw [failed, Device.row_ticked]
  · have marked : (device.updateStatus id .submissionFailed).2.row? id =
        some (Database.changeStatus .submissionFailed device.clock row) := by
      rw [written, Device.row_with_status, if_pos rfl, found]
      rfl
    rintro (⟨_, gone⟩ | ⟨_, later, _, _, ended, submitted⟩)
    · rw [marked] at gone
      cases gone
    · rw [marked] at ended
      cases ended
      exact absurd submitted (show Status.text .submissionFailed ≠ Status.text .submitted by decide)

section

variable {settings : Settings} {uploaders : Uploaders Peer} {route : Route}
  {fault : FileTree → Instance → Prop}
  (delivers : Delivers route fault (route.uploader uploaders))

include delivers

theorem turn_goes_on (world : World Peer) (filled : Instance) :
    world.far.GoesOn (sendOne settings uploaders route world filled).2.far := by
  rcases turn_far settings uploaders route world filled with same | ⟨url, _, sent⟩
  · rw [same]
    exact .refl _
  · rw [sent]
    exact delivers.goesOn _ _ _ _

theorem world_after_goes_on (world : World Peer) (candidates : List Instance) :
    world.far.GoesOn (worldAfter settings uploaders route world candidates).far := by
  induction candidates generalizing world with
  | nil => exact .refl _
  | cons filled rest induction =>
      rw [world_after_cons]
      exact (turn_goes_on delivers world filled).trans (induction _)

/-- A turn that concludes its instance has delivered it. -/
theorem delivered_of_concluded {turn : Turn Peer}
    (sent : sendOne settings uploaders route turn.before turn.filled =
      (turn.verdict, turn.after))
    (concluded : Concluded turn.before.device turn.after.device turn.filled.id) :
    Delivered route turn.before.device.files turn := by
  rcases turn with ⟨filled, before, verdict, after⟩
  dsimp only at sent concluded
  have course := course_of_turn settings uploaders route before filled
  rw [sent] at course
  cases course with
  | undestined error wanted => exact absurd concluded (not_concluded_of_failed _ _)
  | notSheet url wanted stays => exact absurd concluded (not_concluded_of_same rfl)
  | refused url error wanted leaves answer =>
      exact absurd concluded (not_concluded_of_failed _ _)
  | accepted url message wanted leaves answer =>
      obtain ⟨request, status, contentType, body, whole, hops, keeps, accepts, carries⟩ :=
        delivers.accepted _ _ _ _ _ answer
      have far : ((deleteIfWanted settings
          (handedAndMarked uploaders route before filled url .submitted) filled).tell
            (countedEvent route filled)).far =
          ((route.uploader uploaders).send before.device.files filled url before.far).2 := by
        unfold World.tell
        rw [delete_if_wanted_far]
        rfl
      rw [← far] at keeps
      exact delivered_of_keeps keeps accepts carries

/-- A fault on this side sends nothing and fails. -/
theorem nothing_sent_of_fault {turn : Turn Peer}
    (sent : sendOne settings uploaders route turn.before turn.filled =
      (turn.verdict, turn.after))
    (atFault : fault turn.before.device.files turn.filled) :
    turn.requests = [] ∧ turn.hops = [] ∧ ∃ message, turn.verdict = .failure message := by
  have after : turn.after = (sendOne settings uploaders route turn.before turn.filled).2 :=
    (congrArg Prod.snd sent).symm
  have untouched : turn.after.far = turn.before.far := by
    rw [after]
    rcases turn_far settings uploaders route turn.before turn.filled with
      same | ⟨url, wanted, handed⟩
    · exact same
    · obtain ⟨problem, nothing⟩ := delivers.faulty _ _ _ turn.before.far atFault wanted
      rw [handed, nothing]
  refine ⟨?_, ?_, ?_⟩
  · rw [Turn.requests, untouched, List.drop_length]
  · rw [Turn.hops, untouched, List.drop_length]
  · have course := course_of_turn settings uploaders route turn.before turn.filled
    rw [sent] at course
    generalize turn.verdict = verdict at course ⊢
    generalize turn.after = ended at course
    cases course with
    | undestined error wanted => exact ⟨_, rfl⟩
    | notSheet url wanted stays => exact ⟨_, rfl⟩
    | refused url error wanted leaves answer => exact ⟨_, rfl⟩
    | accepted url message wanted leaves answer =>
        obtain ⟨problem, nothing⟩ := delivers.faulty _ _ _ turn.before.far atFault wanted
        rw [nothing] at answer
        cases answer

/-- As long as no answer leads elsewhere, the client makes no request of itself. -/
theorem no_hops_of_straight {turn : Turn Peer}
    (sent : sendOne settings uploaders route turn.before turn.filled =
      (turn.verdict, turn.after))
    (straight : Straight turn.before.far.replies) : turn.hops = [] := by
  have after : turn.after = (sendOne settings uploaders route turn.before turn.filled).2 :=
    (congrArg Prod.snd sent).symm
  have followed : turn.after.far.followed = turn.before.far.followed := by
    rw [after]
    rcases turn_far settings uploaders route turn.before turn.filled with same | ⟨url, _, handed⟩
    · rw [same]
    · rw [handed]
      exact delivers.straight _ _ _ _ straight
  rw [Turn.hops, followed, List.drop_length]

end

section

variable {around : Surroundings} {uploaders : Uploaders Peer} {fault : FileTree → Instance → Prop}
  (delivers : Delivers (.ofSettings around.settings) fault
    ((Route.ofSettings around.settings).uploader uploaders))

include delivers

/-- What the peer keeps of a run is what its turns have added. -/
theorem run_log {α : Type} (log : Peer → List α)
    (grows : ∀ {before after : Peer}, before.GoesOn after → log before <+: log after)
    (world : World Peer) :
    log (execute around uploaders world).2.far =
      log world.far ++ (runTurns around uploaders world).flatMap fun turn =>
        (log turn.after.far).drop (log turn.before.far).length := by
  have execution := execution_of_run around uploaders world
  rcases ended : execute around uploaders world with ⟨outcome, after⟩
  rw [ended] at execution
  cases execution with
  | idle _ notices unfinished =>
      rw [run_turns_of_unfinished (by rw [ended]; exact unfinished)]
      exact (List.append_nil _).symm
  | sent candidates selected summary results =>
      rw [run_turns_of_completed (congrArg Prod.fst ended) selected]
      exact world_after_log around.settings uploaders (.ofSettings around.settings)
        (fun world => log world.far)
        (fun world filled => grows (turn_goes_on delivers world filled)) (begun around world)
        candidates

/-- A run sends the requests of its turns and no others. -/
theorem run_received (world : World Peer) :
    (execute around uploaders world).2.far.received =
      world.far.received ++ (runTurns around uploaders world).flatMap (·.requests) :=
  run_log delivers (·.received) (·.received) world

/-- What clients make of themselves in a run belongs to its turns. -/
theorem run_followed (world : World Peer) :
    (execute around uploaders world).2.far.followed =
      world.far.followed ++ (runTurns around uploaders world).flatMap (·.hops) :=
  run_log delivers (·.followed) (·.followed) world

end

/-- The end of a run in which no turn was taken concludes nothing; in any other run a concluded
instance had its turn. -/
theorem turn_of_concluded {world : World Peer} {candidates : List Instance} {id : Int}
    (settings : Settings) (uploaders : Uploaders Peer) (route : Route)
    (ascending : (candidates.map (·.id)).Pairwise (· < ·))
    (concluded : Concluded world.device
      (worldAfter settings uploaders route world candidates).device id) :
    ∃ turn ∈ turns settings uploaders route world candidates, turn.filled.id = id ∧
      Concluded turn.before.device turn.after.device id := by
  by_cases candidate : id ∈ candidates.map (·.id)
  · obtain ⟨filled, member, rfl⟩ := List.mem_map.mp candidate
    obtain ⟨turn, taken, rfl⟩ := turn_of_candidate settings uploaders route world member
    obtain ⟨opens, closes⟩ := turn_frame settings uploaders route ascending taken
    refine ⟨turn, taken, rfl, ?_⟩
    unfold Concluded at concluded ⊢
    rw [opens.own_row]
    rwa [closes.own_row] at concluded
  · have changes := world_after_changes settings uploaders route world candidates
    exact absurd concluded (not_concluded_of_same (changes.rows id candidate))

/-- A payload that lies among later files was there before other files were removed. -/
theorem Delivered.earlier {route : Route} {before after : FileTree} {turn : Turn Peer}
    (shrinks : FileTree.Shrinks before after) (delivered : Delivered route after turn) :
    Delivered route before turn := by
  obtain ⟨request, status, contentType, body, whole, requests, reaches, accepts, carries, rest⟩ :=
    delivered
  exact ⟨request, status, contentType, body, whole, requests, reaches, accepts,
    carries_of_shrinks shrinks carries, rest⟩

section

variable {around : Surroundings} {uploaders : Uploaders Peer} {fault : FileTree → Instance → Prop}
  (delivers : Delivers (.ofSettings around.settings) fault
    ((Route.ofSettings around.settings).uploader uploaders))

include delivers

theorem delivered_in_run {world : World Peer} {id : Int}
    (concluded : Concluded world.device (execute around uploaders world).2.device id) :
    ∃ turn ∈ runTurns around uploaders world, turn.filled.id = id ∧
      Delivered (.ofSettings around.settings) world.device.files turn := by
  have execution := execution_of_run around uploaders world
  rcases ended : execute around uploaders world with ⟨outcome, after⟩
  rw [ended] at execution concluded
  cases execution with
  | idle _ notices unfinished => exact absurd concluded (not_concluded_of_same rfl)
  | sent candidates selected summary results =>
      have waiting := Selection.waiting_of_instances selected
      rw [run_turns_of_completed (congrArg Prod.fst ended) selected]
      obtain ⟨turn, taken, own, here⟩ := turn_of_concluded around.settings uploaders
        (.ofSettings around.settings) waiting.ascending
        (show Concluded (begun around world).device _ id from concluded)
      obtain ⟨early, _, _, before, sent, _⟩ := turn_splits around.settings uploaders
        (.ofSettings around.settings) taken
      refine ⟨turn, taken, own, (delivered_of_concluded delivers sent (own ▸ here)).earlier ?_⟩
      -- Earlier turns can only have removed files: the payload is the one from the beginning.
      rw [before]
      exact world_after_shrinks around.settings uploaders (.ofSettings around.settings)
        (begun around world) early

/-- The far side of a turn has gone on from where the run began. -/
theorem run_goes_on {world : World Peer} {turn : Turn Peer}
    (member : turn ∈ runTurns around uploaders world) : world.far.GoesOn turn.before.far := by
  obtain ⟨early, before⟩ := before_of_run member
  rw [before]
  exact world_after_goes_on delivers (begun around world) early

end

/-- A run over a peer makes the requests of its turns and no others, one turn for each instance.
What it concludes was delivered in its own turn, with the payload that was there when the run
began, and delivered at once unless an answer led elsewhere. While no answer does so, no request is made but
these. What has a fault on this side is not sent, and its result is a failure. -/
theorem concluded_only_after_delivery (server : ServerSettings)
    (credentials : Option Credentials) (configured : Option String) (accounts : Accounts)
    (around : Surroundings) (world : World Peer) :
    ∃ run, run = runTurns around (Upload.uploaders server credentials configured accounts) world ∧
      (run.map (·.filled.id)).Pairwise (· < ·) ∧
      (execute around (Upload.uploaders server credentials configured accounts)
          world).2.far.received =
        world.far.received ++ run.flatMap (·.requests) ∧
      (execute around (Upload.uploaders server credentials configured accounts)
          world).2.far.followed =
        world.far.followed ++ run.flatMap (·.hops) ∧
      (∀ summary,
        (execute around (Upload.uploaders server credentials configured accounts) world).1 =
          .completed summary → summary.results = run.map (·.result)) ∧
      (∀ id, Concluded world.device
          (execute around (Upload.uploaders server credentials configured accounts)
            world).2.device id →
        ∃ turn ∈ run, turn.filled.id = id ∧
          Delivered (.ofSettings around.settings) world.device.files turn ∧
          (turn.hops = [] →
            DeliveredAtOnce (.ofSettings around.settings) world.device.files turn)) ∧
      (Straight world.far.replies → ∀ turn ∈ run, turn.hops = []) ∧
      ∀ turn ∈ run,
        LocalFault server configured accounts (.ofSettings around.settings)
          turn.before.device.files turn.filled →
        turn.requests = [] ∧ turn.hops = [] ∧ ∃ message, turn.verdict = .failure message := by
  have delivers := uploaders_deliver server credentials configured accounts
    (.ofSettings around.settings)
  generalize Upload.uploaders server credentials configured accounts = uploaders at delivers ⊢
  refine ⟨_, rfl, run_ascends around uploaders world, run_received delivers world,
    run_followed delivers world, fun summary => results_of_completed, ?_, ?_, ?_⟩
  · intro id concluded
    obtain ⟨turn, taken, own, delivered⟩ := delivered_in_run delivers concluded
    exact ⟨turn, taken, own, delivered, delivered.at_once⟩
  · intro straight turn taken
    have remaining := (run_goes_on delivers taken).remaining
    exact no_hops_of_straight delivers (sent_of_run taken) (straight.later remaining)
  · intro turn taken atFault
    exact nothing_sent_of_fault delivers (sent_of_run taken) atFault

/-- Two instances that wait, of which only the first has its payload on the device. -/
def postedWorld : World Peer where
  device :=
    deviceWith [waitingInstance "well" "/well/1.xml", waitingInstance "pump" "/pump/2.xml"]
      { nodes :=
          [(["well"], .directory true), (["well", "1.xml"], .file [60, 100, 47, 62])] }
  far := {}

theorem posted_run_delivers :
    ∃ turn ∈ runTurns rehearsedSurroundings
        (Upload.uploaders {} none none rehearsedSurroundings.accounts) postedWorld,
      turn.filled.id = 1 ∧ Delivered (.server none) postedWorld.device.files turn ∧
        DeliveredAtOnce (.server none) postedWorld.device.files turn := by
  obtain ⟨run, rfl, _, _, _, _, concluded, straight, _⟩ := concluded_only_after_delivery {} none
    none rehearsedSurroundings.accounts rehearsedSurroundings postedWorld
  obtain ⟨turn, taken, own, delivered, direct⟩ :=
    concluded 1 (.inl ⟨by decide +kernel, by decide +kernel⟩)
  exact ⟨turn, taken, own, delivered, direct (straight nofun turn taken)⟩

/-! A row whose request is answered with an address elsewhere. -/

/-- A row that goes into a sheet of its own. -/
def sheetInstance : Instance :=
  { waitingInstance "well" "/well/1.xml" with
    submissionUri := some "https://docs.google.com/spreadsheets/d/1AbC/edit" }

def accountAtHand : Accounts := ⟨true, some "collector@example.org", .ok "token"⟩

/-- The surroundings of a rehearsal, with an account and a spreadsheet to send to. -/
def sheetSurroundings : Surroundings :=
  { rehearsedSurroundings with
    settings := { autoSend := .wifiOnly, protocol := .spreadsheet }
    accounts := accountAtHand }

def elsewhereUrl : Url where
  scheme := "https".toList
  authority := some { host := .name "other.example.org".toList }
  path := .segments ["done".toList]

/-- The row waits; the service names another address, and there everything is well. -/
def redirectedWorld : World Peer where
  device :=
    deviceWith [sheetInstance]
      { nodes :=
          [(["well"], .directory true), (["well", "1.xml"], .file [60, 100, 47, 62])] }
  far :=
    { replies := [.answer 302 none [] true (some elsewhereUrl), .answer 200 none [] true] }

/-- The request that is accepted carries nothing, and the row is marked as sent. -/
theorem redirected_row_submitted :
    ¬ (∀ (server : ServerSettings) (credentials : Option Credentials)
        (configured : Option String) (accounts : Accounts) (around : Surroundings)
        (world : World Peer) (id : Int),
        Concluded world.device
            (execute around (Upload.uploaders server credentials configured accounts)
              world).2.device id →
          ∃ turn ∈ runTurns around (Upload.uploaders server credentials configured accounts)
              world,
            turn.filled.id = id ∧
              DeliveredAtOnce (.ofSettings around.settings) world.device.files turn) ∧
      (execute sheetSurroundings (Upload.uploaders {} none none accountAtHand)
          redirectedWorld).2.far.followed.map (fun hop => (hop.url, hop.content.isNone)) =
        [(elsewhereUrl, true)] := by
  constructor
  · intro atOnce
    have submitted : ((execute sheetSurroundings (Upload.uploaders {} none none accountAtHand)
        redirectedWorld).2.device.row? 1).map (·.status) = some (Status.text .submitted) := by
      decide +kernel
    obtain ⟨later, ended, sent⟩ := Option.map_eq_some_iff.mp submitted
    obtain ⟨turn, taken, _, _, _, _, _, _, _, _, direct, _⟩ :=
      atOnce {} none none accountAtHand sheetSurroundings redirectedWorld 1
        (.inr ⟨InstanceRow.ofInstance sheetInstance, later, rfl, by decide, ended, sent⟩)
    have detours : (runTurns sheetSurroundings (Upload.uploaders {} none none accountAtHand)
        redirectedWorld).map (fun turn => turn.hops.length) = [1] := by
      decide +kernel
    have one : turn.hops.length ∈ (runTurns sheetSurroundings
        (Upload.uploaders {} none none accountAtHand) redirectedWorld).map
          (fun turn => turn.hops.length) := List.mem_map_of_mem taken
    rw [detours, direct] at one
    cases List.mem_singleton.mp one
  · decide +kernel

end FieldPost.Run
