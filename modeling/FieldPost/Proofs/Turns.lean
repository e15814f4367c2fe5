import FieldPost.Proofs.Candidates
import FieldPost.Proofs.Files
import FieldPost.Run

/-!
A run as its turns. Each candidate has one turn, in which only its own row, and of the files only
its own directory, can change; a run is nothing but its turns, with an account chosen before and
a notice given after them. What an uploader answers is left open throughout.
-/

namespace FieldPost.Run

open FieldPost.Answers

variable {σ : Type}

/-- The turn of one instance: the world it began in, its verdict, and the world it left. -/
structure Turn (σ : Type) where
  filled : Instance
  before : World σ
  verdict : Verdict
  after : World σ

namespace Turn

def result (turn : Turn σ) : Result :=
  ⟨turn.filled.id, turn.filled.displayName, turn.verdict⟩

/-- What others saw of a turn. -/
def told (turn : Turn σ) : List Event := turn.after.events.drop turn.before.events.length

theorem told_eq {turn : Turn σ} {events : List Event}
    (grown : turn.after.events = turn.before.events ++ events) : turn.told = events := by
  unfold told
  rw [grown, List.drop_left]

end Turn

section

variable (settings : Settings) (uploaders : Uploaders σ) (route : Route)

def turns : World σ → List Instance → List (Turn σ)
  | _, [] => []
  | world, filled :: rest =>
      let sent := sendOne settings uploaders route world filled
      ⟨filled, world, sent.1, sent.2⟩ :: turns sent.2 rest

def worldAfter (world : World σ) (candidates : List Instance) : World σ :=
  candidates.foldl (fun world filled => (sendOne settings uploaders route world filled).2) world

/-- A row is to go to something that is no spreadsheet. -/
def StaysHere (url : String) : Prop :=
  route.protocol = .spreadsheet ∧ SheetLink.isSheet url = false

/-- The world after an instance was handed over and the outcome was written down. -/
def handedAndMarked (world : World σ) (filled : Instance) (url : String) (status : Status) :
    World σ :=
  Submission.mark (Submission.hand (route.uploader uploaders) world filled url).2 filled status

theorem send_one_undestined {world : World σ} {filled : Instance} {error : UploadError}
    (wanted : (route.uploader uploaders).destination filled route.deviceId = .error error) :
    sendOne settings uploaders route world filled =
      (.failure error.displayMessage, Submission.mark world filled .submissionFailed) := by
  simp only [sendOne, Submission.submit, wanted, RunError.userMessage]

theorem send_one_not_sheet {world : World σ} {filled : Instance} {url : String}
    (wanted : (route.uploader uploaders).destination filled route.deviceId = .ok url)
    (stays : StaysHere route url) :
    sendOne settings uploaders route world filled = (.failure RunError.spreadsheetOnly, world) := by
  have submitted : Submission.submit uploaders route world filled =
      (.error (.notASpreadsheet filled.id (Redaction.url url)), world) := by
    unfold StaysHere at stays
    simp only [Submission.submit, wanted, if_pos stays]
  simp only [sendOne, submitted, RunError.userMessage]

theorem send_one_refused {world : World σ} {filled : Instance} {url : String}
    {error : UploadError}
    (wanted : (route.uploader uploaders).destination filled route.deviceId = .ok url)
    (leaves : ¬ StaysHere route url)
    (answer : ((route.uploader uploaders).send world.device.files filled url world.far).1 =
      .error error) :
    sendOne settings uploaders route world filled =
      (.failure error.displayMessage,
        handedAndMarked uploaders route world filled url .submissionFailed) := by
  have submitted : Submission.submit uploaders route world filled =
      (.error (.uploadFailed filled.id error),
        handedAndMarked uploaders route world filled url .submissionFailed) := by
    unfold StaysHere at leaves
    simp only [Submission.submit, wanted, if_neg leaves, Submission.send, handedAndMarked,
      Submission.hand, answer]
  simp only [sendOne, submitted, RunError.userMessage]

theorem send_one_accepted {world : World σ} {filled : Instance} {url : String}
    {message : Option String}
    (wanted : (route.uploader uploaders).destination filled route.deviceId = .ok url)
    (leaves : ¬ StaysHere route url)
    (answer : ((route.uploader uploaders).send world.device.files filled url world.far).1 =
      .ok message) :
    sendOne settings uploaders route world filled =
      (.success (acceptedText message),
        (deleteIfWanted settings
          (handedAndMarked uploaders route world filled url .submitted) filled).tell
          (countedEvent route filled)) := by
  have submitted : Submission.submit uploaders route world filled =
      (.ok message, handedAndMarked uploaders route world filled url .submitted) := by
    unfold StaysHere at leaves
    simp only [Submission.submit, wanted, if_neg leaves, Submission.send, handedAndMarked,
      Submission.hand, answer]
  simp only [sendOne, submitted]

/-- What a turn can come to. -/
inductive Course (world : World σ) (filled : Instance) : Verdict × World σ → Prop
  | undestined (error : UploadError)
      (wanted : (route.uploader uploaders).destination filled route.deviceId = .error error) :
      Course world filled
        (.failure error.displayMessage, Submission.mark world filled .submissionFailed)
  | notSheet (url : String)
      (wanted : (route.uploader uploaders).destination filled route.deviceId = .ok url)
      (stays : StaysHere route url) :
      Course world filled (.failure RunError.spreadsheetOnly, world)
  | refused (url : String) (error : UploadError)
      (wanted : (route.uploader uploaders).destination filled route.deviceId = .ok url)
      (leaves : ¬ StaysHere route url)
      (answer : ((route.uploader uploaders).send world.device.files filled url world.far).1 =
        .error error) :
      Course world filled
        (.failure error.displayMessage,
          handedAndMarked uploaders route world filled url .submissionFailed)
  | accepted (url : String) (message : Option String)
      (wanted : (route.uploader uploaders).destination filled route.deviceId = .ok url)
      (leaves : ¬ StaysHere route url)
      (answer : ((route.uploader uploaders).send world.device.files filled url world.far).1 =
        .ok message) :
      Course world filled
        (.success (acceptedText message),
          (deleteIfWanted settings
            (handedAndMarked uploaders route world filled url .submitted) filled).tell
            (countedEvent route filled))

theorem course_of_turn (world : World σ) (filled : Instance) :
    Course settings uploaders route world filled
      (sendOne settings uploaders route world filled) := by
  cases wanted : (route.uploader uploaders).destination filled route.deviceId with
  | error error =>
      rw [send_one_undestined settings uploaders route wanted]
      exact .undestined error wanted
  | ok url =>
      by_cases stays : StaysHere route url
      · rw [send_one_not_sheet settings uploaders route wanted stays]
        exact .notSheet url wanted stays
      · cases answer : ((route.uploader uploaders).send world.device.files filled url
            world.far).1 with
        | error error =>
            rw [send_one_refused settings uploaders route wanted stays answer]
            exact .refused url error wanted stays answer
        | ok message =>
            rw [send_one_accepted settings uploaders route wanted stays answer]
            exact .accepted url message wanted stays answer

/-! ### What one turn leaves alone -/

theorem delete_if_wanted_device (world : World σ) (filled : Instance) :
    (deleteIfWanted settings world filled).device = world.device ∨
      (deleteIfWanted settings world filled).device =
        (world.device.deleteInstance filled.id).2 := by
  unfold deleteIfWanted
  split
  · exact .inr rfl
  · exact .inl rfl

theorem delete_if_wanted_events (world : World σ) (filled : Instance) :
    (deleteIfWanted settings world filled).events = world.events := by
  unfold deleteIfWanted
  split <;> rfl

theorem delete_if_wanted_far (world : World σ) (filled : Instance) :
    (deleteIfWanted settings world filled).far = world.far := by
  unfold deleteIfWanted
  split <;> rfl

theorem handed_device (world : World σ) (filled : Instance) (url : String) (status : Status) :
    (handedAndMarked uploaders route world filled url status).device =
      (world.device.updateStatus filled.id status).2 := rfl

theorem handed_events (world : World σ) (filled : Instance) (url : String) (status : Status) :
    (handedAndMarked uploaders route world filled url status).events =
      world.events ++ [.sent filled.id url
        ((route.uploader uploaders).send world.device.files filled url world.far).1] := rfl

theorem accepted_events (world : World σ) (filled : Instance) (url : String) :
    ((deleteIfWanted settings (handedAndMarked uploaders route world filled url .submitted)
        filled).tell (countedEvent route filled)).events =
      world.events ++ [.sent filled.id url
        ((route.uploader uploaders).send world.device.files filled url world.far).1] ++
        [countedEvent route filled] := by
  unfold World.tell
  rw [delete_if_wanted_events, handed_events]

/-- On the device a turn does nothing, or writes a status, or writes one and then deletes. -/
theorem turn_device (world : World σ) (filled : Instance) :
    (sendOne settings uploaders route world filled).2.device = world.device ∨
      (∃ status, (sendOne settings uploaders route world filled).2.device =
        (world.device.updateStatus filled.id status).2) ∨
      (sendOne settings uploaders route world filled).2.device =
        ((world.device.updateStatus filled.id .submitted).2.deleteInstance filled.id).2 := by
  have course := course_of_turn settings uploaders route world filled
  generalize sendOne settings uploaders route world filled = sent at course ⊢
  cases course with
  | undestined error wanted => exact .inr (.inl ⟨.submissionFailed, rfl⟩)
  | notSheet url wanted stays => exact .inl rfl
  | refused url error wanted leaves answer => exact .inr (.inl ⟨.submissionFailed, rfl⟩)
  | accepted url message wanted leaves answer =>
      rcases delete_if_wanted_device settings
        (handedAndMarked uploaders route world filled url .submitted) filled with kept | gone
      · exact .inr (.inl ⟨.submitted, kept⟩)
      · exact .inr (.inr gone)

theorem turn_changes (world : World σ) (filled : Instance) :
    Device.ChangesOnly (· = filled.id) world.device
      (sendOne settings uploaders route world filled).2.device := by
  rcases turn_device settings uploaders route world filled with same | ⟨status, written⟩ | gone
  · rw [same]
    exact .refl _ _
  · rw [written]
    exact Device.update_status_changes _ _ _
  · rw [gone]
    exact (Device.update_status_changes _ _ _).trans (Device.delete_instance_changes _ _)

theorem turn_shrinks (world : World σ) (filled : Instance) :
    FileTree.Shrinks world.device.files
      (sendOne settings uploaders route world filled).2.device.files := by
  rcases turn_device settings uploaders route world filled with same | ⟨status, written⟩ | gone
  · rw [same]
    exact .refl _
  · rw [written, Device.files_update_status]
    exact .refl _
  · rw [gone]
    have shrinks := Device.delete_instance_shrinks
      (world.device.updateStatus filled.id .submitted).2 filled.id
    rwa [Device.files_update_status] at shrinks

theorem turn_clock (world : World σ) (filled : Instance) :
    (sendOne settings uploaders route world filled).2.device.clock = world.device.clock ∨
      (sendOne settings uploaders route world filled).2.device.clock =
        world.device.clock.succMicro := by
  rcases turn_device settings uploaders route world filled with same | ⟨status, written⟩ | gone
  · left
    rw [same]
  · right
    rw [written, Device.clock_update_status]
  · right
    rw [gone, Device.clock_delete_instance, Device.clock_update_status]

theorem turn_events (world : World σ) (filled : Instance) :
    world.events <+: (sendOne settings uploaders route world filled).2.events := by
  have course := course_of_turn settings uploaders route world filled
  generalize sendOne settings uploaders route world filled = sent at course ⊢
  cases course with
  | undestined error wanted => exact List.prefix_rfl
  | notSheet url wanted stays => exact List.prefix_rfl
  | refused url error wanted leaves answer => exact List.prefix_append _ _
  | accepted url message wanted leaves answer =>
      rw [accepted_events, List.append_assoc]
      exact List.prefix_append _ _

/-- On the far side a turn does nothing, or what sending the instance does there. -/
theorem turn_far (world : World σ) (filled : Instance) :
    (sendOne settings uploaders route world filled).2.far = world.far ∨
      ∃ url, (route.uploader uploaders).destination filled route.deviceId = .ok url ∧
        (sendOne settings uploaders route world filled).2.far =
          ((route.uploader uploaders).send world.device.files filled url world.far).2 := by
  have course := course_of_turn settings uploaders route world filled
  generalize sendOne settings uploaders route world filled = sent at course ⊢
  cases course with
  | undestined error wanted => exact .inl rfl
  | notSheet url wanted stays => exact .inl rfl
  | refused url error wanted leaves answer => exact .inr ⟨url, wanted, rfl⟩
  | accepted url message wanted leaves answer =>
      refine .inr ⟨url, wanted, ?_⟩
      unfold World.tell
      rw [delete_if_wanted_far]
      rfl

/-! ### What a whole run leaves alone -/

theorem world_after_cons (world : World σ) (filled : Instance) (rest : List Instance) :
    worldAfter settings uploaders route world (filled :: rest) =
      worldAfter settings uploaders route (sendOne settings uploaders route world filled).2
        rest := rfl

theorem world_after_changes (world : World σ) (candidates : List Instance) :
    Device.ChangesOnly (· ∈ candidates.map (·.id)) world.device
      (worldAfter settings uploaders route world candidates).device := by
  induction candidates generalizing world with
  | nil => exact .refl _ _
  | cons filled rest induction =>
      rw [world_after_cons]
      have first := (turn_changes settings uploaders route world filled).widen
        (· ∈ (filled :: rest).map (·.id)) (fun id same => by simp [same])
      have others := (induction (sendOne settings uploaders route world filled).2).widen
        (· ∈ (filled :: rest).map (·.id)) (fun id member => List.mem_cons_of_mem _ member)
      exact first.trans others

theorem world_after_shrinks (world : World σ) (candidates : List Instance) :
    FileTree.Shrinks world.device.files
      (worldAfter settings uploaders route world candidates).device.files := by
  induction candidates generalizing world with
  | nil => exact .refl _
  | cons filled rest induction =>
      exact (turn_shrinks settings uploaders route world filled).trans (induction _)

/-- A log that turns only add to is, after a run, what its turns added, in their order. -/
theorem world_after_log {α : Type} (log : World σ → List α)
    (grows : ∀ world filled,
      log world <+: log (sendOne settings uploaders route world filled).2)
    (world : World σ) (candidates : List Instance) :
    log (worldAfter settings uploaders route world candidates) =
      log world ++ (turns settings uploaders route world candidates).flatMap fun turn =>
        (log turn.after).drop (log turn.before).length := by
  induction candidates generalizing world with
  | nil => simp [worldAfter, turns]
  | cons filled rest induction =>
      obtain ⟨added, grown⟩ := grows world filled
      rw [world_after_cons, induction]
      simp only [turns, List.flatMap_cons, ← grown, List.drop_left, List.append_assoc]

theorem world_after_events (world : World σ) (candidates : List Instance) :
    (worldAfter settings uploaders route world candidates).events =
      world.events ++
        (turns settings uploaders route world candidates).flatMap (·.told) :=
  world_after_log settings uploaders route (·.events)
    (turn_events settings uploaders route) world candidates

theorem filled_of_turns (world : World σ) (candidates : List Instance) :
    (turns settings uploaders route world candidates).map (·.filled) = candidates := by
  induction candidates generalizing world with
  | nil => rfl
  | cons filled rest induction =>
      simp only [turns, List.map_cons, induction]

theorem ids_of_turns (world : World σ) (candidates : List Instance) :
    (turns settings uploaders route world candidates).map (·.filled.id) =
      candidates.map (·.id) := by
  have each := congrArg (List.map Instance.id)
    (filled_of_turns settings uploaders route world candidates)
  rw [List.map_map] at each
  exact each

/-- A turn comes after those of some candidates and before those of the others. -/
theorem turn_splits {world : World σ} {candidates : List Instance} {turn : Turn σ}
    (member : turn ∈ turns settings uploaders route world candidates) :
    ∃ early late, candidates = early ++ turn.filled :: late ∧
      turn.before = worldAfter settings uploaders route world early ∧
      sendOne settings uploaders route turn.before turn.filled = (turn.verdict, turn.after) ∧
      worldAfter settings uploaders route world candidates =
        worldAfter settings uploaders route turn.after late := by
  induction candidates generalizing world with
  | nil => cases member
  | cons filled rest induction =>
      rcases List.mem_cons.mp member with rfl | later
      · exact ⟨[], rest, rfl, rfl, rfl, rfl⟩
      · obtain ⟨early, late, split, before, sent, rest⟩ := induction later
        exact ⟨filled :: early, late, by rw [split, List.cons_append], before, sent, rest⟩

/-- Other turns leave the row of an instance alone, before its own turn and after it. -/
theorem turn_frame {world : World σ} {candidates : List Instance} {turn : Turn σ}
    (ascending : (candidates.map (·.id)).Pairwise (· < ·))
    (member : turn ∈ turns settings uploaders route world candidates) :
    Device.ChangesOnly (· ≠ turn.filled.id) world.device turn.before.device ∧
      Device.ChangesOnly (· ≠ turn.filled.id) turn.after.device
        (worldAfter settings uploaders route world candidates).device := by
  obtain ⟨early, late, split, before, _, after⟩ :=
    turn_splits settings uploaders route member
  rw [split, List.map_append, List.pairwise_append, List.map_cons, List.pairwise_cons]
    at ascending
  rcases ascending with ⟨_, ⟨greater, _⟩, smaller⟩
  constructor
  · rw [before]
    apply (world_after_changes settings uploaders route world early).widen
    intro id inside
    have below := smaller id inside turn.filled.id List.mem_cons_self
    omega
  · rw [after]
    apply (world_after_changes settings uploaders route turn.after late).widen
    intro id inside
    have above := greater id inside
    omega

theorem turn_of_candidate (world : World σ) {candidates : List Instance} {filled : Instance}
    (member : filled ∈ candidates) :
    ∃ turn ∈ turns settings uploaders route world candidates, turn.filled = filled := by
  rw [← filled_of_turns settings uploaders route world candidates] at member
  exact List.mem_map.mp member

/-! ### The summary and the run around the turns -/

theorem record_fresh (summary : Summary) (instanceId : Int) (name : String) (verdict : Verdict)
    (fresh : instanceId ∉ summary.results.map (·.instanceId)) :
    (summary.record instanceId name verdict).results =
      summary.results ++ [⟨instanceId, name, verdict⟩] := by
  unfold Summary.record
  have kept : summary.results.filter (·.instanceId != instanceId) = summary.results := by
    apply List.filter_eq_self.mpr
    intro result member
    have other : result.instanceId ≠ instanceId := by
      rintro rfl
      exact fresh (List.mem_map.mpr ⟨result, member, rfl⟩)
    simpa using other
  rw [kept]

/-- A summary has one result for each turn, in the order of the turns, when no instance has two
turns. -/
theorem send_all_eq (summary : Summary) (world : World σ) (candidates : List Instance)
    (ascending : (candidates.map (·.id)).Pairwise (· < ·))
    (fresh : ∀ filled ∈ candidates, filled.id ∉ summary.results.map (·.instanceId)) :
    sendAll settings uploaders route summary world candidates =
      (⟨summary.results ++ (turns settings uploaders route world candidates).map (·.result)⟩,
        worldAfter settings uploaders route world candidates) := by
  induction candidates generalizing summary world with
  | nil => simp [sendAll, turns, worldAfter]
  | cons filled rest induction =>
      rw [List.map_cons, List.pairwise_cons] at ascending
      have recorded := record_fresh summary filled.id filled.displayName
        (sendOne settings uploaders route world filled).1 (fresh filled List.mem_cons_self)
      unfold sendAll
      rw [induction _ _ ascending.2]
      · rw [recorded, world_after_cons]
        simp only [turns, List.map_cons, List.append_assoc, Turn.result]
        rfl
      · intro other member
        have greater := ascending.1 other.id (List.mem_map.mpr ⟨other, member, rfl⟩)
        have absent := fresh other (List.mem_cons_of_mem _ member)
        -- Identifiers ascend, so no result takes the place of an earlier one.
        rw [recorded, List.map_append, List.mem_append]
        rintro (old | new)
        · exact absent old
        · simp only [List.map_cons, List.map_nil, List.mem_singleton] at new
          omega

/-- The account that a run chooses, as others see it. -/
def chosen (around : Surroundings) : List Event :=
  match Route.account around.settings.protocol around.accounts with
  | .ok (some account) => [.selected account]
  | _ => []

end

def begun (around : Surroundings) (world : World σ) : World σ :=
  { world with events := world.events ++ chosen around }

theorem completed_events (around : Surroundings) (uploaders : Uploaders σ) (world : World σ)
    (candidates : List Instance) (notice : Event) :
    ((worldAfter around.settings uploaders (.ofSettings around.settings) (begun around world)
      candidates).tell notice).events =
        world.events ++ (chosen around ++
          (turns around.settings uploaders (.ofSettings around.settings) (begun around world)
            candidates).flatMap (·.told) ++ [notice]) := by
  unfold World.tell
  rw [world_after_events]
  simp only [begun, List.append_assoc]

/-- The turns of a run, of which there are none unless it completes. -/
def runTurns (around : Surroundings) (uploaders : Uploaders σ) (world : World σ) :
    List (Turn σ) :=
  match (execute around uploaders world).1, Selection.instances around.settings world.device with
  | .completed _, .ok candidates =>
      turns around.settings uploaders (.ofSettings around.settings) (begun around world)
        candidates
  | _, _ => []

theorem run_turns_of_unfinished {around : Surroundings} {uploaders : Uploaders σ}
    {world : World σ}
    (unfinished : ∀ summary, (execute around uploaders world).1 ≠ .completed summary) :
    runTurns around uploaders world = [] := by
  unfold runTurns
  split
  · rename_i summary _ completed _
    exact absurd completed (unfinished summary)
  · rfl

theorem run_turns_of_completed {around : Surroundings} {uploaders : Uploaders σ}
    {world : World σ} {summary : Summary} {candidates : List Instance}
    (completed : (execute around uploaders world).1 = .completed summary)
    (selected : Selection.instances around.settings world.device = .ok candidates) :
    runTurns around uploaders world =
      turns around.settings uploaders (.ofSettings around.settings) (begun around world)
        candidates := by
  simp only [runTurns, completed, selected]

theorem sent_of_run {around : Surroundings} {uploaders : Uploaders σ} {world : World σ}
    {turn : Turn σ} (member : turn ∈ runTurns around uploaders world) :
    sendOne around.settings uploaders (.ofSettings around.settings) turn.before turn.filled =
      (turn.verdict, turn.after) := by
  unfold runTurns at member
  split at member
  · obtain ⟨_, _, _, _, sent, _⟩ := turn_splits _ _ _ member
    exact sent
  · cases member

/-- A turn of a run begins where some earlier ones have ended. -/
theorem before_of_run {around : Surroundings} {uploaders : Uploaders σ} {world : World σ}
    {turn : Turn σ} (member : turn ∈ runTurns around uploaders world) :
    ∃ early, turn.before =
      worldAfter around.settings uploaders (.ofSettings around.settings) (begun around world)
        early := by
  unfold runTurns at member
  split at member
  · obtain ⟨early, _, _, before, _⟩ := turn_splits _ _ _ member
    exact ⟨early, before⟩
  · cases member

theorem run_ascends (around : Surroundings) (uploaders : Uploaders σ) (world : World σ) :
    ((runTurns around uploaders world).map (·.filled.id)).Pairwise (· < ·) := by
  unfold runTurns
  split
  · rename_i selected
    rw [ids_of_turns]
    exact (Selection.waiting_of_instances selected).ascending
  · exact .nil

/-- A run either has no turns at all and changes nothing, or it completes with one turn for
each selected instance. -/
inductive Execution (around : Surroundings) (uploaders : Uploaders σ) (world : World σ) :
    Outcome → World σ → Prop
  | idle (outcome : Outcome) (notices : List (Bool × String))
      (unfinished : ∀ summary, outcome ≠ .completed summary) :
      Execution around uploaders world outcome
        { world with
          events := world.events ++ notices.map (fun notice => Event.noticed notice.1 notice.2) }
  | sent (candidates : List Instance)
      (selected : Selection.instances around.settings world.device = .ok candidates)
      (summary : Summary)
      (results : summary.results =
        (turns around.settings uploaders (.ofSettings around.settings) (begun around world)
          candidates).map (·.result)) :
      Execution around uploaders world (.completed summary)
        ((worldAfter around.settings uploaders (.ofSettings around.settings)
          (begun around world) candidates).tell (.noticed summary.anyFailure summary.message))

theorem execution_of_complete {around : Surroundings} (uploaders : Uploaders σ)
    {world : World σ} {candidates : List Instance}
    (selected : Selection.instances around.settings world.device = .ok candidates) :
    Execution around uploaders world
      (complete around.settings uploaders (begun around world) candidates).1
      (complete around.settings uploaders (begun around world) candidates).2 := by
  have waiting := Selection.waiting_of_instances selected
  have turned := send_all_eq around.settings uploaders (.ofSettings around.settings) {}
    (begun around world) candidates waiting.ascending (by simp)
  unfold complete
  rw [turned]
  exact .sent candidates selected _ rfl

theorem execution_of_idle (around : Surroundings) (uploaders : Uploaders σ) (world : World σ)
    {outcome : Outcome} (unfinished : ∀ summary, outcome ≠ .completed summary) :
    Execution around uploaders world outcome world := by
  have quiet : Execution around uploaders world outcome
      { world with events := world.events ++ [] } := .idle outcome [] unfinished
  rwa [List.append_nil] at quiet

theorem execution_of_dispatch {around : Surroundings} {uploaders : Uploaders σ}
    {world : World σ} {candidates : List Instance}
    (selected : Selection.instances around.settings world.device = .ok candidates) :
    Execution around uploaders world (dispatch around uploaders world candidates).1
      (dispatch around uploaders world candidates).2 := by
  have completed := execution_of_complete uploaders selected
  unfold dispatch
  cases account : Route.account around.settings.protocol around.accounts with
  | error error =>
      exact .idle (.aborted error) [(true, error.userMessage)] (by simp)
  | ok picked =>
      simp only [begun, chosen, account] at completed
      cases picked with
      | none => rwa [List.append_nil] at completed
      | some name => exact completed

/-- Whatever a run finds around it, it is idle or it is its turns. -/
theorem execution_of_run (around : Surroundings) (uploaders : Uploaders σ) (world : World σ) :
    Execution around uploaders world (execute around uploaders world).1
      (execute around uploaders world).2 := by
  unfold execute
  by_cases moving : around.storage.migrating = true
  · rw [if_pos moving]
    exact execution_of_idle around uploaders world (by simp)
  · rw [if_neg moving]
    cases gate around world.device with
    | error error => exact execution_of_idle around uploaders world (by simp)
    | ok way =>
        cases way with
        | stop => exact execution_of_idle around uploaders world (by simp)
        | retry => exact execution_of_idle around uploaders world (by simp)
        | proceed =>
            dsimp only
            unfold proceed
            cases selected : Selection.instances around.settings world.device with
            | error error => exact execution_of_idle around uploaders world (by simp)
            | ok candidates =>
                cases candidates with
                | nil => exact execution_of_idle around uploaders world (by simp)
                | cons first rest => exact execution_of_dispatch selected

/-- The results of a run are those of its turns. -/
theorem results_of_completed {around : Surroundings} {uploaders : Uploaders σ} {world : World σ}
    {summary : Summary} (completed : (execute around uploaders world).1 = .completed summary) :
    summary.results = (runTurns around uploaders world).map (·.result) := by
  have execution := execution_of_run around uploaders world
  rw [completed] at execution
  generalize (execute around uploaders world).2 = after at execution
  cases execution with
  | idle _ notices unfinished => exact absurd rfl (unfinished summary)
  | sent candidates selected _ results => rwa [run_turns_of_completed completed selected]

end FieldPost.Run
