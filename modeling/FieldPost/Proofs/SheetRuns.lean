import FieldPost.Proofs.Shapes
import FieldPost.Proofs.SheetLinks
import FieldPost.Proofs.Wording

/-!
Runs that append rows. The requests of a turn go to the sheets service, for the sheet that its
destination names and for no other. The uploader never finds a link that it cannot use, because
what is no link to a sheet is turned away before it. Settings that were accepted have a link to a
sheet, so an instance without a destination of its own always has one. Whether the service takes
the row is not said, nor where it may lead a client.
-/

namespace FieldPost

open FieldPost.Answers FieldPost.Http FieldPost.Text FieldPost.Upload

namespace Upload.Spreadsheet

/-- It was known where to send to. -/
def Addressed : UploadError → Prop
  | .invalidUrl _ _ => False
  | .noDestination _ => False
  | _ => True

theorem request_url {accounts : Accounts} {files : FileTree} {filled : Instance} {url : String}
    {built : Request} (settled : request accounts files filled url = .ok built) :
    ∃ id, SheetLink.id? url = some id ∧ built.url = SheetLink.appendUrl id := by
  rcases (bind_eq_ok_iff _ _ _).mp settled with ⟨id, found, afterSheet⟩
  rcases (bind_eq_ok_iff _ _ _).mp afterSheet with ⟨values, _, afterRow⟩
  rcases (bind_eq_ok_iff _ _ _).mp afterRow with ⟨given, _, afterToken⟩
  rcases (bind_eq_ok_iff _ _ _).mp afterToken with ⟨value, _, same⟩
  cases same
  refine ⟨id, ?_, rfl⟩
  unfold sheet at found
  split at found
  · rename_i link
    rw [link, Except.ok.inj found]
  · cases found

theorem row_addressed (files : FileTree) (path : String) :
    FailsOnly Addressed (row files path) := by
  unfold row
  split
  · exact (fails_only_error_iff _ _).mpr trivial
  · split
    · exact (fails_only_error_iff _ _).mpr trivial
    · exact fails_only_of_ok _ _

theorem token_addressed (accounts : Accounts) : FailsOnly Addressed (token accounts) := by
  unfold token
  split
  · exact fails_only_of_ok _ _
  · exact (fails_only_error_iff _ _).mpr trivial

theorem authorization_addressed (given : String) :
    FailsOnly Addressed (authorization given) := by
  unfold authorization
  split
  · exact fails_only_of_ok _ _
  · exact (fails_only_error_iff _ _).mpr trivial

theorem judge_addressed (status : Nat) (text : String) :
    FailsOnly Addressed (judge status text) := by
  unfold judge
  split
  · exact fails_only_of_ok _ _
  · exact (fails_only_error_iff _ _).mpr trivial

/-- Of all that a request is made of, only the identifier of the sheet can be missing in a link. -/
theorem request_addressed (accounts : Accounts) (files : FileTree) (filled : Instance)
    {url : String} (isSheet : SheetLink.isSheet url = true) :
    FailsOnly Addressed (request accounts files filled url) := by
  obtain ⟨id, link⟩ := Option.isSome_iff_exists.mp isSheet
  have found : sheet url = .ok id := by
    simp only [sheet, link]
  refine FailsOnly.bind ?_ fun id => ?_
  · rw [found]
    exact fails_only_of_ok _ id
  · refine (row_addressed files filled.path).bind fun values => ?_
    refine (token_addressed accounts).bind fun given => ?_
    exact (authorization_addressed given).bind fun value => fails_only_of_ok _ _

theorem send_addressed (accounts : Accounts) (files : FileTree) (filled : Instance)
    {url : String} (isSheet : SheetLink.isSheet url = true) (peer : Peer) :
    FailsOnly Addressed (send accounts files filled url peer).1 := by
  have usable := request_addressed accounts files filled isSheet
  unfold send
  split
  · rename_i error failed
    exact (fails_only_error_iff _ _).mpr (usable error failed)
  · dsimp only
    split
    · exact (fails_only_error_iff _ _).mpr trivial
    · exact (fails_only_error_iff _ _).mpr trivial
    · exact judge_addressed _ _

end Upload.Spreadsheet

theorem Settings.sheet_of_checked {environment : Environment} {files : FileTree}
    {settings : Settings} (checked : settings.check environment files = .ok ())
    (protocol : settings.protocol = .spreadsheet) :
    ∃ url, settings.spreadsheetUrl = some url ∧ SheetLink.isSheet url = true := by
  obtain ⟨_, _, afterServer⟩ := (bind_eq_ok_iff _ _ _).mp checked
  obtain ⟨_, named, _⟩ := (bind_eq_ok_iff _ _ _).mp afterServer
  rw [checkSpreadsheet, protocol] at named
  split at named
  · rename_i other
    cases other
  · cases named
  · rename_i url _ known
    split at named
    · rename_i isSheet
      exact ⟨url, known, isSheet⟩
    · cases named

namespace Run

section

variable {server : ServerSettings} {credentials : Option Credentials} {configured : Option String}
  {accounts : Accounts}

/-- What is sent in a turn was settled for the destination of the instance. -/
theorem request_of_turn {settings : Settings} {turn : Turn Peer}
    (sent : sendOne settings (uploaders server credentials configured accounts) .spreadsheet
      turn.before turn.filled = (turn.verdict, turn.after))
    {request : Request} (member : request ∈ turn.requests) :
    ∃ url, Spreadsheet.destination configured turn.filled none = .ok url ∧
      Spreadsheet.request accounts turn.before.device.files turn.filled url = .ok request := by
  have after : turn.after = (sendOne settings (uploaders server credentials configured accounts)
    .spreadsheet turn.before turn.filled).2 := (congrArg Prod.snd sent).symm
  rw [Turn.requests, after] at member
  rcases turn_far settings (uploaders server credentials configured accounts) .spreadsheet
    turn.before turn.filled with same | ⟨url, wanted, handed⟩
  · rw [same, List.drop_length] at member
    cases member
  · refine ⟨url, wanted, ?_⟩
    rw [handed] at member
    simp only [Route.uploader, uploaders] at member
    rcases Spreadsheet.send_cases configured accounts turn.before.device.files turn.filled url
      turn.before.far with ⟨error, nothing⟩ | ⟨built, exchanged⟩
    · simp only [Spreadsheet.uploader] at member
      rw [nothing, List.drop_length] at member
      cases member
    · rw [exchanged.sent] at member
      rw [Peer.new_of_exchange member]
      exact exchanged.settles

/-- The requests of a turn append to the sheet that the destination of its instance names. -/
def Turn.AppendsToNamed (configured : Option String) (turn : Turn Peer) : Prop :=
  ∀ request ∈ turn.requests, ∃ url id,
    Spreadsheet.destination configured turn.filled none = .ok url ∧ SheetLink.Names url id ∧
      request.url = SheetLink.appendUrl id ∧
      Url.parse request.url = .ok (SheetLink.appended id)

theorem appends_to_named {settings : Settings} {turn : Turn Peer}
    (sent : sendOne settings (uploaders server credentials configured accounts) .spreadsheet
      turn.before turn.filled = (turn.verdict, turn.after)) : turn.AppendsToNamed configured := by
  intro request member
  obtain ⟨url, wanted, settled⟩ := request_of_turn sent member
  obtain ⟨id, link, address⟩ := Spreadsheet.request_url settled
  have names := (SheetLink.id_eq_some_iff url id).mp link
  refine ⟨url, id, wanted, names, address, ?_⟩
  rw [address]
  exact names.parse_append_url

end

/-- What came of submitting the instance of a turn. -/
def Turn.outcome {σ : Type} (uploaders : Uploaders σ) (route : Route) (turn : Turn σ) :
    Except RunError (Option String) :=
  (Submission.submit uploaders route turn.before turn.filled).1

/-- Why submitting can fail: the destination, the kind of the destination, or the sending. -/
theorem failed_outcome_cases {σ : Type} {uploaders : Uploaders σ} {route : Route} {turn : Turn σ}
    {error : RunError} (failed : turn.outcome uploaders route = .error error) :
    (∃ cause, error = .uploadFailed turn.filled.id cause ∧
        (route.uploader uploaders).destination turn.filled route.deviceId = .error cause) ∨
      ∃ url, (route.uploader uploaders).destination turn.filled route.deviceId = .ok url ∧
        (StaysHere route url ∧ error = .notASpreadsheet turn.filled.id (Redaction.url url) ∨
          ¬StaysHere route url ∧ ∃ cause, error = .uploadFailed turn.filled.id cause ∧
            ((route.uploader uploaders).send turn.before.device.files turn.filled url
              turn.before.far).1 = .error cause) := by
  unfold Turn.outcome Submission.submit at failed
  dsimp only at failed
  split at failed
  · rename_i cause wanted
    cases failed
    exact .inl ⟨cause, rfl, wanted⟩
  · rename_i url wanted
    refine .inr ⟨url, wanted, ?_⟩
    split at failed
    · rename_i stays
      cases failed
      exact .inl ⟨stays, rfl⟩
    · rename_i leaves
      unfold Submission.send Submission.hand at failed
      dsimp only at failed
      split at failed
      · cases failed
      · rename_i cause answer
        cases failed
        exact .inr ⟨leaves, cause, rfl, answer⟩

section

variable {server : ServerSettings} {credentials : Option Credentials} {configured : Option String}
  {accounts : Accounts}

theorem outcome_link_usable (turn : Turn Peer) (id : Int) (url reason : String) :
    turn.outcome (uploaders server credentials configured accounts) .spreadsheet ≠
      .error (.uploadFailed id (.invalidUrl url reason)) := by
  intro failed
  rcases failed_outcome_cases failed with
    ⟨cause, same, wanted⟩ | ⟨target, _, ⟨_, same⟩ | ⟨leaves, cause, same, answer⟩⟩
  · cases same
    simp only [Route.uploader, uploaders, Spreadsheet.uploader, Spreadsheet.destination] at wanted
    split at wanted <;> cases wanted
  · cases same
  · cases same
    have isSheet : SheetLink.isSheet target = true := by
      simpa [StaysHere, Route.protocol] using leaves
    exact Spreadsheet.send_addressed accounts _ _ isSheet _ _ answer

/-- With a link to a sheet in the settings, an instance without a destination of its own has one,
and one that leads to a sheet. -/
theorem outcome_destined {url : String} (link : configured = some url)
    (isSheet : SheetLink.isSheet url = true) {turn : Turn Peer}
    (own : turn.filled.submissionUri = none) :
    (∀ id shown, turn.outcome (uploaders server credentials configured accounts) .spreadsheet ≠
        .error (.notASpreadsheet id shown)) ∧
      ∀ id missing, turn.outcome (uploaders server credentials configured accounts)
        .spreadsheet ≠ .error (.uploadFailed id (.noDestination missing)) := by
  have destined : (Route.spreadsheet.uploader
      (uploaders server credentials configured accounts)).destination turn.filled
        Route.spreadsheet.deviceId = .ok url := by
    simp only [Route.uploader, uploaders, Spreadsheet.uploader, Spreadsheet.destination, own, link]
  constructor
  · intro id shown failed
    rcases failed_outcome_cases failed with
      ⟨cause, same, _⟩ | ⟨target, wanted, ⟨stays, _⟩ | ⟨_, cause, same, _⟩⟩
    · cases same
    · cases destined.symm.trans wanted
      cases isSheet.symm.trans stays.2
    · cases same
  · intro id missing failed
    rcases failed_outcome_cases failed with
      ⟨cause, _, wanted⟩ | ⟨target, wanted, ⟨_, same⟩ | ⟨_, cause, same, answer⟩⟩
    · cases destined.symm.trans wanted
    · cases same
    · cases same
      cases destined.symm.trans wanted
      exact Spreadsheet.send_addressed accounts _ _ isSheet _ _ answer

end

/-- A link is one to a sheet when it names an identifier, and a run only ever asks for rows to be
appended at the URL of the sheets service that is made of the identifier that the destination of
their instance names. So no instance fails because of a link that cannot be used, and with settings that were
accepted none without a destination of its own fails for want of a destination or of a sheet. -/
theorem rows_appended_to_named_sheets :
    (∀ url, (SheetLink.isSheet url = true ↔ ∃ id, SheetLink.id? url = some id) ∧
      ∀ id, SheetLink.id? url = some id ↔ SheetLink.Names url id) ∧
    ∀ (server : ServerSettings) (credentials : Option Credentials) (configured : Option String)
      (accounts : Accounts) (around : Surroundings) (world : World Peer),
      around.settings.protocol = .spreadsheet →
      ∃ run sheets, run = runTurns around sheets world ∧
        sheets = uploaders server credentials configured accounts ∧
        (execute around sheets world).2.far.received =
          world.far.received ++ run.flatMap (·.requests) ∧
        (∀ summary, (execute around sheets world).1 = .completed summary →
          summary.results = run.map (·.result)) ∧
        ∀ turn ∈ run,
          sendOne around.settings sheets .spreadsheet turn.before turn.filled =
            (turn.verdict, turn.after) ∧
          turn.AppendsToNamed configured ∧
          (∀ id url reason, turn.outcome sheets .spreadsheet ≠
            .error (.uploadFailed id (.invalidUrl url reason))) ∧
          ∀ environment files text, Settings.load environment files text = .ok around.settings →
            configured = around.settings.spreadsheetUrl → turn.filled.submissionUri = none →
            (∀ id url, turn.outcome sheets .spreadsheet ≠ .error (.notASpreadsheet id url)) ∧
              ∀ id missing, turn.outcome sheets .spreadsheet ≠
                .error (.uploadFailed id (.noDestination missing)) := by
  refine ⟨fun url => ⟨Option.isSome_iff_exists, fun id => SheetLink.id_eq_some_iff url id⟩, ?_⟩
  intro server credentials configured accounts around world protocol
  have delivers := uploaders_deliver server credentials configured accounts
    (.ofSettings around.settings)
  refine ⟨_, _, rfl, rfl, run_received delivers world,
    fun summary completed => results_of_completed completed, ?_⟩
  intro turn member
  have route : Route.ofSettings around.settings = .spreadsheet := by
    rw [Route.ofSettings, protocol]
  have sent := sent_of_run member
  rw [route] at sent
  refine ⟨sent, appends_to_named sent, outcome_link_usable turn, ?_⟩
  intro environment files text loaded configuration own
  obtain ⟨_, _, _, _, checked⟩ := Settings.load_eq_ok_iff.mp loaded
  obtain ⟨url, known, isSheet⟩ := Settings.sheet_of_checked checked protocol
  exact outcome_destined (configuration.trans known) isSheet own

/-! Settings with a link to a sheet, and an instance without a destination of its own. -/

def linkedText : String :=
  "\x7b\"autoSend\":\"wifi_only\",\"protocol\":\"google_sheets\",\"spreadsheet\":\x7b" ++
    "\"url\":\"https://docs.google.com/spreadsheets/d/x_2?usp=/d/z\"\x7d\x7d"

def linkedSurroundings : Surroundings :=
  { sheetSurroundings with
    settings :=
      { sheetSurroundings.settings with
        spreadsheetUrl := some "https://docs.google.com/spreadsheets/d/x_2?usp=/d/z" } }

def linkedSheets : Uploaders Peer :=
  uploaders {} none linkedSurroundings.settings.spreadsheetUrl accountAtHand

def linkedWorld : World Peer where
  device :=
    deviceWith [waitingInstance "well" "/well/1.xml"]
      { nodes :=
          [(["well"], .directory true), (["well", "1.xml"], .file [60, 100, 47, 62])] }
  far := {}

/-- The row goes to the sheet of the settings, whatever follows its identifier in the link. -/
theorem linked_run_appends :
    linkedSurroundings.settings.protocol = .spreadsheet ∧
      Settings.load ⟨none, []⟩ {} linkedText = .ok linkedSurroundings.settings ∧
      ∃ turn ∈ runTurns linkedSurroundings linkedSheets linkedWorld,
        turn.filled.submissionUri = none ∧
        (∃ request ∈ turn.requests, Url.parse request.url = .ok (SheetLink.appended "x_2")) ∧
        (∀ id url, turn.outcome linkedSheets .spreadsheet ≠ .error (.notASpreadsheet id url)) ∧
        ∀ id missing, turn.outcome linkedSheets .spreadsheet ≠
          .error (.uploadFailed id (.noDestination missing)) := by
  obtain ⟨named, runs⟩ := rows_appended_to_named_sheets
  obtain ⟨_, sheets, rfl, same, _, _, each⟩ := runs {} none linkedSurroundings.settings.spreadsheetUrl
    accountAtHand linkedSurroundings linkedWorld rfl
  obtain rfl : sheets = linkedSheets := same
  have loaded : Settings.load ⟨none, []⟩ {} linkedText = .ok linkedSurroundings.settings :=
    eq_ok_of_to_option (by decide +kernel)
  have shown : (runTurns linkedSurroundings linkedSheets linkedWorld).map
      (fun turn => (turn.filled.submissionUri, turn.requests.map (·.url))) =
        [(none, [SheetLink.appendUrl "x_2"])] := by decide +kernel
  obtain ⟨turn, isRun, parts⟩ := List.map_eq_singleton_iff.mp shown
  obtain ⟨own, urls⟩ := Prod.mk.inj parts
  obtain ⟨request, isSent, _⟩ := List.map_eq_singleton_iff.mp urls
  have taken : turn ∈ runTurns linkedSurroundings linkedSheets linkedWorld := by
    rw [isRun]
    exact List.mem_singleton_self turn
  have sending : request ∈ turn.requests := by
    rw [isSent]
    exact List.mem_singleton_self request
  obtain ⟨_, appends, _, destined⟩ := each turn taken
  obtain ⟨url, id, wanted, names, _, parsed⟩ := appends request sending
  -- The link of the settings names one identifier only, so this is the one in the request.
  have link : SheetLink.id? "https://docs.google.com/spreadsheets/d/x_2?usp=/d/z" = some "x_2" := by
    decide +kernel
  simp only [Spreadsheet.destination, own, linkedSurroundings, Except.ok.injEq] at wanted
  rw [← ((named url).2 id), ← wanted, link] at names
  cases names
  exact ⟨rfl, loaded, turn, taken, own, ⟨request, sending, parsed⟩,
    destined ⟨none, []⟩ {} linkedText loaded rfl own⟩

end Run

end FieldPost
