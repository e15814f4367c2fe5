import FieldPost.Proofs.Blanks
import FieldPost.Proofs.Delivery
import FieldPost.Proofs.Summaries

/-!
Words for a failure. What the user is shown of an upload that failed has a character that is not
blank, with one exception: the service behind a spreadsheet turned the row away with a message that
is there but blank. A message from a server is trimmed first and counts as missing when nothing is
left, and a missing message gives way to the number of the refusal; that of the service is only
looked at for whether it is empty.

What the words of a far side mean is not said, nor which of several failures comes first.
-/

namespace FieldPost

open FieldPost.Answers FieldPost.Http FieldPost.Text

namespace UploadError

/-- The user is shown something of the error. -/
def HasWords (error : UploadError) : Prop := isBlankText error.displayMessage = false

theorem message_not_blank (error : UploadError) : isBlankText error.message = false := by
  unfold message
  cases error <;> dsimp only <;> simp [isBlankText, isBlank]

theorem display_message_of_numbered (status : Nat) :
    (rejected status "").displayMessage = "Error: " ++ toString status := rfl

theorem display_message_of_rejected (status : Nat) {message : String} (some : message ≠ "") :
    (rejected status message).displayMessage = message := by
  unfold displayMessage
  split
  · rename_i empty
    cases empty
    exact absurd rfl some
  · rename_i same
    cases same
    rfl
  · rename_i other
    exact absurd rfl (other status message)

theorem display_message_blank_iff (error : UploadError) :
    isBlankText error.displayMessage = true ↔
      ∃ status message, error = .rejected status message ∧ message ≠ "" ∧
        isBlankText message = true := by
  constructor
  · intro blank
    cases error with
    | rejected status message =>
        by_cases empty : message = ""
        · rw [empty, display_message_of_numbered, is_blank_text_append] at blank
          cases blank
        · rw [display_message_of_rejected status empty] at blank
          exact ⟨status, message, rfl, empty, blank⟩
    | _ => exact absurd blank (by simp [displayMessage, message_not_blank])
  · rintro ⟨status, message, rfl, some, blank⟩
    rw [display_message_of_rejected status some]
    exact blank

/-- Only the words of a far side can be blank. -/
theorem has_words_of_own {error : UploadError}
    (own : ∀ status message, error ≠ .rejected status message) : error.HasWords := by
  unfold HasWords
  rw [← Bool.not_eq_true, display_message_blank_iff]
  rintro ⟨status, message, rejected, _⟩
  exact own status message rejected

theorem HasWords.not_blank {error : UploadError} (words : error.HasWords) :
    isBlankText error.displayMessage ≠ true := by
  rw [words]
  exact Bool.false_ne_true

theorem fails_in_words {α : Type} {error : UploadError}
    (own : ∀ status message, error ≠ .rejected status message) :
    FailsOnly HasWords (.error error : Except UploadError α) :=
  (fails_only_error_iff HasWords error).mpr (has_words_of_own own)

end UploadError

namespace Upload

open UploadError

/-! ### The server -/

namespace Server

theorem destination_in_words (server : ServerSettings) (filled : Instance)
    (deviceId : Option String) : FailsOnly HasWords (destination server filled deviceId) := by
  unfold destination
  dsimp only
  cases Url.parse (filled.submissionUri.getD server.submissionUrl) with
  | error problem => exact fails_in_words (by simp)
  | ok url => cases deviceId <;> exact fails_only_of_ok HasWords _

theorem read_file_in_words (files : FileTree) (path : String) :
    FailsOnly HasWords (readFile files path) := by
  unfold readFile
  cases files.readFile path with
  | ok content => exact fails_only_of_ok HasWords content
  | error problem => exact fails_in_words (by simp)

theorem read_directory_in_words (files : FileTree) (path : String) :
    FailsOnly HasWords (readDirectory files path) := by
  unfold readDirectory
  cases files.readDirectory path with
  | ok names => exact fails_only_of_ok HasWords names
  | error problem => exact fails_in_words (by simp)

theorem parts_in_words (files : FileTree) (filled : Instance) :
    FailsOnly HasWords (parts files filled) := by
  unfold parts
  apply (read_file_in_words files filled.path).bind
  intro payload
  dsimp only
  cases filled.directory? with
  | none => exact fails_only_of_ok HasWords _
  | some directory =>
      apply (read_directory_in_words files directory).bind
      intro names
      apply FailsOnly.bind
      · apply FailsOnly.mapM
        intro name
        exact (read_file_in_words files _).map _
      · intro attachments
        exact fails_only_of_ok HasWords _

/-- A message is trimmed, and is there only when something is left of it. -/
theorem server_message_not_blank {text message : String}
    (found : Markup.serverMessage? text = some message) : isBlankText message = false := by
  unfold Markup.serverMessage? at found
  obtain ⟨chars, read, rfl⟩ := Option.map_eq_some_iff.mp found
  unfold Markup.message? at read
  dsimp only at read
  split at read
  · cases read
  · rename_i some
    cases read
    rw [is_blank_text_of_list]
    apply filled_of_trim
    simpa using some

theorem judge_in_words (url : String) (status : Nat) (text : String) :
    FailsOnly HasWords (judge url status text) := by
  unfold judge
  split
  · exact fails_only_of_ok HasWords _
  · split
    · exact fails_in_words (by simp)
    · rw [fails_only_error_iff]
      unfold HasWords
      cases found : Markup.serverMessage? text with
      | none =>
          rw [Option.getD_none, display_message_of_numbered, is_blank_text_append]
          rfl
      | some message =>
          have filled := server_message_not_blank found
          have some : message ≠ "" := by
            rintro rfl
            cases filled
          rw [Option.getD_some, display_message_of_rejected status some]
          exact filled

theorem send_in_words (credentials : Option Credentials) (files : FileTree) (filled : Instance)
    (url : String) (peer : Peer) :
    FailsOnly HasWords (send credentials files filled url peer).1 := by
  unfold send
  cases built : parts files filled with
  | error error =>
      exact (fails_only_error_iff HasWords error).mpr (parts_in_words files filled error built)
  | ok found =>
      dsimp only
      unfold post
      cases Target.ofText url with
      | error problem => exact fails_in_words (by simp)
      | ok target =>
          dsimp only
          cases (peer.exchange (request target credentials found)).1 with
          | lost => exact fails_in_words (by simp)
          | astray reason => exact fails_in_words (by simp)
          | answer status contentType body whole => exact judge_in_words url status _

end Server

/-! ### The spreadsheet -/

namespace Spreadsheet

theorem destination_in_words (configured : Option String) (filled : Instance)
    (deviceId : Option String) : FailsOnly HasWords (destination configured filled deviceId) := by
  unfold destination
  split
  · exact fails_only_of_ok HasWords _
  · exact fails_only_of_ok HasWords _
  · exact fails_in_words (by simp)

theorem sheet_in_words (url : String) : FailsOnly HasWords (sheet url) := by
  unfold sheet
  cases SheetLink.id? url with
  | some id => exact fails_only_of_ok HasWords id
  | none => exact fails_in_words (by simp)

theorem row_in_words (files : FileTree) (path : String) : FailsOnly HasWords (row files path) := by
  unfold row
  cases files.readText path with
  | error problem => exact fails_in_words (by simp)
  | ok text =>
      dsimp only
      cases Markup.leafValues text with
      | error problem => exact fails_in_words (by simp)
      | ok fields => exact fails_only_of_ok HasWords _

theorem token_in_words (accounts : Accounts) : FailsOnly HasWords (token accounts) := by
  unfold token
  cases accounts.token with
  | ok given => exact fails_only_of_ok HasWords given
  | error error => exact fails_in_words (by simp)

theorem authorization_in_words (given : String) : FailsOnly HasWords (authorization given) := by
  unfold authorization
  split
  · exact fails_only_of_ok HasWords _
  · exact fails_in_words (by simp)

theorem request_in_words (accounts : Accounts) (files : FileTree) (filled : Instance)
    (url : String) : FailsOnly HasWords (request accounts files filled url) := by
  unfold request
  apply (sheet_in_words url).bind
  intro id
  apply (row_in_words files filled.path).bind
  intro values
  apply (token_in_words accounts).bind
  intro given
  apply (authorization_in_words given).bind
  intro value
  exact fails_only_of_ok HasWords _

/-- The service says this, and it is no empty text. -/
theorem error_message_eq_iff (text : String) {words : String} (some : words ≠ "") :
    errorMessage text = words ↔ ∃ value, Json.ofText text = .ok value ∧
      (value.get? "error").bind (·.get? "message") = .some (.string words) := by
  unfold errorMessage
  cases Json.ofText text with
  | error fault => simpa using some.symm
  | ok value =>
      simp only [Except.ok.injEq, exists_eq_left']
      cases (value.get? "error").bind (·.get? "message") with
      | none => simpa using some.symm
      | some said => cases said <;> simp [Json.string?, some.symm]

/-- A message came with the refusal, and it is there but blank. -/
def SaysBlank (text : String) : Prop :=
  ∃ value words, Json.ofText text = .ok value ∧
    (value.get? "error").bind (·.get? "message") = some (.string words) ∧
    words ≠ "" ∧ isBlankText words = true

/-- The row was asked for and turned away with a blank message. -/
def RefusedBlankly (accounts : Accounts) (files : FileTree) (filled : Instance) (url : String)
    (peer : Peer) : Prop :=
  ∃ built status contentType body whole, request accounts files filled url = .ok built ∧
    (peer.exchange built).1 = .answer status contentType body whole ∧
    ¬ Accepts .spreadsheet status ∧ SaysBlank (answerText contentType body whole)

theorem judge_blank_iff {status : Nat} {text : String} {error : UploadError}
    (refused : judge status text = .error error) :
    isBlankText error.displayMessage = true ↔ SaysBlank text := by
  have rejected : error = .rejected status (errorMessage text) := by
    unfold judge at refused
    split at refused
    · cases refused
    · exact (Except.error.inj refused).symm
  rw [display_message_blank_iff, rejected]
  constructor
  · rintro ⟨_, words, same, some, blank⟩
    have said : errorMessage text = words := (UploadError.rejected.inj same).2
    obtain ⟨value, read, found⟩ := (error_message_eq_iff text some).mp said
    exact ⟨value, words, read, found, some, blank⟩
  · rintro ⟨value, words, read, found, some, blank⟩
    have said := (error_message_eq_iff text some).mpr ⟨value, read, found⟩
    exact ⟨status, words, by rw [said], some, blank⟩

/-- Without an answer nothing was turned away. -/
theorem blank_iff_of_unanswered {accounts : Accounts} {files : FileTree} {filled : Instance}
    {url : String} {peer : Peer} {built : Request} {error : UploadError}
    (settled : request accounts files filled url = .ok built)
    (unanswered : ∀ status contentType body whole,
      (peer.exchange built).1 ≠ .answer status contentType body whole)
    (words : error.HasWords) :
    isBlankText error.displayMessage = true ↔ RefusedBlankly accounts files filled url peer := by
  refine iff_of_false words.not_blank ?_
  rintro ⟨other, status, contentType, body, whole, same, answered, _⟩
  cases settled.symm.trans same
  exact unanswered status contentType body whole answered

theorem send_blank_iff {accounts : Accounts} {files : FileTree} {filled : Instance}
    {url : String} {peer : Peer} {error : UploadError}
    (failed : (send accounts files filled url peer).1 = .error error) :
    isBlankText error.displayMessage = true ↔
      RefusedBlankly accounts files filled url peer := by
  unfold send at failed
  -- What fails before there is an answer has words of its own.
  cases settled : request accounts files filled url with
  | error problem =>
      simp only [settled, Except.error.injEq] at failed
      have words := request_in_words accounts files filled url problem settled
      rw [failed] at words
      refine iff_of_false words.not_blank ?_
      rintro ⟨built, _, _, _, _, other, _⟩
      cases settled.symm.trans other
  | ok built =>
      simp only [settled] at failed
      cases reply : (peer.exchange built).1 with
      | lost =>
          simp only [reply, Except.error.injEq] at failed
          have words : error.HasWords := has_words_of_own (by simp [← failed])
          exact blank_iff_of_unanswered settled (by simp [reply]) words
      | astray reason =>
          simp only [reply, Except.error.injEq] at failed
          have words : error.HasWords := has_words_of_own (by simp [← failed])
          exact blank_iff_of_unanswered settled (by simp [reply]) words
      | answer status contentType body whole =>
          simp only [reply] at failed
          rw [judge_blank_iff failed]
          have turned : ¬ Accepts .spreadsheet status := by
            intro accepts
            unfold judge at failed
            rw [if_pos (show 200 ≤ status ∧ status < 300 from accepts)] at failed
            cases failed
          constructor
          · intro blank
            exact ⟨built, status, contentType, body, whole, settled, reply, turned, blank⟩
          · rintro ⟨other, _, _, _, _, same, answered, _, blank⟩
            cases settled.symm.trans same
            cases reply.symm.trans answered
            exact blank

end Spreadsheet

end Upload

namespace Run

open Upload

theorem spreadsheet_of_protocol {route : Route} (protocol : route.protocol = .spreadsheet) :
    route = .spreadsheet := by
  cases route with
  | server deviceId => cases protocol
  | spreadsheet => rfl

/-- The turn of a row that was turned away with a blank message. -/
def Turn.RefusedBlankly (configured : Option String) (accounts : Accounts) (route : Route)
    (turn : Turn Peer) : Prop :=
  route.protocol = .spreadsheet ∧
    ∃ url, Spreadsheet.destination configured turn.filled none = .ok url ∧
      Spreadsheet.RefusedBlankly accounts turn.before.device.files turn.filled url
        turn.before.far

section

variable (server : ServerSettings) (credentials : Option Credentials)
  (configured : Option String) (accounts : Accounts)

theorem destination_in_words (route : Route) (filled : Instance) :
    FailsOnly UploadError.HasWords
      ((route.uploader (uploaders server credentials configured accounts)).destination filled
        route.deviceId) := by
  cases route with
  | server deviceId =>
      simp only [Route.uploader, Route.deviceId, uploaders, Server.uploader]
      exact Server.destination_in_words server filled deviceId
  | spreadsheet =>
      simp only [Route.uploader, Route.deviceId, uploaders, Spreadsheet.uploader]
      exact Spreadsheet.destination_in_words configured filled none

/-- A turn that fails leaves the user without words only when its row was turned away so. -/
theorem failure_blank_iff {settings : Settings} {route : Route} {turn : Turn Peer}
    {message : String}
    (sent : sendOne settings (uploaders server credentials configured accounts) route turn.before
      turn.filled = (turn.verdict, turn.after)) (failed : turn.verdict = .failure message) :
    isBlankText message = true ↔ turn.RefusedBlankly configured accounts route := by
  rcases turn with ⟨filled, before, verdict, after⟩
  dsimp only at sent failed
  have course := course_of_turn settings (uploaders server credentials configured accounts) route
    before filled
  rw [sent] at course
  cases course with
  | undestined error wanted =>
      cases failed
      have words := destination_in_words server credentials configured accounts route filled error
        wanted
      refine iff_of_false words.not_blank ?_
      rintro ⟨protocol, url, found, _⟩
      cases spreadsheet_of_protocol protocol
      cases wanted.symm.trans found
  | notSheet url wanted stays =>
      cases failed
      refine iff_of_false (by decide) ?_
      rintro ⟨protocol, other, found, built, _, _, _, _, settled, _⟩
      obtain ⟨isSheet, _⟩ := Spreadsheet.request_eq_ok_cases settled
      cases spreadsheet_of_protocol protocol
      cases wanted.symm.trans found
      rw [stays.2] at isSheet
      cases isSheet
  | refused url error wanted leaves answer =>
      cases failed
      cases route with
      | server deviceId =>
          have words := Server.send_in_words credentials before.device.files filled url before.far
            error answer
          refine iff_of_false words.not_blank ?_
          rintro ⟨protocol, _⟩
          cases protocol
      | spreadsheet =>
          rw [Spreadsheet.send_blank_iff answer]
          constructor
          · intro refused
            exact ⟨rfl, url, wanted, refused⟩
          · rintro ⟨_, other, found, refused⟩
            cases wanted.symm.trans found
            exact refused
  | accepted url message wanted leaves answer => cases failed

end

/-- A failure is shown in words, in whatever way it came about, unless the service behind a
spreadsheet turned the row away with a blank message; then it is shown without any, and this is
what the summary of the run has for the instance. -/
theorem failure_has_words_unless_refused_blankly (server : ServerSettings)
    (credentials : Option Credentials) (configured : Option String) (accounts : Accounts) :
    (∀ files filled url peer error,
      ((Server.uploader server credentials).send files filled url peer).1 = .error error →
        isBlankText error.displayMessage = false) ∧
    (∀ files filled url peer error,
      ((Spreadsheet.uploader configured accounts).send files filled url peer).1 = .error error →
        (isBlankText error.displayMessage = true ↔
          Spreadsheet.RefusedBlankly accounts files filled url peer)) ∧
    ∀ around world summary,
      (execute around (uploaders server credentials configured accounts) world).1 =
          .completed summary →
        summary.results =
          (runTurns around (uploaders server credentials configured accounts) world).map
            (·.result) ∧
        ∀ turn ∈ runTurns around (uploaders server credentials configured accounts) world,
          ∀ message, turn.verdict = .failure message →
            (isBlankText message = true ↔
              turn.RefusedBlankly configured accounts (.ofSettings around.settings)) := by
  refine ⟨?_, ?_, ?_⟩
  · intro files filled url peer
    exact Server.send_in_words credentials files filled url peer
  · intro files filled url peer error failed
    exact Spreadsheet.send_blank_iff failed
  · intro around world summary completed
    refine ⟨results_of_completed completed, ?_⟩
    intro turn member message failed
    exact failure_blank_iff server credentials configured accounts (sent_of_run member) failed

/-- The row waits, and the service turns it away with a message of one blank. -/
def refusingWorld : World Peer where
  device :=
    deviceWith [sheetInstance]
      { nodes :=
          [(["well"], .directory true), (["well", "1.xml"], .file [60, 100, 47, 62])] }
  far :=
    { replies :=
        [.answer 400 none
          (Utf8.encode "\x7b\"error\":\x7b\"message\":\" \"\x7d\x7d") true] }

theorem blankly_refused_row_in_summary :
    ∃ turn ∈ runTurns sheetSurroundings (uploaders {} none none accountAtHand) refusingWorld,
      turn.result = ⟨1, "well", .failure " "⟩ ∧
        turn.RefusedBlankly none accountAtHand .spreadsheet := by
  have completed : (execute sheetSurroundings (uploaders {} none none accountAtHand)
      refusingWorld).1 = .completed ⟨[⟨1, "well", .failure " "⟩]⟩ := by
    decide +kernel
  obtain ⟨results, blank_iff⟩ := (failure_has_words_unless_refused_blankly {} none none
    accountAtHand).2.2 sheetSurroundings refusingWorld _ completed
  have listed : ⟨1, "well", .failure " "⟩ ∈ (⟨[⟨1, "well", .failure " "⟩]⟩ : Summary).results :=
    List.mem_singleton_self _
  rw [results] at listed
  obtain ⟨turn, taken, result⟩ := List.mem_map.mp listed
  have failed : turn.verdict = .failure " " := congrArg Result.verdict result
  exact ⟨turn, taken, result, (blank_iff turn taken " " failed).mp (by decide)⟩

/-- A name with a dash is all that a summary then says. -/
theorem blank_refusal_leaves_only_name :
    ¬ (∀ (files : FileTree) (filled : Instance) (url : String) (peer : Peer) (error : UploadError),
        (Spreadsheet.send accountAtHand files filled url peer).1 = .error error →
          isBlankText error.displayMessage = false) ∧
      ∃ summary, (execute sheetSurroundings (uploaders {} none none accountAtHand)
          refusingWorld).1 = .completed summary ∧ summary.message = "well -" := by
  constructor
  · intro words
    have shown := words refusingWorld.device.files sheetInstance
      "https://docs.google.com/spreadsheets/d/1AbC/edit" refusingWorld.far (.rejected 400 " ")
      (by decide +kernel)
    exact absurd shown (by decide)
  · refine ⟨⟨[⟨1, "well", .failure " "⟩]⟩, by decide +kernel, ?_⟩
    have sorted : Summary.sorted ⟨[⟨1, "well", .failure " "⟩]⟩ =
        [] ++ [⟨1, "well", .failure " "⟩] :=
      Summary.sorted_eq_of_perm (by simp) (List.Perm.refl _) (List.pairwise_singleton _ _)
    rw [Summary.message_of_sorted sorted]
    decide +kernel

end Run

end FieldPost
