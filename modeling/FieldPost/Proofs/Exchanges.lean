import FieldPost.Proofs.Files
import FieldPost.Proofs.Redirections
import FieldPost.Route
import FieldPost.Upload.Server
import FieldPost.Upload.Spreadsheet

/-!
The two uploaders that send requests. Each makes at most one request for an instance, and calls
the instance accepted only when that request carried its payload and what came of it is an answer
that the protocol demands, be it to the request or to one that followed it; when anything fails
on this side, nothing is sent. How a reply is lost or cut off on its way is up to the peer.
-/

namespace FieldPost.Upload

open FieldPost.Answers FieldPost.Http FieldPost.Text

def Accepts : Route → Nat → Prop
  | .server _, status => status = 201 ∨ status = 202
  | .spreadsheet, status => 200 ≤ status ∧ status < 300

/-- A request to a server has the bytes of the payload in the part of their own name; one to a
spreadsheet has the values of the payload's fields, in order, as its only row. -/
def Carries (route : Route) (files : FileTree) (filled : Instance) (request : Request) : Prop :=
  match route with
  | .server _ => ∃ payload attachments part, files.readFile filled.path = .ok payload ∧
      request.content = .form (part :: attachments) ∧ part.name = "xml_submission_file" ∧
      part.content = payload
  | .spreadsheet => ∃ text fields, files.readText filled.path = .ok text ∧
      Markup.leafValues text = .ok fields ∧
      request.content = .json (.object
        [("values", .array [.array (fields.map fun field => .string field.2)])])

inductive ServerFault (server : ServerSettings) (deviceId : Option String) (files : FileTree)
    (filled : Instance) : Prop
  | address (problem : Url.Problem)
      (unparsable : Url.parse (filled.submissionUri.getD server.submissionUrl) = .error problem)
  | target (url : String) (problem : TargetProblem)
      (wanted : Server.destination server filled deviceId = .ok url)
      (unusable : Target.ofText url = .error problem)
  | payload (problem : OsProblem) (unreadable : files.readFile filled.path = .error problem)
  | directory (path : String) (problem : OsProblem) (parent : filled.directory? = some path)
      (unreadable : files.readDirectory path = .error problem)
  | attachment (path name : String) (names : List String) (problem : OsProblem)
      (parent : filled.directory? = some path) (listed : files.readDirectory path = .ok names)
      (member : name ∈ names)
      (chosen : Server.isAttachment files filled.path path name = true)
      (unreadable : files.readFile (Path.join path name) = .error problem)

inductive SheetFault (configured : Option String) (accounts : Accounts) (files : FileTree)
    (filled : Instance) : Prop
  | address (unset : filled.submissionUri = none) (unconfigured : configured = none)
  | target (url : String)
      (wanted : Spreadsheet.destination configured filled none = .ok url)
      (other : SheetLink.isSheet url = false)
  | payload (problem : OsProblem) (unreadable : files.readText filled.path = .error problem)
  | markup (text : String) (problem : Markup.LeafProblem)
      (read : files.readText filled.path = .ok text)
      (unparsable : Markup.leafValues text = .error problem)
  | token (error : AccountError) (refused : accounts.token = .error error)
  | header (token : String) (given : accounts.token = .ok token)
      (unusable : isHeaderValue token = false)

/-- What a run may rely on with an uploader over a peer. -/
structure Delivers (route : Route) (fault : FileTree → Instance → Prop)
    (uploader : Uploader Peer) : Prop where
  goesOn : ∀ files filled url (peer : Peer), peer.GoesOn (uploader.send files filled url peer).2
  accepted : ∀ files filled url (peer : Peer) message,
    (uploader.send files filled url peer).1 = .ok message →
    ∃ request status contentType body whole hops,
      peer.Keeps request (.answer status contentType body whole) hops
        (uploader.send files filled url peer).2 ∧
      Accepts route status ∧ Carries route files filled request
  straight : ∀ files filled url (peer : Peer), Straight peer.replies →
    (uploader.send files filled url peer).2.followed = peer.followed
  faulty : ∀ files filled url peer, fault files filled →
    uploader.destination filled route.deviceId = .ok url →
    ∃ error, uploader.send files filled url peer = (.error error, peer)

/-- One exchange: the request that was settled on this side goes out, and its answer is judged. -/
structure Exchanges (route : Route) (settled : FileTree → Instance → String → Request → Prop)
    (uploader : Uploader Peer) (files : FileTree) (filled : Instance) (url : String)
    (peer : Peer) (request : Request) : Prop where
  settles : settled files filled url request
  sent : (uploader.send files filled url peer).2 = (peer.exchange request).2
  judged : ∀ message, (uploader.send files filled url peer).1 = .ok message →
    ∃ status contentType body whole,
      (peer.exchange request).1 = .answer status contentType body whole ∧ Accepts route status

theorem delivers_of_exchanges {route : Route} {fault : FileTree → Instance → Prop}
    {uploader : Uploader Peer} (settled : FileTree → Instance → String → Request → Prop)
    (cases : ∀ files filled url peer,
      (∃ error, uploader.send files filled url peer = (.error error, peer)) ∨
        ∃ request, Exchanges route settled uploader files filled url peer request)
    (carries : ∀ files filled url request, settled files filled url request →
      Carries route files filled request)
    (faultless : ∀ files filled url request, fault files filled →
      uploader.destination filled route.deviceId = .ok url →
      ¬ settled files filled url request) : Delivers route fault uploader where
  goesOn files filled url peer := by
    rcases cases files filled url peer with ⟨error, nothing⟩ | ⟨request, exchanged⟩
    · rw [nothing]
      exact .refl peer
    · rw [exchanged.sent]
      exact peer.exchange_goes_on request
  accepted files filled url peer message accepted := by
    rcases cases files filled url peer with ⟨error, nothing⟩ | ⟨request, exchanged⟩
    · rw [nothing] at accepted
      cases accepted
    · obtain ⟨status, contentType, body, whole, answered, accepts⟩ :=
        exchanged.judged message accepted
      obtain ⟨hops, keeps⟩ := Peer.keeps_of_answer answered
      refine ⟨request, status, contentType, body, whole, hops, ?_, accepts,
        carries files filled url request exchanged.settles⟩
      rwa [exchanged.sent]
  straight files filled url peer straight := by
    rcases cases files filled url peer with ⟨error, nothing⟩ | ⟨request, exchanged⟩
    · rw [nothing]
    · rw [exchanged.sent]
      exact Peer.followed_of_straight straight request
  faulty files filled url peer atFault wanted := by
    rcases cases files filled url peer with nothing | ⟨request, exchanged⟩
    · exact nothing
    · exact absurd exchanged.settles (faultless files filled url request atFault wanted)

/-! ### The server -/

namespace Server

theorem read_file_eq_ok_iff (files : FileTree) (path : String) (content : Bytes) :
    readFile files path = .ok content ↔ files.readFile path = .ok content := by
  unfold readFile
  cases files.readFile path <;> simp

theorem read_directory_eq_ok_iff (files : FileTree) (path : String) (names : List String) :
    readDirectory files path = .ok names ↔ files.readDirectory path = .ok names := by
  unfold readDirectory
  cases files.readDirectory path <;> simp

/-- All parts are there only when the payload, its directory and every attachment were read. -/
theorem parts_eq_ok_cases {files : FileTree} {filled : Instance} {found : List Part}
    (built : parts files filled = .ok found) :
    ∃ payload attachments, files.readFile filled.path = .ok payload ∧
      found = ⟨payloadField, fileName filled.path, "text/xml", payload⟩ :: attachments ∧
      ∀ path, filled.directory? = some path → ∃ names,
        files.readDirectory path = .ok names ∧
        ∀ name ∈ names, isAttachment files filled.path path name = true →
          ∃ content, files.readFile (Path.join path name) = .ok content := by
  rcases (bind_eq_ok_iff _ _ _).mp built with ⟨payload, read, rest⟩
  refine ⟨payload, ?_⟩
  cases parent : filled.directory? with
  | none =>
      simp only [parent] at rest
      cases rest
      refine ⟨[], (read_file_eq_ok_iff _ _ _).mp read, rfl, ?_⟩
      intro path none
      cases none
  | some directory =>
      simp only [parent] at rest
      rcases (bind_eq_ok_iff _ _ _).mp rest with ⟨names, listed, remaining⟩
      rcases (bind_eq_ok_iff _ _ _).mp remaining with ⟨attachments, all, same⟩
      cases same
      refine ⟨attachments, (read_file_eq_ok_iff _ _ _).mp read, rfl, ?_⟩
      intro path some
      cases some
      refine ⟨names, (read_directory_eq_ok_iff _ _ _).mp listed, ?_⟩
      intro name member chosen
      have picked : name ∈ attachmentNames files filled.path directory names := by
        unfold attachmentNames
        rw [List.mem_mergeSort]
        exact List.mem_filter.mpr ⟨member, chosen⟩
      obtain ⟨part, made⟩ := answer_of_mem all picked
      rcases (map_eq_ok_iff _ _ _).mp made with ⟨content, taken, _⟩
      exact ⟨content, (read_file_eq_ok_iff _ _ _).mp taken⟩

theorem parts_of_fault {server : ServerSettings} {deviceId : Option String} {files : FileTree}
    {filled : Instance} {url : String} (fault : ServerFault server deviceId files filled)
    (wanted : destination server filled deviceId = .ok url) {target : Target} {found : List Part}
    (usable : Target.ofText url = .ok target) : parts files filled ≠ .ok found := by
  intro built
  obtain ⟨payload, attachments, read, _, listed⟩ := parts_eq_ok_cases built
  cases fault with
  | address problem unparsable =>
      unfold destination at wanted
      simp only [unparsable] at wanted
      cases wanted
  | target other problem same unusable =>
      rw [wanted] at same
      cases same
      rw [usable] at unusable
      cases unusable
  | payload problem unreadable =>
      rw [read] at unreadable
      cases unreadable
  | directory path problem parent unreadable =>
      obtain ⟨names, opened, _⟩ := listed path parent
      rw [opened] at unreadable
      cases unreadable
  | attachment path name names problem parent opened member chosen unreadable =>
      obtain ⟨same, reopened, all⟩ := listed path parent
      rw [opened] at reopened
      cases reopened
      obtain ⟨content, taken⟩ := all name member chosen
      rw [taken] at unreadable
      cases unreadable

theorem judge_accepted {url : String} {status : Nat} {text : String} {message : Option String}
    (accepted : judge url status text = .ok message) : status = 201 ∨ status = 202 := by
  unfold judge at accepted
  split at accepted
  · assumption
  · split at accepted <;> cases accepted

/-- A request with all the parts, to a target that can be named. -/
def Settled (credentials : Option Credentials) (files : FileTree) (filled : Instance)
    (url : String) (built : Request) : Prop :=
  ∃ found target, parts files filled = .ok found ∧ Target.ofText url = .ok target ∧
    built = request target credentials found

theorem send_cases (server : ServerSettings) (credentials : Option Credentials)
    (deviceId : Option String) (files : FileTree) (filled : Instance) (url : String)
    (peer : Peer) :
    (∃ error, send credentials files filled url peer = (.error error, peer)) ∨
      ∃ built, Exchanges (.server deviceId) (Settled credentials) (uploader server credentials)
        files filled url peer built := by
  cases built : parts files filled with
  | error error => exact .inl ⟨error, by simp only [send, built]⟩
  | ok found =>
      cases usable : Target.ofText url with
      | error problem =>
          exact .inl ⟨.network problem.message, by simp only [send, built, post, usable]⟩
      | ok target =>
          right
          refine ⟨request target credentials found, ⟨found, target, built, usable, rfl⟩, ?_, ?_⟩
          · simp only [uploader, send, built, post, usable]
            split <;> rfl
          · simp only [uploader, send, built, post, usable]
            cases reply : (peer.exchange (request target credentials found)).1 with
            | lost =>
                intro message accepted
                cases accepted
            | astray reason =>
                intro message accepted
                cases accepted
            | answer status contentType body whole =>
                intro message accepted
                exact ⟨status, contentType, body, whole, rfl, judge_accepted accepted⟩

theorem delivers (server : ServerSettings) (credentials : Option Credentials)
    (deviceId : Option String) :
    Delivers (.server deviceId) (ServerFault server deviceId) (uploader server credentials) := by
  apply delivers_of_exchanges (Settled credentials) (send_cases server credentials deviceId)
  · rintro files filled url _ ⟨found, target, built, _, rfl⟩
    obtain ⟨payload, attachments, read, rfl, _⟩ := parts_eq_ok_cases built
    exact ⟨payload, attachments, _, read, rfl, rfl, rfl⟩
  · rintro files filled url _ fault wanted ⟨found, target, built, usable, rfl⟩
    simp only [uploader, Route.deviceId] at wanted
    exact parts_of_fault fault wanted usable built

end Server

/-! ### The spreadsheet -/

namespace Spreadsheet

/-- Everything that is settled on this side: the sheet, the row, and a token that can be told. -/
theorem request_eq_ok_cases {accounts : Accounts} {files : FileTree} {filled : Instance}
    {url : String} {built : Request} (settled : request accounts files filled url = .ok built) :
    SheetLink.isSheet url = true ∧
      ∃ text fields given, files.readText filled.path = .ok text ∧
        Markup.leafValues text = .ok fields ∧ accounts.token = .ok given ∧
        isHeaderValue given = true ∧ built.content = .json (rowJson (fields.map (·.2))) := by
  rcases (bind_eq_ok_iff _ _ _).mp settled with ⟨id, found, afterSheet⟩
  rcases (bind_eq_ok_iff _ _ _).mp afterSheet with ⟨values, listed, afterRow⟩
  rcases (bind_eq_ok_iff _ _ _).mp afterRow with ⟨given, known, afterToken⟩
  rcases (bind_eq_ok_iff _ _ _).mp afterToken with ⟨value, allowed, same⟩
  cases same
  refine ⟨?_, ?_⟩
  · unfold sheet at found
    unfold SheetLink.isSheet
    cases link : SheetLink.id? url with
    | some id => rfl
    | none => simp [link] at found
  · unfold row at listed
    unfold token at known
    unfold authorization at allowed
    cases read : files.readText filled.path with
    | error problem => simp [read] at listed
    | ok text =>
        cases parsed : Markup.leafValues text with
        | error problem => simp [read, parsed] at listed
        | ok fields =>
            simp only [read, parsed, Except.ok.injEq] at listed
            subst listed
            cases asked : accounts.token with
            | error error => simp [asked] at known
            | ok token =>
                simp only [asked, Except.ok.injEq] at known
                subst known
                split at allowed
                · rename_i speakable
                  exact ⟨text, fields, token, rfl, parsed, rfl, speakable, rfl⟩
                · cases allowed

theorem request_of_fault {configured : Option String} {accounts : Accounts} {files : FileTree}
    {filled : Instance} {url : String} {built : Request}
    (fault : SheetFault configured accounts files filled)
    (wanted : destination configured filled none = .ok url) :
    request accounts files filled url ≠ .ok built := by
  intro settled
  obtain ⟨isSheet, text, fields, given, read, parsed, token, speakable, _⟩ :=
    request_eq_ok_cases settled
  cases fault with
  | address unset unconfigured =>
      unfold destination at wanted
      simp only [unset, unconfigured] at wanted
      cases wanted
  | target other same notSheet =>
      rw [wanted] at same
      cases same
      rw [isSheet] at notSheet
      cases notSheet
  | payload problem unreadable =>
      rw [read] at unreadable
      cases unreadable
  | markup other problem reread unparsable =>
      rw [read] at reread
      cases reread
      rw [parsed] at unparsable
      cases unparsable
  | token error refused =>
      rw [token] at refused
      cases refused
  | header other same unusable =>
      rw [token] at same
      cases same
      rw [speakable] at unusable
      cases unusable

theorem judge_accepted {status : Nat} {text : String} {message : Option String}
    (accepted : judge status text = .ok message) : 200 ≤ status ∧ status < 300 := by
  unfold judge at accepted
  split at accepted
  · assumption
  · cases accepted

def Settled (accounts : Accounts) (files : FileTree) (filled : Instance) (url : String)
    (built : Request) : Prop :=
  request accounts files filled url = .ok built

theorem send_cases (configured : Option String) (accounts : Accounts) (files : FileTree)
    (filled : Instance) (url : String) (peer : Peer) :
    (∃ error, send accounts files filled url peer = (.error error, peer)) ∨
      ∃ built, Exchanges .spreadsheet (Settled accounts) (uploader configured accounts)
        files filled url peer built := by
  cases settled : request accounts files filled url with
  | error error => exact .inl ⟨error, by simp only [send, settled]⟩
  | ok built =>
      right
      refine ⟨built, settled, ?_, ?_⟩
      · simp only [uploader, send, settled]
        split <;> rfl
      · simp only [uploader, send, settled]
        cases reply : (peer.exchange built).1 with
        | lost =>
            intro message accepted
            cases accepted
        | astray reason =>
            intro message accepted
            cases accepted
        | answer status contentType body whole =>
            intro message accepted
            exact ⟨status, contentType, body, whole, rfl, judge_accepted accepted⟩

theorem delivers (configured : Option String) (accounts : Accounts) :
    Delivers .spreadsheet (SheetFault configured accounts) (uploader configured accounts) := by
  apply delivers_of_exchanges (Settled accounts) (send_cases configured accounts)
  · intro files filled url built settled
    obtain ⟨_, text, fields, _, read, parsed, _, _, content⟩ := request_eq_ok_cases settled
    refine ⟨text, fields, read, parsed, ?_⟩
    rw [content, rowJson, List.map_map]
    rfl
  · intro files filled url built fault wanted
    simp only [uploader, Route.deviceId] at wanted
    exact request_of_fault fault wanted

end Spreadsheet

/-! ### Both -/

def uploaders (server : ServerSettings) (credentials : Option Credentials)
    (configured : Option String) (accounts : Accounts) : Uploaders Peer :=
  ⟨Server.uploader server credentials, Spreadsheet.uploader configured accounts⟩

def LocalFault (server : ServerSettings) (configured : Option String) (accounts : Accounts) :
    Route → FileTree → Instance → Prop
  | .server deviceId => ServerFault server deviceId
  | .spreadsheet => SheetFault configured accounts

theorem uploaders_deliver (server : ServerSettings) (credentials : Option Credentials)
    (configured : Option String) (accounts : Accounts) (route : Route) :
    Delivers route (LocalFault server configured accounts route)
      (route.uploader (uploaders server credentials configured accounts)) := by
  cases route with
  | server deviceId => exact Server.delivers server credentials deviceId
  | spreadsheet => exact Spreadsheet.delivers configured accounts

/-- A payload that can be read after other files are gone is the payload from before. -/
theorem carries_of_shrinks {route : Route} {before after : FileTree} {filled : Instance}
    {request : Request} (shrinks : FileTree.Shrinks before after)
    (carries : Carries route after filled request) : Carries route before filled request := by
  cases route with
  | server deviceId =>
      rcases carries with ⟨payload, attachments, part, read, content⟩
      exact ⟨payload, attachments, part, shrinks.read_file read, content⟩
  | spreadsheet =>
      rcases carries with ⟨text, fields, read, content⟩
      exact ⟨text, fields, shrinks.read_text read, content⟩

end FieldPost.Upload
