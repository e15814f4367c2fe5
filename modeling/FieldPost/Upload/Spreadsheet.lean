import FieldPost.Http
import FieldPost.Http.Target
import FieldPost.Json.Reader
import FieldPost.Markup.Leaves
import FieldPost.SheetLink
import FieldPost.Upload

/-!
Sending to a spreadsheet: the values of the payload's fields become one row, appended with the
token of the selected account. The payload is read and its fields are found before the token
is asked for, and the token is there before anything is sent.
-/

namespace FieldPost.Upload.Spreadsheet

open FieldPost.Text FieldPost.Http

def destination (configured : Option String) (filled : Instance) (_deviceId : Option String) :
    Except UploadError String :=
  match filled.submissionUri, configured with
  | some url, _ => .ok url
  | none, some url => .ok url
  | none, none => .error (.noDestination filled.id)

def sheet (url : String) : Except UploadError String :=
  match SheetLink.id? url with
  | some id => .ok id
  | none => .error (.invalidUrl url "not a spreadsheet url")

/-- The row of a payload: the values of its fields, in order. -/
def row (files : FileTree) (path : String) : Except UploadError (List String) :=
  match files.readText path with
  | .error problem => .error (.unreadable path problem.message)
  | .ok text =>
      match Markup.leafValues text with
      | .error problem => .error (.unparsable problem.message)
      | .ok values => .ok (values.map (·.2))

def token (accounts : Accounts) : Except UploadError String :=
  match accounts.token with
  | .ok token => .ok token
  | .error error => .error (.account error)

/-- The authorization, unless the token cannot stand in a header. -/
def authorization (token : String) : Except UploadError String :=
  if isHeaderValue token then .ok (bearerAuthorization token)
  else .error (.network TargetProblem.unreadable.message)

def rowJson (row : List String) : Json :=
  .object [("values", .array [.array (row.map Json.string)])]

/-- Everything that is settled on this side. -/
def request (accounts : Accounts) (files : FileTree) (filled : Instance) (url : String) :
    Except UploadError Request := do
  let id ← sheet url
  let row ← row files filled.path
  let token ← token accounts
  let authorization ← authorization token
  .ok ⟨SheetLink.appendUrl id, [authorization], none, .json (rowJson row)⟩

/-- What the service says of an error. -/
def errorMessage (text : String) : String :=
  match Json.ofText text with
  | .error _ => ""
  | .ok value => (((value.get? "error").bind (·.get? "message")).bind Json.string?).getD ""

def judge (status : Nat) (text : String) : Except UploadError (Option String) :=
  if 200 ≤ status ∧ status < 300 then .ok none
  else .error (.rejected status (errorMessage text))

def send (accounts : Accounts) (files : FileTree) (filled : Instance) (url : String)
    (peer : Peer) : Except UploadError (Option String) × Peer :=
  match request accounts files filled url with
  | .error error => (.error error, peer)
  | .ok request =>
      let exchanged := peer.exchange request
      match exchanged.1 with
      | .lost =>
          (.error (.network ("error sending request for url (" ++ request.url ++ ")")),
            exchanged.2)
      | .astray reason => (.error (.network reason), exchanged.2)
      | .answer status contentType body whole =>
          (judge status (answerText contentType body whole), exchanged.2)

def uploader (configured : Option String) (accounts : Accounts) : Uploader Peer where
  destination := destination configured
  send := send accounts

end FieldPost.Upload.Spreadsheet
