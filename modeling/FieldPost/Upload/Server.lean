import FieldPost.Http
import FieldPost.Http.MediaType
import FieldPost.Http.Target
import FieldPost.Markup.Message
import FieldPost.Redaction
import FieldPost.Settings
import FieldPost.Upload
import FieldPost.Url.Form

/-!
Sending to a submission server: one request with the payload first and then every attachment,
the other plain files of its directory in the order of their names. Hidden files stay
behind. All files are read before anything is sent.
-/

namespace FieldPost.Upload.Server

open FieldPost.Text FieldPost.Http

/-- The instance's own destination or that of the settings, with the device's identifier at the
end of its query. -/
def destination (server : ServerSettings) (filled : Instance) (deviceId : Option String) :
    Except UploadError String :=
  let base := filled.submissionUri.getD server.submissionUrl
  match Url.parse base with
  | .error problem => .error (.invalidUrl (Redaction.url base) problem.message)
  | .ok url =>
      match deviceId with
      | none => .ok url.text
      | some deviceId => .ok (url.appendPair "deviceID" deviceId).text

def readFile (files : FileTree) (path : String) : Except UploadError Bytes :=
  match files.readFile path with
  | .ok content => .ok content
  | .error problem => .error (.unreadable path problem.message)

def readDirectory (files : FileTree) (path : String) : Except UploadError (List String) :=
  match files.readDirectory path with
  | .ok names => .ok names
  | .error problem => .error (.unreadable path problem.message)

def fileName (path : String) : String := (Path.fileName? path).getD "submission.xml"

/-- Whether an entry of the payload's directory goes with it. -/
def isAttachment (files : FileTree) (payload directory name : String) : Bool :=
  let path := Path.join directory name
  !Path.same path payload && name.toList.head? != some '.' && files.isFile path

/-- The names of the attachments, in order. -/
def attachmentNames (files : FileTree) (payload directory : String) (names : List String) :
    List String :=
  (names.filter (isAttachment files payload directory)).mergeSort fun left right => left ≤ right

def payloadField : String := "xml_submission_file"

def attachmentPart (files : FileTree) (directory name : String) : Except UploadError Part :=
  (readFile files (Path.join directory name)).map fun content =>
    ⟨name, name, MediaType.ofFileName name, content⟩

/-- The payload and its attachments, all of them read. -/
def parts (files : FileTree) (filled : Instance) : Except UploadError (List Part) := do
  let payload ← readFile files filled.path
  let first : Part := ⟨payloadField, fileName filled.path, "text/xml", payload⟩
  match filled.directory? with
  | none => .ok [first]
  | some directory =>
      let names ← readDirectory files directory
      let attachments ← (attachmentNames files filled.path directory names).mapM
        (attachmentPart files directory)
      .ok (first :: attachments)

/-- The user in the URL comes first, the configured one after it. -/
def authorization (target : Target) (credentials : Option Credentials) : List String :=
  (target.user.map fun user => basicAuthorization user.1 user.2).toList ++
    (credentials.map fun known => basicAuthorization known.username known.password).toList

def request (target : Target) (credentials : Option Credentials) (parts : List Part) : Request where
  url := target.requestUrl
  authorization := authorization target credentials
  formVersion := some "1.0"
  content := .form parts

def judge (url : String) (status : Nat) (text : String) : Except UploadError (Option String) :=
  if status = 201 ∨ status = 202 then .ok (Markup.serverMessage? text)
  else if status = 401 ∨ status = 403 then
    .error (.authRequired ((Url.parse url).toOption.bind Url.hostText? |>.getD ""))
  else .error (.rejected status ((Markup.serverMessage? text).getD ""))

def post (credentials : Option Credentials) (url : String) (parts : List Part) (peer : Peer) :
    Except UploadError (Option String) × Peer :=
  match Target.ofText url with
  | .error problem => (.error (.network problem.message), peer)
  | .ok target =>
      let exchanged := peer.exchange (request target credentials parts)
      match exchanged.1 with
      | .lost => (.error (.network target.lostMessage), exchanged.2)
      | .astray reason => (.error (.network reason), exchanged.2)
      | .answer status contentType body whole =>
          (judge url status (answerText contentType body whole), exchanged.2)

def send (credentials : Option Credentials) (files : FileTree) (filled : Instance)
    (url : String) (peer : Peer) : Except UploadError (Option String) × Peer :=
  match parts files filled with
  | .error error => (.error error, peer)
  | .ok parts => post credentials url parts peer

def uploader (server : ServerSettings) (credentials : Option Credentials) : Uploader Peer where
  destination := destination server
  send := send credentials

end FieldPost.Upload.Server
