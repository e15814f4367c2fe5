import FieldPost.Connection
import FieldPost.Secret

/-!
The settings of a project: when and how instances are sent, and where to. What is left out of
them has a value all the same.
-/

namespace FieldPost

inductive Protocol
  | server
  | spreadsheet
deriving DecidableEq, Repr

namespace Protocol

def text : Protocol → String
  | .server => "server"
  | .spreadsheet => "google_sheets"

/-- An old name of the server protocol is still understood. -/
def ofText? (name : String) : Option Protocol :=
  if name = "server" ∨ name = "odk_default" then some .server
  else if name = "google_sheets" then some .spreadsheet
  else none

theorem ofText?_text (protocol : Protocol) : ofText? protocol.text = some protocol := by
  cases protocol <;> rfl

end Protocol

structure Credentials where
  username : String
  password : String
deriving DecidableEq, Repr

structure ServerSettings where
  url : String := "https://demo.getodk.org"
  submissionPath : String := "/submission"
  username : Option String := none
  password : Option String := none
  passwordFile : Option String := none
  passwordVariable : Option String := none
deriving DecidableEq, Repr

namespace ServerSettings

/-- The server URL and the submission path with exactly one slash between them. -/
def submissionUrl (server : ServerSettings) : String :=
  String.ofList ((server.url.toList.reverse.dropWhile (· == '/')).reverse) ++ "/" ++
    String.ofList (server.submissionPath.toList.dropWhile (· == '/'))

def passwordSource (server : ServerSettings) : SecretSource :=
  ⟨server.password, server.passwordFile, server.passwordVariable⟩

/-- The credentials of the server, if a user name is set. No password is the empty one. -/
def credentials (server : ServerSettings) (environment : Environment) (files : FileTree) :
    Except SecretError (Option Credentials) :=
  match Secret.named server.username with
  | none => .ok none
  | some username =>
      (Secret.resolve? environment files server.passwordSource).map fun password =>
        some ⟨username, password.getD ""⟩

end ServerSettings

structure Settings where
  autoSend : SendMode := .off
  deleteAfterSend : Bool := false
  protocol : Protocol := .server
  server : ServerSettings := {}
  spreadsheetUrl : Option String := none
  deviceId : Option String := none
deriving DecidableEq, Repr

def Settings.autoSendEnabled (settings : Settings) : Bool := settings.autoSend != .off

end FieldPost
