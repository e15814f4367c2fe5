import FieldPost.Account
import FieldPost.Text.Blank

/-!
Why one instance could not be sent. A refusal is shown to the user in the words of
the server, or as its bare number when the server said nothing.
-/

namespace FieldPost

inductive UploadError
  | invalidUrl (url reason : String)
  | noDestination (instanceId : Int)
  | unreadable (path reason : String)
  | unparsable (reason : String)
  | network (reason : String)
  | authRequired (host : String)
  | rejected (status : Nat) (message : String)
  | account (error : AccountError)
deriving DecidableEq, Repr

namespace UploadError

def message : UploadError → String
  | .invalidUrl url reason => "Invalid destination url '" ++ url ++ "': " ++ reason
  | .noDestination instanceId =>
      "No destination configured for instance " ++ toString instanceId
  | .unreadable path reason =>
      "Failed to read submission file '" ++ path ++ "': " ++ reason
  | .unparsable reason => "Failed to parse submission: " ++ reason
  | .network reason => "Network error: " ++ reason
  | .authRequired host => "Authentication failed for " ++ host
  | .rejected status message =>
      "Server rejected submission (" ++ toString status ++ "): " ++ message
  | .account error => "Account error: " ++ error.message

def displayMessage : UploadError → String
  | .rejected status "" => "Error: " ++ toString status
  | .rejected _ message => message
  | error => error.message

end UploadError

end FieldPost
