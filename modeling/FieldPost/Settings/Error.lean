import FieldPost.Json.Number
import FieldPost.Secret

/-!
Why settings could not be loaded.
-/

namespace FieldPost

inductive SettingsError
  | unreadable (path reason : String)
  | json (fault : JsonFault)
  | invalid (reason : String)
  | schema (errors : String)
  | secret (error : SecretError)
deriving DecidableEq, Repr

def SettingsError.message : SettingsError → String
  | .unreadable path reason => "Failed to read settings file '" ++ path ++ "': " ++ reason
  | .json .ended => "Failed to parse settings JSON: the text ends inside a value"
  | .json .misplaced => "Failed to parse settings JSON: the text is not JSON"
  | .invalid reason => "Settings validation failed: " ++ reason
  | .schema errors => "Schema validation failed: " ++ errors
  | .secret error => "Failed to resolve server password: " ++ error.message

end FieldPost
