import FieldPost.Json.Value
import FieldPost.Settings

/-!
Settings out of a JSON value. Keys that are not known are skipped, and fields that are missing
have their defaults. A list stands for its record's fields in order, and a name may be
written as the key of a null.
-/

namespace FieldPost.Settings

def fields? (keys : List String) : Json → Option (List (String × Json))
  | .object entries => some entries
  | .array items => if items.length ≤ keys.length then some (keys.zip items) else none
  | _ => none

def readFlag (default : Bool) : Option Json → Option Bool
  | none => some default
  | some (.bool value) => some value
  | some _ => none

def readString (default : String) : Option Json → Option String
  | none => some default
  | some (.string value) => some value
  | some _ => none

def readOptional : Option Json → Option (Option String)
  | none => some none
  | some .null => some none
  | some (.string value) => some (some value)
  | some _ => none

def readName {α : Type} (default : α) (ofText? : String → Option α) : Option Json → Option α
  | none => some default
  | some (.string name) => ofText? name
  | some (.object [(name, .null)]) => ofText? name
  | some _ => none

def readRecord {α : Type} (default : α) (keys : List String)
    (read : List (String × Json) → Option α) : Option Json → Option α
  | none => some default
  | some value => (fields? keys value).bind read

def serverKeys : List String :=
  ["url", "submissionPath", "username", "password", "passwordFile", "passwordEnvVar"]

def readServer (fields : List (String × Json)) : Option ServerSettings := do
  let default : ServerSettings := {}
  let url ← readString default.url (fields.lookup "url")
  let submissionPath ← readString default.submissionPath (fields.lookup "submissionPath")
  let username ← readOptional (fields.lookup "username")
  let password ← readOptional (fields.lookup "password")
  let passwordFile ← readOptional (fields.lookup "passwordFile")
  let passwordVariable ← readOptional (fields.lookup "passwordEnvVar")
  some { url, submissionPath, username, password, passwordFile, passwordVariable }

def readSpreadsheet (fields : List (String × Json)) : Option (Option String) :=
  readOptional (fields.lookup "url")

def keys : List String :=
  ["autoSend", "deleteAfterSend", "protocol", "server", "spreadsheet", "deviceId"]

def readFields (fields : List (String × Json)) : Option Settings := do
  let autoSend ← readName .off SendMode.ofText? (fields.lookup "autoSend")
  let deleteAfterSend ← readFlag false (fields.lookup "deleteAfterSend")
  let protocol ← readName .server Protocol.ofText? (fields.lookup "protocol")
  let server ← readRecord {} serverKeys readServer (fields.lookup "server")
  let spreadsheetUrl ← readRecord none ["url"] readSpreadsheet (fields.lookup "spreadsheet")
  let deviceId ← readOptional (fields.lookup "deviceId")
  some { autoSend, deleteAfterSend, protocol, server, spreadsheetUrl, deviceId }

/-- The settings that a value stands for, if its fields have the right types. -/
def ofJson? (value : Json) : Option Settings := (fields? keys value).bind readFields

end FieldPost.Settings
