import FieldPost.Json.Printer

/-!
The form that settings must have, and what is said of a value that does not have it. All faults
are reported, in the order of the keys at which they stand; keys that are not known come
after the faults of the known ones.
-/

namespace FieldPost

/-- The form of a value. A record may leave out any of its fields and has no others. -/
inductive Shape
  | flag
  | text (nonEmpty : Bool)
  | optionalText
  | oneOf (names : List String)
  | record (fields : List (String × Shape))

namespace Shape

def quoted (name : String) : String := Json.text (.string name)

/-- Up to three names are listed in full, of more the first two. -/
def choices : List String → String
  | [] => ""
  | [only] => quoted only
  | [first, second] => quoted first ++ " or " ++ quoted second
  | [first, second, third] => quoted first ++ ", " ++ quoted second ++ " or " ++ quoted third
  | first :: second :: rest =>
      quoted first ++ ", " ++ quoted second ++ " or " ++ toString rest.length ++
        " other candidates"

def wrongType (type : String) (value : Json) : List String :=
  [value.text ++ " is not of type \"" ++ type ++ "\""]

def unexpected : List String → List String
  | [] => []
  | [only] => ["Additional properties are not allowed ('" ++ only ++ "' was unexpected)"]
  | names =>
      ["Additional properties are not allowed (" ++
        String.intercalate ", " (names.map fun name => "'" ++ name ++ "'") ++
        " were unexpected)"]

mutual

def faults : Shape → Json → List String
  | .flag, value => match value with
      | .bool _ => []
      | _ => wrongType "boolean" value
  | .text nonEmpty, value => match value with
      | .string held =>
          if nonEmpty && held.isEmpty then [value.text ++ " is shorter than 1 character"] else []
      | _ => wrongType "string" value
  | .optionalText, value => match value with
      | .null => []
      | .string _ => []
      | _ => [value.text ++ " is not of types \"null\", \"string\""]
  | .oneOf names, value => match value with
      | .string held =>
          if names.contains held then [] else [value.text ++ " is not one of " ++ choices names]
      | _ => [value.text ++ " is not one of " ++ choices names]
  | .record fields, value => match value with
      | .object entries =>
          entries.flatMap (fun entry => fieldFaults fields entry.1 entry.2) ++
            unexpected ((entries.filter fun entry =>
              (fields.map (·.1)).contains entry.1 == false).map (·.1))
      | _ => wrongType "object" value

/-- The faults of the value at a key, none when the key is not a field. -/
def fieldFaults : List (String × Shape) → String → Json → List String
  | [], _, _ => []
  | (name, shape) :: rest, key, value =>
      if name = key then shape.faults value else fieldFaults rest key value

end

end Shape

namespace Settings

def serverShape : Shape := .record
  [("url", .text true), ("submissionPath", .text false), ("username", .optionalText),
   ("password", .optionalText), ("passwordFile", .optionalText),
   ("passwordEnvVar", .optionalText)]

def shape : Shape := .record
  [("autoSend", .oneOf ["off", "wifi_only", "cellular_only", "wifi_and_cellular"]),
   ("deleteAfterSend", .flag),
   ("protocol", .oneOf ["server", "odk_default", "google_sheets"]),
   ("server", serverShape),
   ("spreadsheet", .record [("url", .optionalText)]),
   ("deviceId", .optionalText)]

end Settings

end FieldPost
