import FieldPost.Json.Printer
import FieldPost.Settings

/-!
Settings as a JSON value with every key, a null standing for what is not set.
-/

namespace FieldPost.Settings

def optionalText : Option String → Json
  | none => .null
  | some text => .string text

def serverJson (server : ServerSettings) : Json := .object
  [("url", .string server.url), ("submissionPath", .string server.submissionPath),
   ("username", optionalText server.username), ("password", optionalText server.password),
   ("passwordFile", optionalText server.passwordFile),
   ("passwordEnvVar", optionalText server.passwordVariable)]

def toJson (settings : Settings) : Json := .object
  [("autoSend", .string settings.autoSend.text),
   ("deleteAfterSend", .bool settings.deleteAfterSend),
   ("protocol", .string settings.protocol.text),
   ("server", serverJson settings.server),
   ("spreadsheet", .object [("url", optionalText settings.spreadsheetUrl)]),
   ("deviceId", optionalText settings.deviceId)]

def save (settings : Settings) : String := settings.toJson.text

end FieldPost.Settings
