import FieldPost.Json.Reader
import FieldPost.Settings.Error
import FieldPost.Settings.Reader
import FieldPost.Settings.Schema
import FieldPost.SheetLink
import FieldPost.Url.Parser

/-!
Loading settings: the text is JSON, the value has the form of settings, and what the settings
say can be used. The server's URL parses, a spreadsheet is named when rows are appended to
one, and the password can be found. The first of these that fails is the error.
-/

namespace FieldPost.Settings

def checkShape (value : Json) : Except SettingsError Unit :=
  match shape.faults value with
  | [] => .ok ()
  | faults => .error (.schema (String.intercalate "; " faults))

def checkServerUrl (settings : Settings) : Except SettingsError Unit :=
  match Url.parse settings.server.url with
  | .ok _ => .ok ()
  | .error problem =>
      .error (.invalid
        ("Invalid server url '" ++ settings.server.url ++ "': " ++ problem.message))

/-- Rows can only be appended to a spreadsheet. -/
def checkSpreadsheet (settings : Settings) : Except SettingsError Unit :=
  match settings.protocol, settings.spreadsheetUrl with
  | .server, _ => .ok ()
  | .spreadsheet, none =>
      .error (.invalid "spreadsheet url is required for the google_sheets protocol")
  | .spreadsheet, some url =>
      if SheetLink.isSheet url then .ok ()
      else .error (.invalid ("'" ++ url ++ "' is not a spreadsheet url"))

def checkCredentials (environment : Environment) (files : FileTree) (settings : Settings) :
    Except SettingsError Unit :=
  match settings.server.credentials environment files with
  | .ok _ => .ok ()
  | .error error => .error (.secret error)

def check (environment : Environment) (files : FileTree) (settings : Settings) :
    Except SettingsError Unit := do
  settings.checkServerUrl
  settings.checkSpreadsheet
  settings.checkCredentials environment files

/-- A value of the right form stands for settings. -/
def ofShaped (value : Json) : Except SettingsError Settings :=
  match ofJson? value with
  | some settings => .ok settings
  | none => .error (.json .misplaced)

def ofValue (environment : Environment) (files : FileTree) (value : Json) :
    Except SettingsError Settings := do
  checkShape value
  let settings ← ofShaped value
  settings.check environment files
  .ok settings

def load (environment : Environment) (files : FileTree) (text : String) :
    Except SettingsError Settings :=
  match Json.ofText text with
  | .ok value => ofValue environment files value
  | .error fault => .error (.json fault)

/-- Settings out of a text file. -/
def loadFile (environment : Environment) (files : FileTree) (path : String) :
    Except SettingsError Settings :=
  match files.readText path with
  | .ok text => load environment files text
  | .error problem => .error (.unreadable path problem.message)

end FieldPost.Settings
