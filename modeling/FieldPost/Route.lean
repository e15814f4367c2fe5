import FieldPost.Settings
import FieldPost.Upload
import FieldPost.Run.Error

/-!
The way that the instances of one run take: to the submission server, or into a spreadsheet
with an account of the user, which has to be allowed and chosen before anything is sent.
-/

namespace FieldPost

/-- The uploaders that a device has, over one far side. -/
structure Uploaders (σ : Type) where
  server : Uploader σ
  spreadsheet : Uploader σ

inductive Route
  | server (deviceId : Option String)
  | spreadsheet
deriving DecidableEq, Repr

namespace Route

def protocol : Route → Protocol
  | .server _ => .server
  | .spreadsheet => .spreadsheet

/-- How instances sent without the user are counted. -/
def action : Route → String
  | .server _ => "HTTP auto"
  | .spreadsheet => "HTTP-Sheets auto"

/-- Only the server is told which device an instance comes from. -/
def deviceId : Route → Option String
  | .server deviceId => deviceId
  | .spreadsheet => none

def uploader {σ : Type} (uploaders : Uploaders σ) : Route → Uploader σ
  | .server _ => uploaders.server
  | .spreadsheet => uploaders.spreadsheet

def ofSettings (settings : Settings) : Route :=
  match settings.protocol with
  | .server => .server settings.deviceId
  | .spreadsheet => .spreadsheet

/-- The account that a run uses: none for the server, and for a spreadsheet the one picked last,
if accounts may be used at all. -/
def account (protocol : Protocol) (accounts : Accounts) : Except RunError (Option String) :=
  match protocol with
  | .server => .ok none
  | .spreadsheet =>
      if accounts.permissionGranted then
        match accounts.last with
        | some account => .ok (some account)
        | none => .error .noAccountSelected
      else .error .permissionDenied

end Route

end FieldPost
