/-!
The user's accounts at the spreadsheet service, as far as the device knows them.
-/

namespace FieldPost

inductive AccountError
  | permissionDenied
  | noneSelected
  | token (account reason : String)
deriving DecidableEq, Repr

def AccountError.message : AccountError → String
  | .permissionDenied => "Permission to access accounts was not granted"
  | .noneSelected => "No account selected"
  | .token account reason =>
      "Failed to obtain access token for '" ++ account ++ "': " ++ reason

/-- `last` is the account picked last, if it is still on the device; `token` is what asking
for an access token of the selected account gives. -/
structure Accounts where
  permissionGranted : Bool
  last : Option String
  token : Except AccountError String

end FieldPost
