import FieldPost.Store.Error
import FieldPost.Upload.Error

/-!
Why a run stopped, or why one instance of it failed. Only a forbidden connection and a
store that does not answer are worth another try without anything being changed.
-/

namespace FieldPost

inductive RunError
  | storageUnavailable
  | networkMismatch
  | permissionDenied
  | noAccountSelected
  | uploadFailed (instanceId : Int) (source : UploadError)
  | notASpreadsheet (instanceId : Int) (url : String)
  | store (error : StoreError)
deriving DecidableEq, Repr

namespace RunError

def message : RunError → String
  | .storageUnavailable => "Storage is not mounted"
  | .networkMismatch => "Current network does not match the auto-send setting"
  | .permissionDenied => "Permission to access accounts was denied"
  | .noAccountSelected => "No valid spreadsheet account is selected"
  | .uploadFailed instanceId source =>
      "Upload of instance " ++ toString instanceId ++ " failed: " ++ source.message
  | .notASpreadsheet instanceId url =>
      "Instance " ++ toString instanceId ++ " destination '" ++ url ++ "' is not a spreadsheet"
  | .store error => "Store error: " ++ error.message

def spreadsheetOnly : String := "Failed. Records can only be submitted to spreadsheet files."

def userMessage : RunError → String
  | .permissionDenied =>
      "Permission to access accounts was denied. Grant it in settings to send forms."
  | .noAccountSelected => "No spreadsheet account is selected. Choose one in server settings."
  | .uploadFailed _ source => source.displayMessage
  | .notASpreadsheet _ _ => spreadsheetOnly
  | error => error.message

def isRetryable : RunError → Bool
  | .networkMismatch => true
  | .store _ => true
  | _ => false

end RunError

end FieldPost
