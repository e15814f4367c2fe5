import FieldPost.Opening.Error
import FieldPost.Run.Error
import FieldPost.Settings.Error

/-!
Any failure of the library, with the part of it that failed.
-/

namespace FieldPost

inductive Failure
  | settings (error : SettingsError)
  | database (error : DatabaseError)
  | store (error : StoreError)
  | upload (error : UploadError)
  | run (error : RunError)
  | opening (error : OpeningError)
deriving DecidableEq, Repr

def Failure.message : Failure → String
  | .settings error => "Configuration error: " ++ error.message
  | .database error => "Database error: " ++ error.message
  | .store error => "Store error: " ++ error.message
  | .upload error => "Upload error: " ++ error.message
  | .run error => "Auto-send error: " ++ error.message
  | .opening error => "Form error: " ++ error.message

end FieldPost
