import FieldPost.Store.Error

/-!
Why a form could not be downloaded, and why it could not be opened.
-/

namespace FieldPost

inductive DownloadError
  | notFound (formId : String)
  | network (reason : String)
  | io (path reason : String)
  | cancelled
deriving DecidableEq, Repr

def DownloadError.message : DownloadError → String
  | .notFound formId => "Form '" ++ formId ++ "' is not available on the server"
  | .network reason => "Network error while downloading: " ++ reason
  | .io path reason => "Failed to write form file '" ++ path ++ "': " ++ reason
  | .cancelled => "Download cancelled"

inductive OpeningError
  | downloadFailed (error : DownloadError)
  | store (error : StoreError)
  | launch (reason : String)
deriving DecidableEq, Repr

def OpeningError.message : OpeningError → String
  | .downloadFailed error => "Form download failed: " ++ error.message
  | .store error => "Store error: " ++ error.message
  | .launch reason => "Failed to open form: " ++ reason

end FieldPost
