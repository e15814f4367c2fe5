/-!
What is told of a download while it goes on.
-/

namespace FieldPost

inductive DownloadStage
  | started
  | progress (completed total : Nat)
  | completed
  | failed (reason : String)
deriving DecidableEq, Repr

structure DownloadEvent where
  formId : String
  stage : DownloadStage
deriving DecidableEq, Repr

end FieldPost
