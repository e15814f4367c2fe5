import FieldPost.Channel
import FieldPost.Json.Value
import FieldPost.Moment.Rfc3339

/-!
Notices about runs, for everyone who listens, and the JSON that they are passed on as.
-/

namespace FieldPost

structure Notice where
  timestamp : Moment
  anyFailure : Bool
  message : String
deriving DecidableEq, Repr

namespace Notice

def defaultCapacity : Nat := 64

def toJson (notice : Notice) : Json := .object
  [("timestamp", .string (Rfc3339.write notice.timestamp)),
   ("anyFailure", .bool notice.anyFailure), ("message", .string notice.message)]

end Notice

end FieldPost
