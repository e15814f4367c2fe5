/-!
The gate before a run. With the storage away there is nothing to send from; with it in
place the run goes on if the connection is allowed or some form asks to be sent anyway.
The forms are asked only when the answer hangs on them.
-/

namespace FieldPost

inductive Gate
  | stop
  | retry
  | proceed
deriving DecidableEq, Repr

namespace Gate

def asks (mounted allowed : Bool) : Bool := mounted && !allowed

def evaluate {ε : Type} (mounted allowed : Bool) (anyFormRequests : Except ε Bool) :
    Except ε Gate :=
  if mounted then
    if allowed then .ok .proceed
    else anyFormRequests.map fun requests => if requests then .proceed else .retry
  else .ok (if allowed then .stop else .retry)

end Gate

end FieldPost
