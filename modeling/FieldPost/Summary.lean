import FieldPost.Text.Blank

/-!
What became of the instances of one run. A later result for an instance replaces the
earlier one and moves to the end. The text for the user has a block for each instance,
ordered by name and then by identifier, with an empty line between two blocks.
-/

namespace FieldPost

open FieldPost.Text

inductive Verdict
  | success (message : String)
  | failure (message : String)
deriving DecidableEq, Repr

namespace Verdict

def isFailure : Verdict → Bool
  | .success _ => false
  | .failure _ => true

def message : Verdict → String
  | .success message => message
  | .failure message => message

end Verdict

/-- The result for one instance, with the name it had before it was sent. -/
structure Result where
  instanceId : Int
  displayName : String
  verdict : Verdict
deriving DecidableEq, Repr

namespace Result

def block (result : Result) : String := result.displayName ++ " - " ++ result.verdict.message

def atMost (left right : Result) : Bool :=
  if left.displayName = right.displayName then left.instanceId ≤ right.instanceId
  else left.displayName < right.displayName

end Result

structure Summary where
  results : List Result := []
deriving DecidableEq, Repr

namespace Summary

def record (summary : Summary) (instanceId : Int) (displayName : String) (verdict : Verdict) :
    Summary :=
  ⟨summary.results.filter (·.instanceId != instanceId) ++ [⟨instanceId, displayName, verdict⟩]⟩

def get? (summary : Summary) (instanceId : Int) : Option Verdict :=
  (summary.results.find? (·.instanceId == instanceId)).map (·.verdict)

def anyFailure (summary : Summary) : Bool := summary.results.any (·.verdict.isFailure)

def failureCount (summary : Summary) : Nat := summary.results.countP (·.verdict.isFailure)

def sorted (summary : Summary) : List Result := summary.results.mergeSort Result.atMost

def message (summary : Summary) : String :=
  trimmedEnd (String.join (summary.sorted.map fun result => result.block ++ "\n\n"))

end Summary

end FieldPost
