import FieldPost.Moment
import FieldPost.Path

/-!
Filled-in forms. An instance begins incomplete, is finalized by its author, and then
ends up submitted or fails to be; a failed one may be finalized or tried again. Nothing
leads back to incomplete and nothing leads out of submitted.
-/

namespace FieldPost

inductive Status
  | incomplete
  | complete
  | submitted
  | submissionFailed
deriving DecidableEq, Repr

namespace Status

def all : List Status := [.incomplete, .complete, .submitted, .submissionFailed]

def text : Status → String
  | .incomplete => "incomplete"
  | .complete => "complete"
  | .submitted => "submitted"
  | .submissionFailed => "submissionFailed"

def ofText? (name : String) : Option Status := all.find? fun status => status.text == name

theorem ofText?_text (status : Status) : ofText? status.text = some status := by
  cases status <;> rfl

def unknownMessage (name : String) : String := "unknown instance status '" ++ name ++ "'"

/-- Waiting to be sent: finalized, or tried without success. -/
def isFinalized (status : Status) : Bool :=
  status == .complete || status == .submissionFailed

def finalized : List Status := [.complete, .submissionFailed]

/-- The steps of the life-cycle. Every status may be kept. -/
def mayBecome : Status → Status → Bool
  | .incomplete, .complete => true
  | .complete, .submitted => true
  | .complete, .submissionFailed => true
  | .submissionFailed, .complete => true
  | .submissionFailed, .submitted => true
  | before, after => before == after

end Status

/-- One filled-in form. The identifier is zero until the instance is stored. Attachments
lie next to the payload, in the same directory. -/
structure Instance where
  id : Int := 0
  displayName : String
  formId : String
  formVersion : Option String
  status : Status
  path : String
  submissionUri : Option String
  changed : Moment
deriving DecidableEq, Repr

/-- The directory of the payload and its attachments. -/
def Instance.directory? (filled : Instance) : Option String := Path.parent? filled.path

end FieldPost
