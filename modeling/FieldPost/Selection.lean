import FieldPost.Device
import FieldPost.Settings

/-!
The instances that a run sends: the finalized ones, all of them when the settings send as a
matter of course, and else those whose form asks for it in exactly their version. Instances of
one form version follow each other often, so the answer for a version is kept while the list
is gone through. The plain filter, which asks for every instance afresh, stands beside it.
-/

namespace FieldPost.Selection

/-- A form identifier and a version, or none. -/
abbrev Key := String × Option String

def key (filled : Instance) : Key := (filled.formId, filled.formVersion)

/-- Whether the newest form of this version asks for its instances to be sent. -/
def asks (device : Device) (key : Key) : Device.Answer Bool :=
  (device.latestFormVersion key.1 key.2).map fun form =>
    (form.map Form.requestsAutoSend).getD false

/-- Puts an instance in front if it is wanted. -/
def keepIf (wanted : Bool) (filled : Instance) (kept : List Instance) : List Instance :=
  if wanted then filled :: kept else kept

variable {ε : Type}

/-- Asks for every instance in turn, up to the first question that fails. -/
def plain (asks : Key → Except ε Bool) : List Instance → Except ε (List Instance)
  | [] => .ok []
  | filled :: rest => do
      let wanted ← asks (key filled)
      (plain asks rest).map (keepIf wanted filled)

/-- What is known of form versions so far. -/
abbrev Known := List (Key × Bool)

/-- Asks for every version when it is first met, and tells what it asked for, in order. -/
def remembering (asks : Key → Except ε Bool) :
    Known → List Instance → Except ε (List Instance) × List Key
  | _, [] => (.ok [], [])
  | known, filled :: rest =>
      match known.lookup (key filled) with
      | some wanted =>
          let after := remembering asks known rest
          (after.1.map (keepIf wanted filled), after.2)
      | none =>
          match asks (key filled) with
          | .error error => (.error error, [key filled])
          | .ok wanted =>
              let after := remembering asks ((key filled, wanted) :: known) rest
              (after.1.map (keepIf wanted filled), key filled :: after.2)

def instances (settings : Settings) (device : Device) : Device.Answer (List Instance) := do
  let finalized ← device.instancesByStatus Status.finalized
  if settings.autoSendEnabled then .ok finalized
  else (remembering (asks device) [] finalized).1

end FieldPost.Selection
