import FieldPost.Form
import FieldPost.Instance
import FieldPost.Moment.Rfc3339
import FieldPost.Store.Error

/-!
Instances and forms as rows of texts and numbers. Every value has a row; a row need not stand
for a value, and then its first bad column is the error.
-/

namespace FieldPost

structure InstanceRow where
  displayName : String
  formId : String
  formVersion : Option String
  status : String
  path : String
  submissionUri : Option String
  changed : String
deriving DecidableEq, Repr

structure FormRow where
  formId : String
  version : Option String
  displayName : String
  path : String
  mediaPath : Option String
  autoSend : Option Int
  autoDelete : Option Int
  added : String
deriving DecidableEq, Repr

def readStatus (column : Nat) (text : String) : Except DatabaseError Status :=
  match Status.ofText? text with
  | some status => .ok status
  | none => .error (.conversion column (Status.unknownMessage text))

def readMoment (column : Nat) (text : String) : Except DatabaseError Moment :=
  match Rfc3339.read text with
  | .ok moment => .ok moment
  | .error problem => .error (.conversion column problem.message)

namespace InstanceRow

def ofInstance (filled : Instance) : InstanceRow where
  displayName := filled.displayName
  formId := filled.formId
  formVersion := filled.formVersion
  status := filled.status.text
  path := filled.path
  submissionUri := filled.submissionUri
  changed := Rfc3339.write filled.changed

def read (id : Int) (row : InstanceRow) : Except DatabaseError Instance := do
  let status ← readStatus 4 row.status
  let changed ← readMoment 7 row.changed
  .ok
    { id, status, changed
      displayName := row.displayName
      formId := row.formId
      formVersion := row.formVersion
      path := row.path
      submissionUri := row.submissionUri }

end InstanceRow

namespace FormRow

def ofFlag (flag : Bool) : Int := if flag then 1 else 0

def readFlag (stored : Int) : Bool := stored != 0

theorem readFlag_ofFlag (flag : Bool) : readFlag (ofFlag flag) = flag := by
  cases flag <;> rfl

def ofForm (form : Form) : FormRow where
  formId := form.formId
  version := form.version
  displayName := form.displayName
  path := form.path
  mediaPath := form.mediaPath
  autoSend := form.autoSend.map ofFlag
  autoDelete := form.autoDelete.map ofFlag
  added := Rfc3339.write form.added

def read (id : Int) (row : FormRow) : Except DatabaseError Form := do
  let added ← readMoment 7 row.added
  .ok
    { id, added
      formId := row.formId
      version := row.version
      displayName := row.displayName
      path := row.path
      mediaPath := row.mediaPath
      autoSend := row.autoSend.map readFlag
      autoDelete := row.autoDelete.map readFlag }

end FormRow

end FieldPost
