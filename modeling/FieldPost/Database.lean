import FieldPost.Database.Row
import FieldPost.Table

/-!
The two tables and what is asked of them. Rows are read when they are asked for, so a bad row
fails the question that meets it and no other. A failed change leaves the tables as they were;
so does every question to a database whose lock was broken, which answers nothing any more.
-/

namespace FieldPost

structure Database where
  instances : Table InstanceRow := {}
  forms : Table FormRow := {}
  lockPoisoned : Bool := false

namespace Database

abbrev Answer (α : Type) := Except DatabaseError α

/-- Nothing is answered under a broken lock. -/
def unlocked (database : Database) : Answer Unit :=
  if database.lockPoisoned then .error .lockPoisoned else .ok ()

/-! ### Instances -/

/-- The instance gets the next identifier, whatever identifier it came with. -/
def insertInstance (database : Database) (filled : Instance) : Answer (Int × Database) := do
  database.unlocked
  .ok (database.instances.nextId,
    { database with instances := database.instances.insert (.ofInstance filled) })

def instance? (database : Database) (id : Int) : Answer (Option Instance) := do
  database.unlocked
  match database.instances.find? id with
  | none => .ok none
  | some row => (row.read id).map some

def readInstances (rows : List (Int × InstanceRow)) : Answer (List Instance) :=
  rows.mapM fun entry => entry.2.read entry.1

/-- The instances with one of these statuses, in the order of their identifiers. No status is
asked for without asking the database. -/
def instancesByStatus (database : Database) (statuses : List Status) : Answer (List Instance) :=
  if statuses.isEmpty then .ok []
  else do
    database.unlocked
    readInstances (database.instances.select fun row =>
      (statuses.map Status.text).contains row.status)

def instancesByFormId (database : Database) (formId : String) : Answer (List Instance) := do
  database.unlocked
  readInstances (database.instances.select fun row => row.formId == formId)

def deleteInstance (database : Database) (id : Int) : Answer (Bool × Database) := do
  database.unlocked
  .ok ((database.instances.find? id).isSome,
    { database with instances := database.instances.erase id })

/-- A row with a new status and the time of the change. -/
def changeStatus (status : Status) (changed : Moment) (row : InstanceRow) : InstanceRow :=
  { row with status := status.text, changed := Rfc3339.write changed }

/-- Only steps of the life-cycle are taken. -/
def updateStatus (database : Database) (id : Int) (status : Status) (changed : Moment) :
    Answer Database := do
  database.unlocked
  match database.instances.find? id with
  | none => .error (.notFound "instances" id)
  | some row =>
      let before ← readStatus 0 row.status
      if before.mayBecome status then
        .ok { database with
          instances := database.instances.modify id (changeStatus status changed) }
      else .error (.invalidTransition id before status)

/-! ### Forms -/

def insertForm (database : Database) (form : Form) : Answer (Int × Database) := do
  database.unlocked
  .ok (database.forms.nextId, { database with forms := database.forms.insert (.ofForm form) })

/-- Added later, going by the text of the time, or given a greater identifier. -/
def isNewer (left right : Int × FormRow) : Bool :=
  right.2.added < left.2.added || (right.2.added == left.2.added && right.1 < left.1)

def newest : List (Int × FormRow) → Option (Int × FormRow)
  | [] => none
  | entry :: rest =>
      match newest rest with
      | none => some entry
      | some found => some (if isNewer entry found then entry else found)

def newestForm (database : Database) (wanted : FormRow → Bool) : Answer (Option Form) := do
  database.unlocked
  match newest (database.forms.select wanted) with
  | none => .ok none
  | some (id, row) => (row.read id).map some

/-- The newest form with this identifier and exactly this version, or exactly none. -/
def latestFormVersion (database : Database) (formId : String) (version : Option String) :
    Answer (Option Form) :=
  database.newestForm fun row => row.formId == formId && row.version == version

/-- The newest form with this identifier in any version. -/
def latestForm (database : Database) (formId : String) : Answer (Option Form) :=
  database.newestForm fun row => row.formId == formId

def allForms (database : Database) : Answer (List Form) := do
  database.unlocked
  database.forms.rows.mapM fun entry => entry.2.read entry.1

/-- Whether some form asks for its instances to be sent, going by the stored number one. -/
def anyFormRequests (database : Database) : Answer Bool := do
  database.unlocked
  .ok (database.forms.rows.any fun entry => entry.2.autoSend == some 1)

/-- Forgets every version of a form, and tells how many there were. -/
def deleteForms (database : Database) (formId : String) : Answer (Nat × Database) := do
  database.unlocked
  .ok (database.forms.rows.countP fun entry => entry.2.formId == formId,
    { database with forms := database.forms.keep fun entry => entry.2.formId != formId })

end Database

end FieldPost
