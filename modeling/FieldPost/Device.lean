import FieldPost.Database

/-!
What lies on one device: the tables, the files and the time. The stores are how the rest of
the library reaches the tables. A store may be out of reach for some of its calls, and then says
why; every call that gets through answers as the database does. Only stores of another kind are
ever out of reach: those over a database on the device answer every call themselves. Reading the
clock moves it on, so no two readings are the same.
-/

namespace FieldPost

inductive StoreCall
  | instancesByStatus
  | instancesByFormId
  | instanceById
  | insertInstance
  | updateStatus
  | deleteInstance
  | latestFormVersion
  | latestForm
  | allForms
  | anyFormRequests
  | insertForm
  | deleteForms
deriving DecidableEq, Repr

/-- The outages stand for stores of another kind, which answer with an error of their own. Stores
over the database have none. -/
structure Device where
  database : Database := {}
  files : FileTree := {}
  clock : Moment := .ofSeconds 0
  outages : List (StoreCall × String) := []

namespace Device

abbrev Answer (α : Type) := Except StoreError α

/-- Lets a call through unless the store is out of reach for it. -/
def reach {α : Type} (device : Device) (call : StoreCall) (answer : Database.Answer α) :
    Answer α :=
  match device.outages.lookup call with
  | some reason => .error (.backend reason)
  | none => answer.mapError StoreError.database

/-- The device after a change of its tables, or as it was when there was none. -/
def commit {α : Type} (device : Device) (changed : Answer (α × Database)) : Answer α × Device :=
  match changed with
  | .ok (answer, database) => (.ok answer, { device with database })
  | .error error => (.error error, device)

/-! ### The instance store -/

def instancesByStatus (device : Device) (statuses : List Status) : Answer (List Instance) :=
  device.reach .instancesByStatus (device.database.instancesByStatus statuses)

def instancesByFormId (device : Device) (formId : String) : Answer (List Instance) :=
  device.reach .instancesByFormId (device.database.instancesByFormId formId)

def instance? (device : Device) (id : Int) : Answer (Option Instance) :=
  device.reach .instanceById (device.database.instance? id)

def insertInstance (device : Device) (filled : Instance) : Answer Int × Device :=
  device.commit (device.reach .insertInstance (device.database.insertInstance filled))

/-- The change of status gets the time of the clock. -/
def updateStatus (device : Device) (id : Int) (status : Status) : Answer Unit × Device :=
  let updated := device.database.updateStatus id status device.clock
  { device with clock := device.clock.succMicro }.commit
    (device.reach .updateStatus (updated.map fun database => ((), database)))

def removeInstanceFiles (device : Device) (filled : Instance) : Device :=
  match filled.directory? with
  | none => device
  | some directory => { device with files := device.files.removeDirectory directory }

/-- Deletes an instance that is there, with its directory. Nothing has to be done for one that
is not. -/
def deleteFound (device : Device) (id : Int) (found : Option Instance) : Answer Unit × Device :=
  match found with
  | none => (.ok (), device)
  | some filled =>
      match device.database.deleteInstance id with
      | .error error => (.error (.database error), device)
      | .ok (_, database) => (.ok (), { device with database }.removeInstanceFiles filled)

def deleteInstance (device : Device) (id : Int) : Answer Unit × Device :=
  match device.reach .deleteInstance (device.database.instance? id) with
  | .error error => (.error error, device)
  | .ok found => device.deleteFound id found

/-! ### The form store -/

def latestFormVersion (device : Device) (formId : String) (version : Option String) :
    Answer (Option Form) :=
  device.reach .latestFormVersion (device.database.latestFormVersion formId version)

def latestForm (device : Device) (formId : String) : Answer (Option Form) :=
  device.reach .latestForm (device.database.latestForm formId)

def allForms (device : Device) : Answer (List Form) :=
  device.reach .allForms device.database.allForms

def anyFormRequests (device : Device) : Answer Bool :=
  device.reach .anyFormRequests device.database.anyFormRequests

def insertForm (device : Device) (form : Form) : Answer Int × Device :=
  device.commit (device.reach .insertForm (device.database.insertForm form))

/-- Deletes the records of a form in all its versions; no file is touched. -/
def deleteForms (device : Device) (formId : String) : Answer Nat × Device :=
  device.commit (device.reach .deleteForms (device.database.deleteForms formId))

end Device

end FieldPost
