import FieldPost.Device
import FieldPost.Proofs.Answers
import FieldPost.Proofs.Files
import FieldPost.Proofs.Rows

/-!
What the calls of the instance store do to a device. A status is written or only the clock
moves on; an instance is deleted with its directory or nothing happens. In either case the rows
of all other instances, the forms and the identifiers given out stay as they are.
-/

namespace FieldPost

open FieldPost.Answers

theorem read_status_eq_ok_iff (column : Nat) (text : String) (status : Status) :
    readStatus column text = .ok status ↔ Status.ofText? text = some status := by
  unfold readStatus
  cases Status.ofText? text <;> simp

namespace InstanceRow

/-- A row is read exactly when its status and its time are, and then nothing is lost. -/
theorem read_eq_ok_iff (row : InstanceRow) (id : Int) (filled : Instance) :
    row.read id = .ok filled ↔
      readStatus 4 row.status = .ok filled.status ∧
        readMoment 7 row.changed = .ok filled.changed ∧
        filled =
          ⟨id, row.displayName, row.formId, row.formVersion, filled.status, row.path,
            row.submissionUri, filled.changed⟩ := by
  simp only [read, bind_eq_ok_iff]
  constructor
  · rintro ⟨status, known, changed, time, same⟩
    cases same
    exact ⟨known, time, rfl⟩
  · rintro ⟨known, time, same⟩
    exact ⟨filled.status, known, filled.changed, time, congrArg Except.ok same.symm⟩

theorem id_of_read {row : InstanceRow} {id : Int} {filled : Instance}
    (read : row.read id = .ok filled) : filled.id = id :=
  congrArg Instance.id ((read_eq_ok_iff row id filled).mp read).2.2

theorem path_of_read {row : InstanceRow} {id : Int} {filled : Instance}
    (read : row.read id = .ok filled) : filled.path = row.path :=
  congrArg Instance.path ((read_eq_ok_iff row id filled).mp read).2.2

theorem status_of_read {row : InstanceRow} {id : Int} {filled : Instance}
    (read : row.read id = .ok filled) : Status.ofText? row.status = some filled.status :=
  (read_status_eq_ok_iff 4 row.status filled.status).mp
    ((read_eq_ok_iff row id filled).mp read).1

end InstanceRow

namespace Database

/-- A status is written into a row whose status may become the new one. -/
theorem update_status_eq_ok_iff (database updated : Database) (id : Int) (status : Status)
    (changed : Moment) :
    database.updateStatus id status changed = .ok updated ↔
      database.lockPoisoned = false ∧
        ∃ row before, database.instances.find? id = some row ∧
          Status.ofText? row.status = some before ∧ before.mayBecome status = true ∧
          updated = { database with
            instances := database.instances.modify id (changeStatus status changed) } := by
  unfold Database.updateStatus unlocked
  cases locked : database.lockPoisoned with
  | true => simp [bind, Except.bind]
  | false =>
      cases found : database.instances.find? id with
      | none => simp [bind, Except.bind]
      | some row =>
          simp only [Bool.false_eq_true, if_false, bind_eq_ok_iff, read_status_eq_ok_iff]
          constructor
          · rintro ⟨_, _, before, known, step⟩
            split at step
            · rename_i allowed
              cases step
              exact ⟨trivial, row, before, rfl, known, allowed, rfl⟩
            · cases step
          · rintro ⟨_, same, before, isRow, known, allowed, rfl⟩
            cases isRow
            exact ⟨(), trivial, before, known, by rw [if_pos allowed]⟩

theorem instance_eq_ok_some_iff (database : Database) (id : Int) (filled : Instance) :
    database.instance? id = .ok (some filled) ↔
      database.lockPoisoned = false ∧
        ∃ row, database.instances.find? id = some row ∧ row.read id = .ok filled := by
  unfold Database.instance? unlocked
  cases locked : database.lockPoisoned with
  | true => simp [bind, Except.bind]
  | false =>
      cases found : database.instances.find? id with
      | none => simp [bind, Except.bind]
      | some row => simp [bind, Except.bind, map_eq_ok_iff]

end Database

namespace Device

def row? (device : Device) (id : Int) : Option InstanceRow := device.database.instances.find? id

/-- The device after its clock was read and nothing else was done. -/
def ticked (device : Device) : Device := { device with clock := device.clock.succMicro }

def withStatus (device : Device) (id : Int) (status : Status) : Device :=
  { device.ticked with
    database := { device.database with
      instances :=
        device.database.instances.modify id (Database.changeStatus status device.clock) } }

def withoutInstance (device : Device) (filled : Instance) : Device :=
  { device with
    database := { device.database with
      instances := device.database.instances.erase filled.id } }.removeInstanceFiles filled

theorem reach_eq_ok_iff {α : Type} (device : Device) (call : StoreCall)
    (answer : Database.Answer α) (result : α) :
    device.reach call answer = .ok result ↔
      device.outages.lookup call = none ∧ answer = .ok result := by
  unfold reach
  cases device.outages.lookup call <;> simp [map_error_eq_ok_iff]

/-- A status is written exactly when the store can be reached and takes it. -/
theorem update_status_of_row {device : Device} {id : Int} {status before : Status}
    {row : InstanceRow} (reachable : device.outages.lookup .updateStatus = none)
    (unlocked : device.database.lockPoisoned = false) (found : device.row? id = some row)
    (known : Status.ofText? row.status = some before)
    (allowed : before.mayBecome status = true) :
    device.updateStatus id status = (.ok (), device.withStatus id status) := by
  have written := (Database.update_status_eq_ok_iff device.database _ id status device.clock).mpr
    ⟨unlocked, row, before, found, known, allowed, rfl⟩
  simp only [updateStatus, written, reach, reachable]
  rfl

/-- Either the status is written, or the call fails and only the clock has moved on. -/
theorem update_status_cases (device : Device) (id : Int) (status : Status) :
    (device.updateStatus id status).2 = device.ticked ∨
      ∃ row before, device.row? id = some row ∧ Status.ofText? row.status = some before ∧
        before.mayBecome status = true ∧
        (device.updateStatus id status).2 = device.withStatus id status := by
  have reached : device.updateStatus id status =
      device.ticked.commit (device.reach .updateStatus
        ((device.database.updateStatus id status device.clock).map fun database =>
          ((), database))) := rfl
  rw [reached]
  cases answer : device.reach .updateStatus
      ((device.database.updateStatus id status device.clock).map fun database =>
        ((), database)) with
  | error error =>
      left
      rfl
  | ok changed =>
      right
      rcases (reach_eq_ok_iff _ _ _ _).mp answer with ⟨_, mapped⟩
      rcases (map_eq_ok_iff _ _ _).mp mapped with ⟨updated, written, same⟩
      obtain ⟨_, row, before, found, known, allowed, rfl⟩ :=
        (Database.update_status_eq_ok_iff _ _ _ _ _).mp written
      cases same
      exact ⟨row, before, found, known, allowed, rfl⟩

theorem delete_instance_of_row {device : Device} {id : Int} {row : InstanceRow}
    {filled : Instance} (reachable : device.outages.lookup .deleteInstance = none)
    (unlocked : device.database.lockPoisoned = false) (found : device.row? id = some row)
    (read : row.read id = .ok filled) :
    device.deleteInstance id = (.ok (), device.withoutInstance filled) := by
  have present := (Database.instance_eq_ok_some_iff device.database id filled).mpr
    ⟨unlocked, row, found, read⟩
  have same := InstanceRow.id_of_read read
  simp only [deleteInstance, present, reach, reachable, Except.mapError, deleteFound,
    Database.deleteInstance, Database.unlocked, unlocked, withoutInstance, same]
  rfl

/-- Either an instance that can be read is deleted with its directory, or nothing happens. -/
theorem delete_instance_cases (device : Device) (id : Int) :
    (device.deleteInstance id).2 = device ∨
      ∃ row filled, device.row? id = some row ∧ row.read id = .ok filled ∧
        (device.deleteInstance id).2 = device.withoutInstance filled := by
  cases answer : device.reach .deleteInstance (device.database.instance? id) with
  | error error =>
      left
      simp only [deleteInstance, answer]
  | ok found =>
      cases found with
      | none =>
          left
          simp only [deleteInstance, answer, deleteFound]
      | some filled =>
          right
          rcases (reach_eq_ok_iff _ _ _ _).mp answer with ⟨reachable, present⟩
          obtain ⟨unlocked, row, found, read⟩ :=
            (Database.instance_eq_ok_some_iff _ _ _).mp present
          exact ⟨row, filled, found, read, by
            rw [delete_instance_of_row reachable unlocked found read]⟩

/-- A call that changes the tables does so only when it is answered. -/
theorem commit_cases {α : Type} (device : Device) (call : StoreCall)
    (answer : Database.Answer (α × Database)) :
    (device.commit (device.reach call answer)).2 = device ∨
      ∃ value database, answer = .ok (value, database) ∧
        (device.commit (device.reach call answer)).2 = { device with database } := by
  cases reached : device.reach call answer with
  | error error => exact .inl rfl
  | ok changed =>
      rcases (reach_eq_ok_iff _ _ _ _).mp reached with ⟨_, answered⟩
      exact .inr ⟨changed.1, changed.2, answered, rfl⟩

theorem insert_instance_cases (device : Device) (filled : Instance) :
    (device.insertInstance filled).2 = device ∨
      (device.insertInstance filled).2 = { device with
        database := { device.database with
          instances := device.database.instances.insert (.ofInstance filled) } } := by
  rcases commit_cases device .insertInstance (device.database.insertInstance filled) with
    nothing | ⟨_, database, answered, changed⟩
  · exact .inl nothing
  · rcases (bind_eq_ok_iff _ _ _).mp answered with ⟨_, _, same⟩
    cases same
    exact .inr changed

theorem insert_form_cases (device : Device) (form : Form) :
    (device.insertForm form).2 = device ∨
      (device.insertForm form).2 = { device with
        database := { device.database with
          forms := device.database.forms.insert (.ofForm form) } } := by
  rcases commit_cases device .insertForm (device.database.insertForm form) with
    nothing | ⟨_, database, answered, changed⟩
  · exact .inl nothing
  · rcases (bind_eq_ok_iff _ _ _).mp answered with ⟨_, _, same⟩
    cases same
    exact .inr changed

theorem delete_forms_cases (device : Device) (formId : String) :
    (device.deleteForms formId).2 = device ∨
      (device.deleteForms formId).2 = { device with
        database := { device.database with
          forms := device.database.forms.keep fun entry => entry.2.formId != formId } } := by
  rcases commit_cases device .deleteForms (device.database.deleteForms formId) with
    nothing | ⟨_, database, answered, changed⟩
  · exact .inl nothing
  · rcases (bind_eq_ok_iff _ _ _).mp answered with ⟨_, _, same⟩
    cases same
    exact .inr changed

theorem insert_form_instances (device : Device) (form : Form) :
    (device.insertForm form).2.database.instances = device.database.instances ∧
      (device.insertForm form).2.outages = device.outages := by
  rcases insert_form_cases device form with same | same <;> rw [same] <;> exact ⟨rfl, rfl⟩

theorem delete_forms_instances (device : Device) (formId : String) :
    (device.deleteForms formId).2.database.instances = device.database.instances ∧
      (device.deleteForms formId).2.outages = device.outages := by
  rcases delete_forms_cases device formId with same | same <;> rw [same] <;> exact ⟨rfl, rfl⟩

/-! ### What stays the same -/

theorem database_remove_files (device : Device) (filled : Instance) :
    (device.removeInstanceFiles filled).database = device.database := by
  unfold removeInstanceFiles
  cases filled.directory? <;> rfl

theorem outages_remove_files (device : Device) (filled : Instance) :
    (device.removeInstanceFiles filled).outages = device.outages := by
  unfold removeInstanceFiles
  cases filled.directory? <;> rfl

theorem clock_remove_files (device : Device) (filled : Instance) :
    (device.removeInstanceFiles filled).clock = device.clock := by
  unfold removeInstanceFiles
  cases filled.directory? <;> rfl

theorem row_with_status (device : Device) (id : Int) (status : Status) (other : Int) :
    (device.withStatus id status).row? other =
      if other = id then (device.row? other).map (Database.changeStatus status device.clock)
      else device.row? other :=
  Table.find_modify device.database.instances id _ other

theorem row_without_instance (device : Device) (filled : Instance) (other : Int) :
    (device.withoutInstance filled).row? other =
      if other = filled.id then none else device.row? other := by
  unfold row? withoutInstance
  rw [database_remove_files]
  exact Table.find_erase device.database.instances filled.id other

theorem row_ticked (device : Device) (id : Int) : device.ticked.row? id = device.row? id := by
  simp only [row?, ticked]

/-- Of the stores nothing changes but rows of some instances. -/
structure ChangesOnly (touched : Int → Prop) (before after : Device) : Prop where
  rows : ∀ id, ¬ touched id → after.row? id = before.row? id
  last : after.database.instances.lastId = before.database.instances.lastId
  forms : after.database.forms = before.database.forms
  lock : after.database.lockPoisoned = before.database.lockPoisoned
  outages : after.outages = before.outages

namespace ChangesOnly

variable {touched : Int → Prop} {first second third : Device}

theorem refl (touched : Int → Prop) (device : Device) : ChangesOnly touched device device :=
  ⟨fun _ _ => rfl, rfl, rfl, rfl, rfl⟩

theorem trans (early : ChangesOnly touched first second)
    (late : ChangesOnly touched second third) : ChangesOnly touched first third where
  rows id outside := (late.rows id outside).trans (early.rows id outside)
  last := late.last.trans early.last
  forms := late.forms.trans early.forms
  lock := late.lock.trans early.lock
  outages := late.outages.trans early.outages

theorem widen (wider : Int → Prop) (changes : ChangesOnly touched first second)
    (within : ∀ id, touched id → wider id) : ChangesOnly wider first second where
  rows id outside := changes.rows id fun inside => outside (within id inside)
  last := changes.last
  forms := changes.forms
  lock := changes.lock
  outages := changes.outages

theorem own_row {id : Int} (changes : ChangesOnly (· ≠ id) first second) :
    second.row? id = first.row? id :=
  changes.rows id fun other => other rfl

/-- The form that an instance was filled in with is found or not as before. -/
theorem latest_form_version (changes : ChangesOnly touched first second) (formId : String)
    (version : Option String) :
    second.latestFormVersion formId version = first.latestFormVersion formId version := by
  unfold latestFormVersion reach Database.latestFormVersion Database.newestForm
    Database.unlocked
  rw [changes.outages, changes.forms, changes.lock]

end ChangesOnly

theorem ticked_changes (touched : Int → Prop) (device : Device) :
    ChangesOnly touched device device.ticked :=
  ⟨fun id _ => row_ticked device id, by simp only [ticked], by simp only [ticked],
    by simp only [ticked], by simp only [ticked]⟩

theorem with_status_changes (device : Device) (id : Int) (status : Status) :
    ChangesOnly (· = id) device (device.withStatus id status) := by
  refine ⟨?_, ?_, ?_, ?_, ?_⟩
  · intro other outside
    rw [row_with_status, if_neg outside]
  all_goals simp only [withStatus, ticked, Table.last_modify]

theorem update_status_changes (device : Device) (id : Int) (status : Status) :
    ChangesOnly (· = id) device (device.updateStatus id status).2 := by
  rcases update_status_cases device id status with failed | ⟨_, _, _, _, _, written⟩
  · rw [failed]
    exact ticked_changes _ device
  · rw [written]
    exact with_status_changes device id status

theorem without_instance_changes (device : Device) (filled : Instance) :
    ChangesOnly (· = filled.id) device (device.withoutInstance filled) := by
  refine ⟨?_, ?_, ?_, ?_, outages_remove_files _ _⟩
  · intro other outside
    rw [row_without_instance, if_neg outside]
  · rw [withoutInstance, database_remove_files, Table.last_erase]
  · rw [withoutInstance, database_remove_files]
  · rw [withoutInstance, database_remove_files]

theorem delete_instance_changes (device : Device) (id : Int) :
    ChangesOnly (· = id) device (device.deleteInstance id).2 := by
  rcases delete_instance_cases device id with nothing | ⟨_, filled, _, read, deleted⟩
  · rw [nothing]
    exact .refl _ device
  · rw [deleted, ← InstanceRow.id_of_read read]
    exact without_instance_changes device filled

theorem clock_update_status (device : Device) (id : Int) (status : Status) :
    (device.updateStatus id status).2.clock = device.clock.succMicro := by
  rcases update_status_cases device id status with failed | ⟨_, _, _, _, _, written⟩
  · rw [failed]
    simp only [ticked]
  · rw [written]
    simp only [withStatus, ticked]

theorem clock_delete_instance (device : Device) (id : Int) :
    (device.deleteInstance id).2.clock = device.clock := by
  rcases delete_instance_cases device id with nothing | ⟨_, _, _, _, deleted⟩
  · rw [nothing]
  · rw [deleted]
    exact clock_remove_files _ _

theorem files_update_status (device : Device) (id : Int) (status : Status) :
    (device.updateStatus id status).2.files = device.files := by
  rcases update_status_cases device id status with failed | ⟨_, _, _, _, _, written⟩
  · rw [failed]
    simp only [ticked]
  · rw [written]
    simp only [withStatus, ticked]

theorem delete_instance_shrinks (device : Device) (id : Int) :
    FileTree.Shrinks device.files (device.deleteInstance id).2.files := by
  rcases delete_instance_cases device id with nothing | ⟨_, filled, _, _, deleted⟩
  · rw [nothing]
    exact .refl _
  · rw [deleted]
    unfold withoutInstance removeInstanceFiles
    cases filled.directory? with
    | none => exact .refl _
    | some directory => exact FileTree.remove_directory_shrinks _ _

end Device

end FieldPost
