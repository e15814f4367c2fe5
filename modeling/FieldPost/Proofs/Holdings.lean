import FieldPost.Proofs.Candidates
import FieldPost.Proofs.LifeCycle
import FieldPost.Proofs.Readable
import Mathlib.Data.Finmap

/-!
The instance store as a finite map from identifiers to instances. What is put into it comes back
with all its fields, under an identifier of its own and with the last status that was taken; every
list of instances has those that match and no others, each once, in the order of their identifiers.
The histories are those of the stores, begun on an empty database, with times of the years 0 to
9999. How long a text or a question may become for the engine below the tables is not said.
-/

namespace FieldPost

open FieldPost.Answers

theorem InstanceRow.read_of_instance {filled : Instance}
    (common : filled.changed.InFourDigitYears) (id : Int) :
    (ofInstance filled).read id = .ok { filled with id } := by
  refine (read_eq_ok_iff _ _ _).mpr ⟨?_, ?_, rfl⟩
  · exact (read_status_eq_ok_iff _ _ _).mpr (Status.ofText?_text filled.status)
  · simp only [readMoment, ofInstance, Rfc3339.read_write filled.changed common]

/-! ### The finite map -/

/-- Instances under their identifiers, and the last identifier that was given out. -/
structure Holdings where
  lastId : Int := 0
  held : Finmap fun _ : Int => Instance := ∅

namespace Holdings

def find? (holdings : Holdings) (id : Int) : Option Instance := holdings.held.lookup id

def put (holdings : Holdings) (id : Int) (filled : Instance) : Holdings :=
  { holdings with held := holdings.held.insert id filled }

def drop (holdings : Holdings) (id : Int) : Holdings :=
  { holdings with held := holdings.held.erase id }

/-- An instance with a new status, or why it does not get it. -/
def changed? (holdings : Holdings) (id : Int) (status : Status) (now : Moment) :
    Except DatabaseError Instance :=
  match holdings.find? id with
  | none => .error (.notFound "instances" id)
  | some filled =>
      if filled.status.mayBecome status then .ok { filled with status, changed := now }
      else .error (.invalidTransition id filled.status status)

def add (holdings : Holdings) (filled : Instance) : Holdings :=
  { holdings with lastId := holdings.lastId + 1 }.put (holdings.lastId + 1)
    { filled with id := holdings.lastId + 1 }

def change (holdings : Holdings) (id : Int) (status : Status) (now : Moment) : Holdings :=
  match holdings.changed? id status now with
  | .ok filled => holdings.put id filled
  | .error _ => holdings

/-- What a change that is made at some time does to the map. Changes of forms do nothing to it. -/
def record (holdings : Holdings) (timed : StoreChange.Timed) : Holdings :=
  match timed.2 with
  | .insertInstance filled => holdings.add filled
  | .updateStatus id status => holdings.change id status timed.1
  | .deleteInstance id => holdings.drop id
  | .insertForm _ => holdings
  | .deleteForms _ => holdings

def after (history : List StoreChange.Timed) : Holdings := history.foldl record {}

/-- The instances of the map that match, each once, in the order of their identifiers. -/
structure Lists (holdings : Holdings) (wanted : Instance → Prop) (found : List Instance) :
    Prop where
  ascending : (found.map (·.id)).Pairwise (· < ·)
  mem_iff : ∀ filled, filled ∈ found ↔ holdings.find? filled.id = some filled ∧ wanted filled

theorem find_put (holdings : Holdings) (id : Int) (filled : Instance) (other : Int) :
    (holdings.put id filled).find? other =
      if other = id then some filled else holdings.find? other := by
  by_cases same : other = id
  · subst same
    rw [if_pos rfl]
    exact Finmap.lookup_insert _
  · rw [if_neg same]
    exact Finmap.lookup_insert_of_ne _ same

theorem find_drop (holdings : Holdings) (id other : Int) :
    (holdings.drop id).find? other = if other = id then none else holdings.find? other := by
  by_cases same : other = id
  · subst same
    rw [if_pos rfl]
    exact Finmap.lookup_erase _ _
  · rw [if_neg same]
    exact Finmap.lookup_erase_ne same

theorem changed_of_held {holdings : Holdings} {id : Int} {filled : Instance}
    (held : holdings.find? id = some filled) (status : Status) (now : Moment) :
    holdings.changed? id status now =
      if filled.status.mayBecome status then .ok { filled with status, changed := now }
      else .error (.invalidTransition id filled.status status) := by
  unfold changed?
  rw [held]

theorem changed_of_missing {holdings : Holdings} {id : Int}
    (missing : holdings.find? id = none) (status : Status) (now : Moment) :
    holdings.changed? id status now = .error (.notFound "instances" id) := by
  unfold changed?
  rw [missing]

end Holdings

/-! ### Calls of the store on a device within reach -/

namespace Device

theorem update_status_refused {device : Device} {id : Int} {status : Status}
    {error : DatabaseError} (reachable : device.outages.lookup .updateStatus = none)
    (refused : device.database.updateStatus id status device.clock = .error error) :
    device.updateStatus id status = (.error (.database error), device.ticked) := by
  simp only [updateStatus, refused, reach, reachable]
  rfl

section

variable {device : Device} (unlocked : device.database.lockPoisoned = false)
  (reachable : device.outages = [])

include unlocked reachable

theorem insert_instance_taken (filled : Instance) :
    device.insertInstance filled =
      (.ok device.database.instances.nextId,
        { device with
          database := { device.database with
            instances := device.database.instances.insert (.ofInstance filled) } }) :=
  commit_taken reachable (Database.unlocked_then unlocked _)

theorem delete_instance_of_no_row {id : Int} (missing : device.row? id = none) :
    device.deleteInstance id = (.ok (), device) := by
  have absent : device.database.instance? id = .ok none := by
    unfold Database.instance?
    rw [Database.unlocked_then unlocked, show device.database.instances.find? id = none from missing]
  simp only [deleteInstance, absent, reach, reachable]
  rfl

end

/-- The table of instances holds exactly the rows of the map. -/
structure Mirrors (device : Device) (holdings : Holdings) : Prop where
  unlocked : device.database.lockPoisoned = false
  reachable : device.outages = []
  last : device.database.instances.lastId = holdings.lastId
  rows : ∀ id, device.row? id = (holdings.find? id).map InstanceRow.ofInstance
  ids : ∀ id filled, holdings.find? id = some filled → filled.id = id
  years : ∀ id filled, holdings.find? id = some filled → filled.changed.InFourDigitYears

/-- Every call of the instance store is answered as the map has it. -/
structure AnswersAs (device : Device) (holdings : Holdings) : Prop where
  instanceById : ∀ id, device.instance? id = .ok (holdings.find? id)
  instancesByStatus : ∀ statuses, ∃ found, device.instancesByStatus statuses = .ok found ∧
    holdings.Lists (fun filled => filled.status ∈ statuses) found
  instancesByFormId : ∀ formId, ∃ found, device.instancesByFormId formId = .ok found ∧
    holdings.Lists (fun filled => filled.formId = formId) found
  insertInstance : ∀ filled, (device.insertInstance filled).1 = .ok (holdings.lastId + 1)
  updateStatus : ∀ id status, (device.updateStatus id status).1 =
    ((holdings.changed? id status device.clock).map fun _ => ()).mapError .database
  deleteInstance : ∀ id, (device.deleteInstance id).1 = .ok ()
  deleteUnknown : ∀ id, holdings.find? id = none → device.deleteInstance id = (.ok (), device)

theorem fresh_mirrors (files : FileTree) (clock : Moment) : (fresh files clock).Mirrors {} where
  unlocked := rfl
  reachable := rfl
  last := rfl
  rows _ := rfl
  ids _ _ held := nomatch held
  years _ _ held := nomatch held

namespace Mirrors

variable {device : Device} {holdings : Holdings} (mirrors : device.Mirrors holdings)

include mirrors

/-- Only the table of instances, the lock and the outages matter. -/
theorem of_same {later : Device} (table : later.database.instances = device.database.instances)
    (lock : later.database.lockPoisoned = device.database.lockPoisoned)
    (outages : later.outages = device.outages) : later.Mirrors holdings where
  unlocked := lock.trans mirrors.unlocked
  reachable := outages.trans mirrors.reachable
  last := by rw [table, mirrors.last]
  rows id := by
    unfold row?
    rw [table]
    exact mirrors.rows id
  ids := mirrors.ids
  years := mirrors.years

theorem reaches (call : StoreCall) : device.outages.lookup call = none := by
  rw [mirrors.reachable]
  rfl

theorem row_at (id : Int) :
    device.database.instances.find? id = (holdings.find? id).map InstanceRow.ofInstance :=
  mirrors.rows id

theorem row_of_held {id : Int} {filled : Instance} (held : holdings.find? id = some filled) :
    device.row? id = some (.ofInstance filled) := by
  rw [mirrors.rows, held]
  rfl

theorem read_of_held {id : Int} {filled : Instance} (held : holdings.find? id = some filled) :
    (InstanceRow.ofInstance filled).read id = .ok filled := by
  rw [InstanceRow.read_of_instance (mirrors.years id filled held), ← mirrors.ids id filled held]

theorem held_of_row {id : Int} {row : InstanceRow}
    (member : (id, row) ∈ device.database.instances.rows) :
    ∃ filled, holdings.find? id = some filled ∧ row = .ofInstance filled := by
  have found := (Table.find_eq_some_iff _ _ _).mpr member
  rw [mirrors.row_at] at found
  obtain ⟨filled, held, same⟩ := Option.map_eq_some_iff.mp found
  exact ⟨filled, held, same.symm⟩

/-! ### Questions -/

theorem instance_by_id (id : Int) : device.instance? id = .ok (holdings.find? id) := by
  apply (reach_eq_ok_iff _ _ _ _).mpr
  refine ⟨mirrors.reaches _, ?_⟩
  unfold Database.instance?
  rw [Database.unlocked_then mirrors.unlocked, mirrors.row_at]
  cases held : holdings.find? id with
  | none => rfl
  | some filled =>
      have read := mirrors.read_of_held held
      dsimp only [Option.map_some]
      rw [read]
      rfl

/-- The rows that are selected are read, and are those of the instances that match. -/
theorem lists (wanted : InstanceRow → Bool) (chosen : Instance → Prop)
    (same : ∀ filled, wanted (.ofInstance filled) = true ↔ chosen filled) :
    ∃ found, Database.readInstances (device.database.instances.select wanted) = .ok found ∧
      holdings.Lists chosen found := by
  have readable : ∀ entry ∈ device.database.instances.select wanted,
      ∃ filled, entry.2.read entry.1 = .ok filled := by
    intro entry selected
    obtain ⟨filled, held, row⟩ := mirrors.held_of_row (List.mem_filter.mp selected).1
    exact ⟨filled, by rw [row]; exact mirrors.read_of_held held⟩
  obtain ⟨found, read⟩ := (mapM_answered_iff _ _).mpr readable
  have each := (mapM_eq_ok_iff _ _ _).mp read
  refine ⟨found, read, ⟨?_, ?_⟩⟩
  · rw [Selection.ids_of_read each]
    exact device.database.instances.ascending.sublist (List.filter_sublist.map _)
  · intro filled
    rw [Selection.mem_read_iff each]
    constructor
    · rintro ⟨row, selected, reads⟩
      obtain ⟨member, matching⟩ := List.mem_filter.mp selected
      obtain ⟨other, held, isRow⟩ := mirrors.held_of_row member
      rw [isRow, mirrors.read_of_held held] at reads
      cases reads
      rw [isRow] at matching
      exact ⟨held, (same filled).mp matching⟩
    · rintro ⟨held, matching⟩
      have member := (Table.find_eq_some_iff _ _ _).mp (mirrors.row_of_held held)
      refine ⟨.ofInstance filled, List.mem_filter.mpr ⟨member, (same filled).mpr matching⟩, ?_⟩
      exact mirrors.read_of_held held

theorem instances_by_status (statuses : List Status) :
    ∃ found, device.instancesByStatus statuses = .ok found ∧
      holdings.Lists (fun filled => filled.status ∈ statuses) found := by
  by_cases none : statuses = []
  · subst none
    refine ⟨[], (reach_eq_ok_iff _ _ _ _).mpr ⟨mirrors.reaches _, rfl⟩, ⟨.nil, ?_⟩⟩
    simp
  · have asked : statuses.isEmpty = false := List.isEmpty_eq_false_iff.mpr none
    obtain ⟨found, read, lists⟩ := mirrors.lists
      (fun row => (statuses.map Status.text).contains row.status)
      (fun filled => filled.status ∈ statuses) (by
        intro filled
        rw [List.contains_iff_mem]
        exact List.mem_map_of_injective fun _ _ => Status.text_injective)
    refine ⟨found, (reach_eq_ok_iff _ _ _ _).mpr ⟨mirrors.reaches _, ?_⟩, lists⟩
    unfold Database.instancesByStatus
    rw [if_neg (by simp [asked]), Database.unlocked_then mirrors.unlocked]
    exact read

theorem instances_by_form_id (formId : String) :
    ∃ found, device.instancesByFormId formId = .ok found ∧
      holdings.Lists (fun filled => filled.formId = formId) found := by
  obtain ⟨found, read, lists⟩ := mirrors.lists (fun row => row.formId == formId)
    (fun filled => filled.formId = formId) fun _ => beq_iff_eq
  refine ⟨found, (reach_eq_ok_iff _ _ _ _).mpr ⟨mirrors.reaches _, ?_⟩, lists⟩
  exact (Database.unlocked_then mirrors.unlocked _).trans read

/-! ### Changes -/

theorem update_of_missing {id : Int} (missing : holdings.find? id = none) (status : Status) :
    device.updateStatus id status =
      (.error (.database (.notFound "instances" id)), device.ticked) := by
  apply update_status_refused (mirrors.reaches _)
  unfold Database.updateStatus
  rw [Database.unlocked_then mirrors.unlocked, mirrors.row_at, missing]
  rfl

theorem update_of_held {id : Int} {filled : Instance} (held : holdings.find? id = some filled)
    (status : Status) :
    device.updateStatus id status =
      if filled.status.mayBecome status then (.ok (), device.withStatus id status)
      else (.error (.database (.invalidTransition id filled.status status)), device.ticked) := by
  have found := mirrors.row_of_held held
  have known := Status.ofText?_text filled.status
  split
  · rename_i allowed
    exact update_status_of_row (mirrors.reaches _) mirrors.unlocked found known allowed
  · rename_i forbidden
    apply update_status_refused (mirrors.reaches _)
    unfold Database.updateStatus
    rw [Database.unlocked_then mirrors.unlocked, mirrors.row_at, held]
    simp only [Option.map_some, InstanceRow.ofInstance, readStatus, known, bind, Except.bind]
    rw [if_neg forbidden]

theorem delete_of_held {id : Int} {filled : Instance} (held : holdings.find? id = some filled) :
    device.deleteInstance id = (.ok (), device.withoutInstance filled) :=
  delete_instance_of_row (mirrors.reaches _) mirrors.unlocked (mirrors.row_of_held held)
    (mirrors.read_of_held held)

theorem delete_of_missing {id : Int} (missing : holdings.find? id = none) :
    device.deleteInstance id = (.ok (), device) := by
  apply delete_instance_of_no_row mirrors.unlocked mirrors.reachable
  rw [mirrors.rows, missing]
  rfl

theorem answers_as : device.AnswersAs holdings where
  instanceById := mirrors.instance_by_id
  instancesByStatus := mirrors.instances_by_status
  instancesByFormId := mirrors.instances_by_form_id
  insertInstance filled := by
    rw [insert_instance_taken mirrors.unlocked mirrors.reachable, Table.nextId, mirrors.last]
  updateStatus id status := by
    cases held : holdings.find? id with
    | none =>
        rw [mirrors.update_of_missing held, Holdings.changed_of_missing held]
        rfl
    | some filled =>
        rw [mirrors.update_of_held held, Holdings.changed_of_held held]
        split <;> rfl
  deleteInstance id := by
    cases held : holdings.find? id with
    | none => rw [mirrors.delete_of_missing held]
    | some filled => rw [mirrors.delete_of_held held]
  deleteUnknown _ := mirrors.delete_of_missing

/-! ### What a change keeps -/

/-- An instance is written down under its identifier, and every other row stays. -/
theorem put {later : Device} {id : Int} {filled : Instance} {lastId : Int}
    (lock : later.database.lockPoisoned = false) (outages : later.outages = [])
    (last : later.database.instances.lastId = lastId)
    (rows : ∀ other, later.row? other =
      if other = id then some (.ofInstance filled) else device.row? other)
    (named : filled.id = id) (common : filled.changed.InFourDigitYears) :
    later.Mirrors ({ holdings with lastId }.put id filled) where
  unlocked := lock
  reachable := outages
  last := last
  rows other := by
    rw [rows, Holdings.find_put]
    split
    · rfl
    · exact mirrors.rows other
  ids other kept held := by
    rw [Holdings.find_put] at held
    split at held
    · rename_i same
      cases held
      exact named.trans same.symm
    · exact mirrors.ids other kept held
  years other kept held := by
    rw [Holdings.find_put] at held
    split at held
    · cases held
      exact common
    · exact mirrors.years other kept held

theorem insert_instance (filled : Instance) (common : filled.changed.InFourDigitYears) :
    (device.insertInstance filled).2.Mirrors (holdings.add filled) := by
  rw [insert_instance_taken mirrors.unlocked mirrors.reachable]
  refine mirrors.put mirrors.unlocked mirrors.reachable ?_ ?_ rfl common
  · rw [Table.lastId_insert, mirrors.last]
  · intro other
    rw [← mirrors.last]
    exact Table.find_insert _ _ other

theorem update_status (id : Int) (status : Status) (common : device.clock.InFourDigitYears) :
    (device.updateStatus id status).2.Mirrors (holdings.change id status device.clock) := by
  have ticked : device.ticked.Mirrors holdings := by
    apply mirrors.of_same <;> simp only [Device.ticked]
  unfold Holdings.change
  cases held : holdings.find? id with
  | none =>
      rw [mirrors.update_of_missing held, Holdings.changed_of_missing held]
      exact ticked
  | some filled =>
      rw [mirrors.update_of_held held, Holdings.changed_of_held held]
      split
      · have changes := with_status_changes device id status
        refine mirrors.put (changes.lock.trans mirrors.unlocked)
          (changes.outages.trans mirrors.reachable) (changes.last.trans mirrors.last) ?_
          (mirrors.ids id filled held) common
        intro other
        rw [row_with_status]
        split
        · rename_i same
          rw [same, mirrors.row_of_held held]
          rfl
        · rfl
      · exact ticked

theorem delete_instance (id : Int) :
    (device.deleteInstance id).2.Mirrors (holdings.drop id) := by
  have changes := delete_instance_changes device id
  have gone : (device.deleteInstance id).2.row? id = none := by
    cases held : holdings.find? id with
    | none => rw [mirrors.delete_of_missing held, mirrors.rows, held, Option.map_none]
    | some filled =>
        rw [mirrors.delete_of_held held, row_without_instance,
          if_pos (mirrors.ids id filled held).symm]
  have kept : ∀ other filled, (holdings.drop id).find? other = some filled →
      holdings.find? other = some filled := by
    intro other filled held
    rw [Holdings.find_drop] at held
    split at held
    · cases held
    · exact held
  refine ⟨changes.lock.trans mirrors.unlocked, changes.outages.trans mirrors.reachable,
    changes.last.trans mirrors.last, ?_, ?_, ?_⟩
  · intro other
    rw [Holdings.find_drop]
    split
    · rename_i same
      rw [same, gone]
      rfl
    · rename_i different
      rw [changes.rows other different]
      exact mirrors.rows other
  · intro other filled held
    exact mirrors.ids other filled (kept other filled held)
  · intro other filled held
    exact mirrors.years other filled (kept other filled held)

theorem insert_form (form : Form) : (device.insertForm form).2.Mirrors holdings := by
  rcases insert_form_cases device form with same | same <;> rw [same]
  · exact mirrors
  · exact mirrors.of_same rfl rfl rfl

theorem delete_forms (formId : String) : (device.deleteForms formId).2.Mirrors holdings := by
  rcases delete_forms_cases device formId with same | same <;> rw [same]
  · exact mirrors
  · exact mirrors.of_same rfl rfl rfl

/-- A change does to the map what it does to the table. -/
theorem perform_at (timed : StoreChange.Timed)
    (common : ∀ moment, timed.2.time? timed.1 = some moment → moment.InFourDigitYears) :
    (StoreChange.performAt device timed).2.Mirrors (holdings.record timed) := by
  rcases timed with ⟨now, change⟩
  have ready : Mirrors { device with clock := now } holdings := mirrors.of_same rfl rfl rfl
  cases change with
  | insertInstance filled => exact ready.insert_instance filled (common _ rfl)
  | updateStatus id status => exact ready.update_status id status (common _ rfl)
  | deleteInstance id => exact ready.delete_instance id
  | insertForm form => exact ready.insert_form form
  | deleteForms formId => exact ready.delete_forms formId

theorem play (history : List StoreChange.Timed)
    (common : ∀ moment ∈ StoreChange.times history, moment.InFourDigitYears) :
    (StoreChange.play device history).Mirrors (history.foldl Holdings.record holdings) := by
  induction history generalizing device holdings with
  | nil => exact mirrors
  | cons timed rest induction =>
      apply induction (mirrors.perform_at timed ?_)
      · intro moment later
        obtain ⟨other, member, time⟩ := List.mem_filterMap.mp later
        exact common moment (List.mem_filterMap.mpr ⟨other, List.mem_cons_of_mem _ member, time⟩)
      · intro moment time
        exact common moment (List.mem_filterMap.mpr ⟨timed, List.mem_cons_self, time⟩)

end Mirrors

end Device

/-! ### What becomes of one instance -/

/-- An instance after a change that did not delete it: a status it may take is written into it with
the time, and nothing else happens to it. -/
def Instance.after (filled : Instance) (timed : StoreChange.Timed) : Instance :=
  match timed.2 with
  | .updateStatus id status =>
      if id = filled.id ∧ filled.status.mayBecome status = true then
        { filled with status, changed := timed.1 }
      else filled
  | _ => filled

namespace Holdings

/-- This instance is held under an identifier that was given out. -/
structure Keeps (holdings : Holdings) (id : Int) (filled : Instance) : Prop where
  issued : id ≤ holdings.lastId
  named : filled.id = id
  held : holdings.find? id = some filled

theorem keeps_added (holdings : Holdings) (filled : Instance) :
    (holdings.add filled).Keeps (holdings.lastId + 1) { filled with id := holdings.lastId + 1 } where
  issued := Int.le_refl _
  named := rfl
  held := (find_put _ _ _ _).trans (if_pos rfl)

theorem Keeps.change {holdings : Holdings} {id : Int} {filled : Instance}
    (keeps : holdings.Keeps id filled) (changed : Int) (status : Status) (now : Moment) :
    (holdings.change changed status now).Keeps id
      (filled.after (now, .updateStatus changed status)) := by
  obtain ⟨issued, named, held⟩ := keeps
  unfold Instance.after Holdings.change
  dsimp only
  by_cases own : changed = id
  · subst own
    rw [changed_of_held held]
    by_cases allowed : filled.status.mayBecome status = true
    · rw [if_pos allowed, if_pos ⟨named.symm, allowed⟩]
      exact ⟨issued, named, (find_put _ _ _ _).trans (if_pos rfl)⟩
    · rw [if_neg allowed, if_neg fun both => allowed both.2]
      exact ⟨issued, named, held⟩
  · rw [if_neg fun both => own (both.1.trans named)]
    split
    · refine ⟨issued, named, ?_⟩
      rw [find_put, if_neg (Ne.symm own), held]
    · exact ⟨issued, named, held⟩

theorem Keeps.record {holdings : Holdings} {id : Int} {filled : Instance}
    (keeps : holdings.Keeps id filled) {timed : StoreChange.Timed}
    (spared : timed.2 ≠ .deleteInstance id) :
    (holdings.record timed).Keeps id (filled.after timed) := by
  rcases timed with ⟨now, change⟩
  obtain ⟨issued, named, held⟩ := keeps
  cases change with
  | insertInstance other =>
      have older : id ≠ holdings.lastId + 1 := by omega
      refine ⟨?_, named, ?_⟩
      · exact Int.le_trans issued (Int.le_of_lt (Int.lt_succ _))
      · exact (find_put _ _ _ _).trans (by rw [if_neg older]; exact held)
  | updateStatus changed status => exact Keeps.change ⟨issued, named, held⟩ changed status now
  | deleteInstance deleted =>
      have other : id ≠ deleted := fun same => spared (by rw [same])
      refine ⟨issued, named, ?_⟩
      exact (find_drop _ _ _).trans (by rw [if_neg other]; exact held)
  | insertForm form => exact ⟨issued, named, held⟩
  | deleteForms formId => exact ⟨issued, named, held⟩

theorem Keeps.play {holdings : Holdings} {id : Int} {filled : Instance}
    (keeps : holdings.Keeps id filled) {history : List StoreChange.Timed}
    (spared : ∀ timed ∈ history, timed.2 ≠ .deleteInstance id) :
    (history.foldl Holdings.record holdings).Keeps id (history.foldl Instance.after filled) := by
  induction history generalizing holdings filled with
  | nil => exact keeps
  | cons timed rest induction =>
      apply induction (keeps.record (spared timed List.mem_cons_self))
      intro other member
      exact spared other (List.mem_cons_of_mem _ member)

theorem after_append (early : List StoreChange.Timed) (timed : StoreChange.Timed)
    (late : List StoreChange.Timed) :
    after (early ++ timed :: late) = late.foldl record ((after early).record timed) := by
  simp only [after, List.foldl_append, List.foldl_cons]

end Holdings

namespace StoreChange

/-- Half of the leap second at the end of 2016. -/
def leapMoment : Moment where
  seconds := 1483228799
  nanos := 1500000000

def failedMoment : Moment where
  seconds := 1704067201
  nanos := 123456789

/-- Two instances are put in; the first fails to be sent and is not made incomplete again, the
second is deleted. -/
def mixedHistory : List Timed :=
  [(failedMoment, .insertInstance (storedInstance "well" leapMoment)),
    (failedMoment, .insertInstance (storedInstance "pump" failedMoment)),
    (failedMoment, .updateStatus 1 .submissionFailed),
    (failedMoment, .deleteInstance 2),
    (failedMoment, .updateStatus 1 .incomplete)]

end StoreChange

end FieldPost
