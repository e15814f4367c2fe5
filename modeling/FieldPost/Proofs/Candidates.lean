import FieldPost.Proofs.Stores
import FieldPost.Proofs.TimeText
import FieldPost.Selection

/-!
What a run has selected. Its candidates are stored instances in the order of their identifiers,
none of them twice, and each of them waits to be sent. Which of the waiting instances are
selected is not said here.
-/

namespace FieldPost.Selection

open FieldPost.Answers

variable {ε : Type}

theorem keep_if_sublist (wanted : Bool) (filled : Instance) {kept rest : List Instance}
    (within : kept.Sublist rest) : (keepIf wanted filled kept).Sublist (filled :: rest) := by
  cases wanted with
  | true => exact within.cons_cons filled
  | false => exact within.cons filled

theorem remembering_sublist (asks : Key → Except ε Bool) (known : Known)
    (listed kept : List Instance) (answered : (remembering asks known listed).1 = .ok kept) :
    kept.Sublist listed := by
  induction listed generalizing known kept with
  | nil =>
      cases answered
      exact .refl []
  | cons filled rest induction =>
      unfold remembering at answered
      cases remembered : known.lookup (key filled) with
      | some wanted =>
          simp only [remembered] at answered
          rcases (map_eq_ok_iff _ _ _).mp answered with ⟨others, later, rfl⟩
          exact keep_if_sublist wanted filled (induction known others later)
      | none =>
          simp only [remembered] at answered
          cases asked : asks (key filled) with
          | error error => simp [asked] at answered
          | ok wanted =>
              simp only [asked] at answered
              rcases (map_eq_ok_iff _ _ _).mp answered with ⟨others, later, rfl⟩
              exact keep_if_sublist wanted filled (induction _ others later)

/-- Stored instances that wait to be sent, in the order of their identifiers. -/
structure Waiting (device : Device) (candidates : List Instance) : Prop where
  unlocked : device.database.lockPoisoned = false
  ascending : (candidates.map (·.id)).Pairwise (· < ·)
  stored : ∀ filled ∈ candidates, ∃ row,
    device.row? filled.id = some row ∧ row.read filled.id = .ok filled
  finalized : ∀ filled ∈ candidates, filled.status.isFinalized = true
  few : candidates.length ≤ device.database.instances.rows.length

theorem Waiting.sublist {device : Device} {listed kept : List Instance}
    (waiting : Waiting device listed) (within : kept.Sublist listed) : Waiting device kept where
  unlocked := waiting.unlocked
  ascending := waiting.ascending.sublist (within.map _)
  stored filled member := waiting.stored filled (within.subset member)
  finalized filled member := waiting.finalized filled (within.subset member)
  few := Nat.le_trans within.length_le waiting.few

theorem ids_of_read {rows : List (Int × InstanceRow)} {read : List Instance}
    (each : List.Forall₂ (fun entry filled => entry.2.read entry.1 = .ok filled) rows read) :
    read.map (·.id) = rows.map (·.1) := by
  induction each with
  | nil => rfl
  | cons first _ induction =>
      rw [List.map_cons, List.map_cons, induction, InstanceRow.id_of_read first]

theorem row_of_read {rows : List (Int × InstanceRow)} {read : List Instance}
    (each : List.Forall₂ (fun entry filled => entry.2.read entry.1 = .ok filled) rows read)
    {filled : Instance} (member : filled ∈ read) :
    ∃ row, (filled.id, row) ∈ rows ∧ row.read filled.id = .ok filled := by
  induction each with
  | nil => cases member
  | @cons entry first _ _ head _ induction =>
      rcases List.mem_cons.mp member with rfl | later
      · have same := InstanceRow.id_of_read head
        exact ⟨entry.2, by rw [same]; exact List.mem_cons_self, by rw [same]; exact head⟩
      · obtain ⟨row, inside, reads⟩ := induction later
        exact ⟨row, List.mem_cons_of_mem _ inside, reads⟩

/-- What was read of rows is what each of them reads as. -/
theorem mem_read_iff {rows : List (Int × InstanceRow)} {read : List Instance}
    (each : List.Forall₂ (fun entry filled => entry.2.read entry.1 = .ok filled) rows read)
    (filled : Instance) :
    filled ∈ read ↔ ∃ row, (filled.id, row) ∈ rows ∧ row.read filled.id = .ok filled := by
  constructor
  · exact row_of_read each
  · rintro ⟨row, member, reads⟩
    induction each with
    | nil => cases member
    | @cons entry first _ _ head _ induction =>
        rcases List.mem_cons.mp member with same | later
        · rw [← same, reads] at head
          cases head
          exact List.mem_cons_self
        · exact List.mem_cons_of_mem _ (induction later)

/-- The stored names of the statuses that wait are those of no other status. -/
theorem finalized_of_text {name : String} {status : Status}
    (known : Status.ofText? name = some status)
    (wanted : (Status.finalized.map Status.text).contains name = true) :
    status.isFinalized = true := by
  simp only [Status.finalized, List.map_cons, List.map_nil, List.contains_cons,
    List.contains_nil, Bool.or_false, Bool.or_eq_true, beq_iff_eq] at wanted
  rcases wanted with rfl | rfl
  · rw [Status.ofText?_text] at known
    cases known
    rfl
  · rw [Status.ofText?_text] at known
    cases known
    rfl

theorem waiting_of_status {device : Device} {found : List Instance}
    (listed : device.instancesByStatus Status.finalized = .ok found) : Waiting device found := by
  rcases (Device.reach_eq_ok_iff _ _ _ _).mp listed with ⟨_, answered⟩
  unfold Database.instancesByStatus at answered
  rw [if_neg (by decide)] at answered
  rcases (bind_eq_ok_iff _ _ _).mp answered with ⟨_, unlocked, read⟩
  have each := (mapM_eq_ok_iff _ _ _).mp read
  refine ⟨?_, ?_, ?_, ?_, ?_⟩
  · cases locked : device.database.lockPoisoned with
    | false => rfl
    | true => simp [Database.unlocked, locked] at unlocked
  · rw [ids_of_read each]
    exact device.database.instances.ascending.sublist (List.filter_sublist.map _)
  · intro filled member
    obtain ⟨row, inside, reads⟩ := row_of_read each member
    have stored := (Table.find_eq_some_iff _ _ _).mpr (List.mem_filter.mp inside).1
    exact ⟨row, stored, reads⟩
  · intro filled member
    obtain ⟨row, inside, reads⟩ := row_of_read each member
    exact finalized_of_text (InstanceRow.status_of_read reads) (List.mem_filter.mp inside).2
  · rw [← each.length_eq]
    exact List.length_filter_le _ _

/-- Whatever the settings are, a run selects stored instances that wait to be sent. -/
theorem waiting_of_instances {settings : Settings} {device : Device}
    {candidates : List Instance} (selected : instances settings device = .ok candidates) :
    Waiting device candidates := by
  rcases (bind_eq_ok_iff _ _ _).mp selected with ⟨found, listed, narrowed⟩
  have waiting := waiting_of_status listed
  split at narrowed
  · cases narrowed
    exact waiting
  · exact waiting.sublist (remembering_sublist _ _ _ _ narrowed)

/-- An instance can be marked: its row is there and waits, and the store takes statuses. -/
structure Ready (device : Device) (filled : Instance) (row : InstanceRow) : Prop where
  unlocked : device.database.lockPoisoned = false
  updates : device.outages.lookup .updateStatus = none
  found : device.row? filled.id = some row
  read : row.read filled.id = .ok filled
  finalized : filled.status.isFinalized = true

theorem Waiting.ready {device : Device} {candidates : List Instance} {filled : Instance}
    (waiting : Waiting device candidates) (member : filled ∈ candidates)
    (updates : device.outages.lookup .updateStatus = none) : ∃ row, Ready device filled row := by
  obtain ⟨row, found, read⟩ := waiting.stored filled member
  exact ⟨row, waiting.unlocked, updates, found, read, waiting.finalized filled member⟩

namespace Ready

variable {device later : Device} {filled : Instance} {row : InstanceRow}

theorem keep (ready : Ready device filled row)
    (changes : Device.ChangesOnly (· ≠ filled.id) device later) : Ready later filled row where
  unlocked := changes.lock.trans ready.unlocked
  updates := by rw [changes.outages, ready.updates]
  found := changes.own_row.trans ready.found
  read := ready.read
  finalized := ready.finalized

/-- Both outcomes of sending can be written down. -/
theorem mark (ready : Ready device filled row) {status : Status}
    (outcome : status = .submitted ∨ status = .submissionFailed) :
    device.updateStatus filled.id status = (.ok (), device.withStatus filled.id status) := by
  apply Device.update_status_of_row ready.updates ready.unlocked ready.found
    (InstanceRow.status_of_read ready.read)
  have finalized := ready.finalized
  cases before : filled.status <;> rw [before] at finalized <;>
    rcases outcome with rfl | rfl <;> first | rfl | cases finalized

/-- What was marked as sent can be read and so be deleted, if its time can be read. -/
theorem delete (ready : Ready device filled row)
    (deletes : device.outages.lookup .deleteInstance = none)
    (clock : device.clock.InFourDigitYears) :
    ((device.withStatus filled.id .submitted).deleteInstance filled.id).2.row? filled.id =
      none := by
  have found : (device.withStatus filled.id .submitted).row? filled.id =
      some (Database.changeStatus .submitted device.clock row) := by
    rw [Device.row_with_status, if_pos rfl, ready.found]
    rfl
  have read : (Database.changeStatus .submitted device.clock row).read filled.id =
      .ok ⟨filled.id, row.displayName, row.formId, row.formVersion, .submitted, row.path,
        row.submissionUri, device.clock⟩ := by
    refine (InstanceRow.read_eq_ok_iff _ _ _).mpr ⟨rfl, ?_, rfl⟩
    simp only [readMoment, Database.changeStatus, Rfc3339.read_write device.clock clock]
  have changes := device.with_status_changes filled.id .submitted
  have reachable := deletes
  rw [← changes.outages] at reachable
  have unlocked := changes.lock.trans ready.unlocked
  have deleted := Device.delete_instance_of_row reachable unlocked found read
  rw [deleted, Device.row_without_instance, if_pos rfl]

end Ready

end FieldPost.Selection
