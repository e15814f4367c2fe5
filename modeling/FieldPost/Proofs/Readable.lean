import FieldPost.Proofs.Stores
import FieldPost.Proofs.TimeText
import FieldPost.Selection

/-!
What the stores can read of what they have written. Every time is taken and written down; a time
outside the years 0 to 9999 is not read again, and the row that has it fails every question that
meets it. The histories are those of the stores alone, begun on an empty database, with the clock
at any time for every change. Runs are not part of them.
-/

namespace FieldPost

open FieldPost.Answers

/-! ### Rows -/

theorem read_moment_iff (column : Nat) (moment : Moment) :
    (∃ back, readMoment column (Rfc3339.write moment) = .ok back) ↔ moment.InFourDigitYears := by
  rw [← Rfc3339.read_write_iff]
  unfold readMoment
  cases Rfc3339.read (Rfc3339.write moment) <;> simp

theorem InstanceRow.year_of_read {row : InstanceRow} {id : Int} {filled : Instance}
    {moment : Moment} (read : row.read id = .ok filled)
    (written : row.changed = Rfc3339.write moment) : moment.InFourDigitYears := by
  have time := ((read_eq_ok_iff row id filled).mp read).2.1
  rw [written] at time
  exact (read_moment_iff 7 moment).mp ⟨_, time⟩

theorem InstanceRow.read_of_instance_iff (filled : Instance) (id : Int) :
    (∃ read, (ofInstance filled).read id = .ok read) ↔ filled.changed.InFourDigitYears := by
  constructor
  · rintro ⟨found, read⟩
    exact year_of_read read rfl
  · intro common
    refine ⟨{ filled with id }, (read_eq_ok_iff _ _ _).mpr ⟨?_, ?_, rfl⟩⟩
    · exact (read_status_eq_ok_iff _ _ _).mpr (Status.ofText?_text filled.status)
    · simp only [readMoment, ofInstance, Rfc3339.read_write filled.changed common]

theorem FormRow.year_of_read {row : FormRow} {id : Int} {form : Form} {moment : Moment}
    (read : row.read id = .ok form) (written : row.added = Rfc3339.write moment) :
    moment.InFourDigitYears := by
  rcases (bind_eq_ok_iff _ _ _).mp read with ⟨back, time, _⟩
  rw [written] at time
  exact (read_moment_iff 7 moment).mp ⟨back, time⟩

theorem FormRow.read_of_form_iff (form : Form) (id : Int) :
    (∃ read, (ofForm form).read id = .ok read) ↔ form.added.InFourDigitYears := by
  constructor
  · rintro ⟨found, read⟩
    exact year_of_read read rfl
  · intro common
    obtain ⟨back, time⟩ := (read_moment_iff 7 form.added).mpr common
    exact ⟨_, (bind_eq_ok_iff _ _ _).mpr ⟨back, time, rfl⟩⟩

namespace Database

theorem unlocked_then {α : Type} {database : Database} (unlocked : database.lockPoisoned = false)
    (answer : Answer α) : (do database.unlocked; answer) = answer := by
  simp [Database.unlocked, unlocked, bind, Except.bind]

theorem newest_mem {entries : List (Int × FormRow)} {entry : Int × FormRow}
    (found : newest entries = some entry) : entry ∈ entries := by
  induction entries generalizing entry with
  | nil => cases found
  | cons first rest induction =>
      unfold newest at found
      cases later : newest rest with
      | none =>
          simp only [later] at found
          cases found
          exact List.mem_cons_self
      | some other =>
          simp only [later] at found
          cases found
          split
          · exact List.mem_cons_self
          · exact List.mem_cons_of_mem _ (induction later)

end Database

/-! ### Changes of the stores -/

inductive StoreChange
  | insertInstance (filled : Instance)
  | updateStatus (id : Int) (status : Status)
  | deleteInstance (id : Int)
  | insertForm (form : Form)
  | deleteForms (formId : String)

namespace StoreChange

def perform (device : Device) : StoreChange → Device.Answer Unit × Device
  | .insertInstance filled =>
      let inserted := device.insertInstance filled
      (inserted.1.map fun _ => (), inserted.2)
  | .updateStatus id status => device.updateStatus id status
  | .deleteInstance id => device.deleteInstance id
  | .insertForm form =>
      let inserted := device.insertForm form
      (inserted.1.map fun _ => (), inserted.2)
  | .deleteForms formId =>
      let deleted := device.deleteForms formId
      (deleted.1.map fun _ => (), deleted.2)

/-- The time that is written, if one is, by a change that is made now. -/
def time? (now : Moment) : StoreChange → Option Moment
  | .insertInstance filled => some filled.changed
  | .updateStatus _ _ => some now
  | .deleteInstance _ => none
  | .insertForm form => some form.added
  | .deleteForms _ => none

/-- A change, with the time of the clock when it is made. -/
abbrev Timed := Moment × StoreChange

def performAt (device : Device) (timed : Timed) : Device.Answer Unit × Device :=
  timed.2.perform { device with clock := timed.1 }

def play (device : Device) (history : List Timed) : Device :=
  history.foldl (fun device timed => (performAt device timed).2) device

/-- No change of the history is refused. -/
def allTaken (device : Device) : List Timed → Bool
  | [] => true
  | timed :: rest =>
      (performAt device timed).1.isOk && allTaken (performAt device timed).2 rest

def times (history : List Timed) : List Moment :=
  history.filterMap fun timed => timed.2.time? timed.1

end StoreChange

namespace Device

/-- A device with an empty database, within reach of every call. -/
def fresh (files : FileTree) (clock : Moment) : Device where
  database := { instances := .empty, forms := .empty }
  files := files
  clock := clock

/-- Every row was written from an instance or a form, with one of these times. -/
structure WrittenAt (times : List Moment) (device : Device) : Prop where
  unlocked : device.database.lockPoisoned = false
  reachable : device.outages = []
  instances : ∀ entry ∈ device.database.instances.rows,
    ∃ filled, entry.2 = InstanceRow.ofInstance filled ∧ filled.changed ∈ times
  forms : ∀ entry ∈ device.database.forms.rows,
    ∃ form, entry.2 = FormRow.ofForm form ∧ form.added ∈ times

theorem fresh_written_at (times : List Moment) (files : FileTree) (clock : Moment) :
    (fresh files clock).WrittenAt times :=
  ⟨rfl, rfl, fun _ member => (nomatch member), fun _ member => (nomatch member)⟩

namespace WrittenAt

variable {times : List Moment} {device : Device}

theorem at_time (written : device.WrittenAt times) (now : Moment) :
    WrittenAt times { device with clock := now } :=
  ⟨written.unlocked, written.reachable, written.instances, written.forms⟩

theorem insert_instance (written : device.WrittenAt times) (filled : Instance)
    (known : filled.changed ∈ times) : (device.insertInstance filled).2.WrittenAt times := by
  rcases insert_instance_cases device filled with nothing | inserted
  · rw [nothing]
    exact written
  · rw [inserted]
    refine ⟨written.unlocked, written.reachable, ?_, written.forms⟩
    intro entry member
    rw [Table.rows_insert, List.mem_append, List.mem_singleton] at member
    rcases member with old | rfl
    · exact written.instances entry old
    · exact ⟨filled, rfl, known⟩

theorem update_status (written : device.WrittenAt times) (id : Int) (status : Status)
    (known : device.clock ∈ times) : (device.updateStatus id status).2.WrittenAt times := by
  rcases update_status_cases device id status with failed | ⟨_, _, _, _, _, changed⟩
  · rw [failed]
    exact written.at_time _
  · rw [changed]
    dsimp only [withStatus, ticked]
    refine ⟨written.unlocked, written.reachable, ?_, written.forms⟩
    intro entry member
    obtain ⟨old, stored, rfl⟩ := List.mem_map.mp member
    obtain ⟨filled, same, time⟩ := written.instances old stored
    unfold Table.changeAt
    split
    · refine ⟨{ filled with status, changed := device.clock }, ?_, known⟩
      rw [same]
      rfl
    · exact ⟨filled, same, time⟩

theorem delete_instance (written : device.WrittenAt times) (id : Int) :
    (device.deleteInstance id).2.WrittenAt times := by
  rcases delete_instance_cases device id with nothing | ⟨_, filled, _, _, deleted⟩
  · rw [nothing]
    exact written
  · rw [deleted]
    have erased : (device.withoutInstance filled).database =
        { device.database with instances := device.database.instances.erase filled.id } :=
      database_remove_files _ _
    have outages : (device.withoutInstance filled).outages = device.outages :=
      outages_remove_files _ _
    refine ⟨?_, outages.trans written.reachable, ?_, ?_⟩ <;> rw [erased]
    · exact written.unlocked
    · intro entry member
      exact written.instances entry (List.mem_filter.mp member).1
    · exact written.forms

theorem insert_form (written : device.WrittenAt times) (form : Form)
    (known : form.added ∈ times) : (device.insertForm form).2.WrittenAt times := by
  rcases insert_form_cases device form with nothing | inserted
  · rw [nothing]
    exact written
  · rw [inserted]
    refine ⟨written.unlocked, written.reachable, written.instances, ?_⟩
    intro entry member
    rw [Table.rows_insert, List.mem_append, List.mem_singleton] at member
    rcases member with old | rfl
    · exact written.forms entry old
    · exact ⟨form, rfl, known⟩

theorem delete_forms (written : device.WrittenAt times) (formId : String) :
    (device.deleteForms formId).2.WrittenAt times := by
  rcases delete_forms_cases device formId with nothing | deleted
  · rw [nothing]
    exact written
  · rw [deleted]
    refine ⟨written.unlocked, written.reachable, written.instances, ?_⟩
    intro entry member
    exact written.forms entry (List.mem_filter.mp member).1

/-- One change writes no time but its own. -/
theorem perform_at (written : device.WrittenAt times) (timed : StoreChange.Timed)
    (known : ∀ moment, timed.2.time? timed.1 = some moment → moment ∈ times) :
    (StoreChange.performAt device timed).2.WrittenAt times := by
  rcases timed with ⟨now, change⟩
  have ready := written.at_time now
  cases change with
  | insertInstance filled => exact ready.insert_instance filled (known _ rfl)
  | updateStatus id status => exact ready.update_status id status (known _ rfl)
  | deleteInstance id => exact ready.delete_instance id
  | insertForm form => exact ready.insert_form form (known _ rfl)
  | deleteForms formId => exact ready.delete_forms formId

theorem play (written : device.WrittenAt times) (history : List StoreChange.Timed)
    (known : ∀ moment ∈ StoreChange.times history, moment ∈ times) :
    (StoreChange.play device history).WrittenAt times := by
  induction history generalizing device with
  | nil => exact written
  | cons timed rest induction =>
      apply induction (written.perform_at timed ?_)
      · intro moment later
        obtain ⟨other, member, time⟩ := List.mem_filterMap.mp later
        exact known moment (List.mem_filterMap.mpr ⟨other, List.mem_cons_of_mem _ member, time⟩)
      · intro moment time
        exact known moment (List.mem_filterMap.mpr ⟨timed, List.mem_cons_self, time⟩)

end WrittenAt

/-! ### Questions -/

/-- Every question about the rows is answered, whatever it asks for. -/
structure AnswersAll (device : Device) : Prop where
  instanceById : ∀ id, ∃ found, device.instance? id = .ok found
  instancesByStatus : ∀ statuses, ∃ found, device.instancesByStatus statuses = .ok found
  instancesByFormId : ∀ formId, ∃ found, device.instancesByFormId formId = .ok found
  allForms : ∃ found, device.allForms = .ok found
  latestForm : ∀ formId, ∃ found, device.latestForm formId = .ok found
  latestFormVersion : ∀ formId version,
    ∃ found, device.latestFormVersion formId version = .ok found

/-- Some row has the text of this time. -/
def Holds (device : Device) (moment : Moment) : Prop :=
  (∃ id row, device.row? id = some row ∧ row.changed = Rfc3339.write moment) ∨
    ∃ entry ∈ device.database.forms.rows, entry.2.added = Rfc3339.write moment

theorem reach_answered_iff {α : Type} {device : Device} (reachable : device.outages = [])
    (call : StoreCall) (answer : Database.Answer α) :
    (∃ found, device.reach call answer = .ok found) ↔ ∃ found, answer = .ok found := by
  simp only [reach_eq_ok_iff, reachable, List.lookup_nil, true_and]

section

variable {device : Device} (unlocked : device.database.lockPoisoned = false)
  (reachable : device.outages = [])

include unlocked reachable

theorem instances_by_status_answered_iff {statuses : List Status} (some : statuses ≠ []) :
    (∃ found, device.instancesByStatus statuses = .ok found) ↔
      ∀ entry ∈ device.database.instances.rows, entry.2.status ∈ statuses.map Status.text →
        ∃ filled, entry.2.read entry.1 = .ok filled := by
  have asked : statuses.isEmpty = false := List.isEmpty_eq_false_iff.mpr some
  unfold instancesByStatus Database.instancesByStatus Database.readInstances
  rw [reach_answered_iff reachable, if_neg (by simp [asked]), Database.unlocked_then unlocked,
    mapM_answered_iff]
  simp only [Table.select, List.mem_filter, List.contains_iff_mem, and_imp]

theorem instances_by_form_id_answered_iff (formId : String) :
    (∃ found, device.instancesByFormId formId = .ok found) ↔
      ∀ entry ∈ device.database.instances.rows, entry.2.formId = formId →
        ∃ filled, entry.2.read entry.1 = .ok filled := by
  unfold instancesByFormId Database.instancesByFormId Database.readInstances
  rw [reach_answered_iff reachable, Database.unlocked_then unlocked, mapM_answered_iff]
  simp only [Table.select, List.mem_filter, beq_iff_eq, and_imp]

theorem instance_by_id_answered_iff (id : Int) :
    (∃ found, device.instance? id = .ok found) ↔
      ∀ row, device.row? id = some row → ∃ filled, row.read id = .ok filled := by
  unfold instance? Database.instance? row?
  rw [reach_answered_iff reachable, Database.unlocked_then unlocked]
  cases device.database.instances.find? id with
  | none => simp
  | some row => simp [map_eq_ok_iff]

theorem all_forms_answered_iff :
    (∃ found, device.allForms = .ok found) ↔
      ∀ entry ∈ device.database.forms.rows, ∃ form, entry.2.read entry.1 = .ok form := by
  unfold allForms Database.allForms
  rw [reach_answered_iff reachable, Database.unlocked_then unlocked, mapM_answered_iff]

theorem newest_form_answered (call : StoreCall) (wanted : FormRow → Bool)
    (readable : ∀ entry ∈ device.database.forms.rows,
      ∃ form, entry.2.read entry.1 = .ok form) :
    ∃ found, device.reach call (device.database.newestForm wanted) = .ok found := by
  unfold Database.newestForm
  rw [reach_answered_iff reachable, Database.unlocked_then unlocked]
  split
  · exact ⟨none, rfl⟩
  · rename_i id row newest
    have stored := (List.mem_filter.mp (Database.newest_mem newest)).1
    obtain ⟨form, read⟩ := readable (id, row) stored
    exact ⟨some form, (map_eq_ok_iff _ _ _).mpr ⟨form, read, rfl⟩⟩

theorem answers_all_of_readable
    (instances : ∀ entry ∈ device.database.instances.rows,
      ∃ filled, entry.2.read entry.1 = .ok filled)
    (forms : ∀ entry ∈ device.database.forms.rows, ∃ form, entry.2.read entry.1 = .ok form) :
    device.AnswersAll where
  instanceById id := by
    refine (instance_by_id_answered_iff unlocked reachable id).mpr ?_
    intro row found
    exact instances (id, row) ((Table.find_eq_some_iff _ _ _).mp found)
  instancesByStatus statuses := by
    by_cases none : statuses = []
    · subst none
      exact (reach_answered_iff reachable _ _).mpr ⟨[], rfl⟩
    · refine (instances_by_status_answered_iff unlocked reachable none).mpr ?_
      exact fun entry member _ => instances entry member
  instancesByFormId formId :=
    (instances_by_form_id_answered_iff unlocked reachable formId).mpr
      fun entry member _ => instances entry member
  allForms := (all_forms_answered_iff unlocked reachable).mpr forms
  latestForm formId := newest_form_answered unlocked reachable _ _ forms
  latestFormVersion formId version := newest_form_answered unlocked reachable _ _ forms

end

theorem year_of_answers_all {device : Device} (answers : device.AnswersAll) {moment : Moment}
    (held : device.Holds moment) : moment.InFourDigitYears := by
  rcases held with ⟨id, row, found, written⟩ | ⟨entry, member, written⟩
  · obtain ⟨_, answered⟩ := answers.instanceById id
    obtain ⟨_, present⟩ := (reach_eq_ok_iff _ _ _ _).mp answered
    obtain ⟨_, _, read⟩ := (bind_eq_ok_iff _ _ _).mp present
    rw [show device.database.instances.find? id = some row from found] at read
    obtain ⟨filled, reads, _⟩ := (map_eq_ok_iff _ _ _).mp read
    exact InstanceRow.year_of_read reads written
  · obtain ⟨_, answered⟩ := answers.allForms
    obtain ⟨_, listed⟩ := (reach_eq_ok_iff _ _ _ _).mp answered
    obtain ⟨_, _, read⟩ := (bind_eq_ok_iff _ _ _).mp listed
    obtain ⟨form, reads⟩ := answer_of_mem read member
    exact FormRow.year_of_read reads written

namespace WrittenAt

variable {times : List Moment} {device : Device}

theorem answers_all_iff (written : device.WrittenAt times) :
    device.AnswersAll ↔ ∀ moment, device.Holds moment → moment.InFourDigitYears := by
  constructor
  · exact fun answers _ held => year_of_answers_all answers held
  · intro years
    apply answers_all_of_readable written.unlocked written.reachable
    · rintro ⟨id, row⟩ member
      obtain ⟨filled, rfl, _⟩ := written.instances _ member
      have found := (Table.find_eq_some_iff _ _ _).mpr member
      exact (InstanceRow.read_of_instance_iff filled id).mpr (years _ (.inl ⟨id, _, found, rfl⟩))
    · rintro ⟨id, row⟩ member
      obtain ⟨form, rfl, _⟩ := written.forms _ member
      exact (FormRow.read_of_form_iff form id).mpr (years _ (.inr ⟨_, member, rfl⟩))

/-- The text of a time stands for no time with a year of its own. -/
theorem year_of_holds (written : device.WrittenAt times)
    (years : ∀ moment ∈ times, moment.InFourDigitYears) {moment : Moment}
    (held : device.Holds moment) : moment.InFourDigitYears := by
  have same : ∀ known ∈ times, Rfc3339.write known = Rfc3339.write moment →
      moment.InFourDigitYears := by
    intro known member text
    have read := Rfc3339.read_write known (years known member)
    rw [text] at read
    exact (Rfc3339.read_write_iff moment).mp ⟨known, read⟩
  rcases held with ⟨id, row, found, text⟩ | ⟨entry, member, text⟩
  · obtain ⟨filled, rfl, known⟩ :=
      written.instances (id, row) ((Table.find_eq_some_iff _ _ _).mp found)
    exact same _ known text
  · obtain ⟨form, row, known⟩ := written.forms entry member
    rw [row] at text
    exact same _ known text

end WrittenAt

/-- No question that meets the row of this instance is answered, nor is any instance selected
for a run while it waits to be sent. -/
structure BlockedBy (device : Device) (id : Int) (filled : Instance) : Prop where
  instanceById : ∀ found, device.instance? id ≠ .ok found
  instancesByStatus : ∀ statuses, filled.status ∈ statuses →
    ∀ found, device.instancesByStatus statuses ≠ .ok found
  instancesByFormId : ∀ found, device.instancesByFormId filled.formId ≠ .ok found
  selection : filled.status ∈ Status.finalized →
    ∀ settings found, Selection.instances settings device ≠ .ok found

/-- How the years of the times decide what is answered. -/
structure AnswersByYears (device : Device) : Prop where
  answers_all_iff : device.AnswersAll ↔ ∀ moment, device.Holds moment → moment.InFourDigitYears
  instance_blocks : ∀ filled, ¬ filled.changed.InFourDigitYears → ∃ id stored,
    device.insertInstance filled = (.ok id, stored) ∧ stored.BlockedBy id filled
  form_blocks : ∀ form, ¬ form.added.InFourDigitYears → ∃ id stored,
    device.insertForm form = (.ok id, stored) ∧ ∀ found, stored.allForms ≠ .ok found

theorem commit_taken {α : Type} {device : Device} {call : StoreCall}
    {answer : Database.Answer (α × Database)} {value : α} {database : Database}
    (reachable : device.outages = []) (answered : answer = .ok (value, database)) :
    device.commit (device.reach call answer) = (.ok value, { device with database }) := by
  rw [(reach_eq_ok_iff _ _ _ _).mpr ⟨by rw [reachable]; rfl, answered⟩]
  rfl

section

variable {device : Device} (unlocked : device.database.lockPoisoned = false)
  (reachable : device.outages = [])

include unlocked reachable

theorem blocked_by {id : Int} {filled : Instance}
    (member : (id, InstanceRow.ofInstance filled) ∈ device.database.instances.rows)
    (uncommon : ¬ filled.changed.InFourDigitYears) : device.BlockedBy id filled := by
  have unread := mt (InstanceRow.read_of_instance_iff filled id).mp uncommon
  have byStatus : ∀ statuses, filled.status ∈ statuses →
      ∀ found, device.instancesByStatus statuses ≠ .ok found := by
    intro statuses wanted found answered
    have each := (instances_by_status_answered_iff unlocked reachable
      (List.ne_nil_of_mem wanted)).mp ⟨found, answered⟩
    exact unread (each _ member (List.mem_map_of_mem wanted))
  refine ⟨?_, byStatus, ?_, ?_⟩
  · intro found answered
    have row := (Table.find_eq_some_iff _ _ _).mpr member
    exact unread ((instance_by_id_answered_iff unlocked reachable id).mp ⟨found, answered⟩ _ row)
  · intro found answered
    have each := (instances_by_form_id_answered_iff unlocked reachable _).mp ⟨found, answered⟩
    exact unread (each _ member rfl)
  · intro finalized settings found selected
    obtain ⟨listed, answered, _⟩ := (bind_eq_ok_iff _ _ _).mp selected
    exact byStatus _ finalized listed answered

theorem all_forms_blocked {id : Int} {form : Form}
    (member : (id, FormRow.ofForm form) ∈ device.database.forms.rows)
    (uncommon : ¬ form.added.InFourDigitYears) (found : List Form) :
    device.allForms ≠ .ok found := by
  intro answered
  have each := (all_forms_answered_iff unlocked reachable).mp ⟨found, answered⟩
  exact uncommon ((FormRow.read_of_form_iff form id).mp (each (id, .ofForm form) member))

end

theorem WrittenAt.answers_by_years {times : List Moment} {device : Device}
    (written : device.WrittenAt times) : device.AnswersByYears where
  answers_all_iff := written.answers_all_iff
  instance_blocks filled uncommon := by
    have inserted := Database.unlocked_then written.unlocked (.ok (device.database.instances.nextId,
      { device.database with
        instances := device.database.instances.insert (.ofInstance filled) }))
    refine ⟨_, _, commit_taken written.reachable inserted, ?_⟩
    refine blocked_by ?_ ?_ (Table.mem_insert _ _) uncommon
    · exact written.unlocked
    · exact written.reachable
  form_blocks form uncommon := by
    have inserted := Database.unlocked_then written.unlocked (.ok (device.database.forms.nextId,
      { device.database with forms := device.database.forms.insert (.ofForm form) }))
    refine ⟨_, _, commit_taken written.reachable inserted, ?_⟩
    refine all_forms_blocked ?_ ?_ (Table.mem_insert _ _) uncommon
    · exact written.unlocked
    · exact written.reachable

end Device

namespace StoreChange

/-- After any history of changes every question is answered if all times that were written have
four-digit years, and exactly if those that the rows still hold have. A time with another year is
written down all the same, and then fails every question that meets its row. -/
theorem reads_answered_by_years (files : FileTree) (clock : Moment) (history : List Timed) :
    ((∀ moment ∈ times history, moment.InFourDigitYears) →
        (play (.fresh files clock) history).AnswersAll) ∧
      (play (.fresh files clock) history).AnswersByYears := by
  have written := (Device.fresh_written_at (times history) files clock).play history
    fun _ member => member
  refine ⟨fun years => ?_, written.answers_by_years⟩
  exact written.answers_all_iff.mpr fun _ held => written.year_of_holds years held

def storedInstance (formId : String) (changed : Moment) : Instance where
  displayName := formId
  formId := formId
  formVersion := none
  status := .complete
  path := "/instances/" ++ formId ++ ".xml"
  submissionUri := none
  changed := changed

/-- An instance of the year 2024, and one of the year 10000 after it. -/
def blockingHistory : List Timed :=
  [(.ofSeconds 1704067200, .insertInstance (storedInstance "well" (.ofSeconds 1704067200))),
    (.ofSeconds 1704067200, .insertInstance (storedInstance "pump" (.ofSeconds 253402300800)))]

/-- What was taken need not be read again, and then other rows are not read either. -/
theorem taken_row_blocks_others :
    ¬ ∀ (files : FileTree) (clock : Moment) (history : List Timed),
      allTaken (.fresh files clock) history = true →
        (play (.fresh files clock) history).AnswersAll := by
  intro claimed
  have answers := claimed {} (.ofSeconds 0) blockingHistory (by decide +kernel)
  obtain ⟨found, answered⟩ := answers.instancesByStatus [.complete]
  have refused : ((play (.fresh {} (.ofSeconds 0)) blockingHistory).instancesByStatus
      [.complete]).isOk = false := by decide +kernel
  rw [answered] at refused
  cases refused

theorem common_history_answered :
    (∀ moment ∈ times (blockingHistory.take 1), moment.InFourDigitYears) ∧
      (play (.fresh {} (.ofSeconds 0)) (blockingHistory.take 1)).AnswersAll := by
  have years : ∀ moment ∈ times (blockingHistory.take 1), moment.InFourDigitYears := by
    intro moment member
    cases List.mem_singleton.mp member
    exact ⟨by decide, by decide⟩
  exact ⟨years, (reads_answered_by_years {} (.ofSeconds 0) (blockingHistory.take 1)).1 years⟩

end StoreChange

end FieldPost
