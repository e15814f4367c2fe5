import FieldPost.Proofs.Clearance
import FieldPost.Proofs.Exits
import FieldPost.Proofs.LifeCycle
import FieldPost.Proofs.Readable
import FieldPost.Proofs.TimeOrder

/-!
What is sent by settings that send nothing of themselves. The gate asks whether any form at all
wants its instances sent, the selection asks for each waiting instance what the record of its form
says that was added last in exactly its version. On a store that was filled with times of the years
0 to 9999 both are always answered and agree: the gate is open whenever the selection is not empty.
What becomes of the instances that are sent is not said.
-/

namespace FieldPost

open FieldPost.Answers

variable {σ : Type}

namespace FormRow

theorem read_of_form {form : Form} (common : form.added.InFourDigitYears) (id : Int) :
    (ofForm form).read id = .ok { form with id } := by
  have flags : ∀ stored : Option Bool, (stored.map ofFlag).map readFlag = stored := by
    intro stored
    cases stored with
    | none => rfl
    | some flag => exact congrArg some (readFlag_ofFlag flag)
  simp only [read, readMoment, ofForm, Rfc3339.read_write form.added common, bind, Except.bind,
    flags]

/-- A form can be told from its identifier and its row. -/
theorem entry_injective {first second : Form} (first_common : first.added.InFourDigitYears)
    (second_common : second.added.InFourDigitYears)
    (same : (first.id, ofForm first) = (second.id, ofForm second)) : first = second := by
  obtain ⟨ids, rows⟩ := Prod.mk.inj same
  have read := read_of_form first_common first.id
  rw [rows, read_of_form second_common] at read
  calc
    first = { second with id := first.id } := (Except.ok.inj read).symm
    _ = second := by rw [ids]

/-- Of two forms the one that was added later has the newer row. -/
theorem is_newer_iff {first second : Form} (first_common : first.added.InFourDigitYears)
    (second_common : second.added.InFourDigitYears) :
    Database.isNewer (first.id, ofForm first) (second.id, ofForm second) = true ↔
      second.added.before first.added = true ∨
        second.added = first.added ∧ second.id < first.id := by
  have text : ∀ form : Form, (ofForm form).added = Rfc3339.write form.added := fun _ => rfl
  rw [Database.is_newer_iff, text, text, Rfc3339.write_lt_iff second_common first_common]
  apply or_congr_right
  apply and_congr_left
  intro _
  exact ⟨Rfc3339.write_injective second_common first_common, congrArg Rfc3339.write⟩

end FormRow

namespace Device

/-- The record of a form, as it is stored. -/
def StoresForm (device : Device) (form : Form) : Prop :=
  ∃ row, device.database.forms.find? form.id = some row ∧ row.read form.id = .ok form

/-- Of the stored records of this form in exactly this version the one that was added last, and of
those that were added last at once the one with the greatest identifier. -/
def AddedLast (device : Device) (formId : String) (version : Option String) (form : Form) : Prop :=
  (device.StoresForm form ∧ form.formId = formId ∧ form.version = version) ∧
    ∀ other, device.StoresForm other → other.formId = formId → other.version = version →
      other = form ∨ other.added.before form.added = true ∨
        other.added = form.added ∧ other.id < form.id

/-- A stored instance that waits to be sent and whose form asks for that. -/
def OptedIn (device : Device) (filled : Instance) : Prop :=
  (∃ row, device.row? filled.id = some row ∧ row.read filled.id = .ok filled) ∧
    (filled.status = .complete ∨ filled.status = .submissionFailed) ∧
    ∃ form, device.AddedLast filled.formId filled.formVersion form ∧ form.autoSend = some true

theorem AddedLast.unique {device : Device} {formId : String} {version : Option String}
    {first second : Form} (one : device.AddedLast formId version first)
    (other : device.AddedLast formId version second) : first = second := by
  rcases other.2 first one.1.1 one.1.2.1 one.1.2.2 with same | below
  · exact same
  rcases one.2 second other.1.1 other.1.2.1 other.1.2.2 with same | above
  · exact same.symm
  exfalso
  rcases below with earlier | ⟨equal, smaller⟩ <;> rcases above with later | ⟨_, greater⟩
  · have itself := Moment.before_trans earlier later
    rw [Moment.before_irrefl] at itself
    cases itself
  · rw [← ‹second.added = first.added›, Moment.before_irrefl] at earlier
    cases earlier
  · rw [equal, Moment.before_irrefl] at later
    cases later
  · omega

theorem WrittenAt.of_database {times : List Moment} {device other : Device}
    (written : other.WrittenAt times) (same : device.database = other.database)
    (reachable : device.outages = []) : device.WrittenAt times where
  unlocked := same ▸ written.unlocked
  reachable := reachable
  instances := same ▸ written.instances
  forms := same ▸ written.forms

theorem WrittenAt.any_form_requests {times : List Moment} {device : Device}
    (written : device.WrittenAt times) :
    device.anyFormRequests =
      .ok (device.database.forms.rows.any fun entry => entry.2.autoSend == some 1) := by
  apply (reach_eq_ok_iff _ _ _ _).mpr
  refine ⟨?_, Database.unlocked_then written.unlocked _⟩
  rw [written.reachable]
  rfl

/-! ### Stores with times of common years -/

section

variable {device : Device} {times : List Moment} (written : device.WrittenAt times)
  (years : ∀ moment ∈ times, moment.InFourDigitYears)

include written years

theorem answers_all_of_common : device.AnswersAll :=
  written.answers_all_iff.mpr fun _ held => written.year_of_holds years held

/-- A row of the table of forms is the row of a form that is stored with it. -/
theorem form_of_row {id : Int} {row : FormRow} (member : (id, row) ∈ device.database.forms.rows) :
    ∃ form, form.id = id ∧ row = .ofForm form ∧ device.StoresForm form ∧
      form.added.InFourDigitYears := by
  obtain ⟨form, rfl, known⟩ := written.forms _ member
  have common := years _ known
  have found := (Table.find_eq_some_iff _ _ _).mpr member
  exact ⟨{ form with id }, rfl, rfl, ⟨_, found, FormRow.read_of_form common id⟩, common⟩

theorem row_of_form {form : Form} (stored : device.StoresForm form) :
    (form.id, FormRow.ofForm form) ∈ device.database.forms.rows ∧
      form.added.InFourDigitYears := by
  obtain ⟨row, found, reads⟩ := stored
  have member := (Table.find_eq_some_iff _ _ _).mp found
  obtain ⟨other, same, rfl, ⟨_, found_again, reads_again⟩, common⟩ :=
    form_of_row written years member
  rw [same, found] at found_again
  cases found_again
  rw [same, reads] at reads_again
  cases reads_again
  exact ⟨member, common⟩

/-- The newest of some rows is the record that was added last of those that are stored there. -/
theorem newest_is_last {wanted : FormRow → Bool} {form : Form} (stored : device.StoresForm form)
    (newest : Database.newest (device.database.forms.select wanted) =
      some (form.id, .ofForm form)) :
    wanted (.ofForm form) = true ∧
      ∀ other, device.StoresForm other → wanted (.ofForm other) = true →
        other = form ∨ other.added.before form.added = true ∨
          other.added = form.added ∧ other.id < form.id := by
  have ascending : ((device.database.forms.select wanted).map (·.1)).Pairwise (· < ·) :=
    device.database.forms.ascending.sublist (List.filter_sublist.map _)
  rw [Database.newest_eq_topmost, topmost_eq_some_iff (Database.ranks_of_ids ascending)] at newest
  obtain ⟨selected, highest⟩ := newest
  refine ⟨(List.mem_filter.mp selected).2, ?_⟩
  intro other other_stored other_wanted
  obtain ⟨_, common⟩ := row_of_form written years stored
  obtain ⟨member, other_common⟩ := row_of_form written years other_stored
  rcases highest _ (List.mem_filter.mpr ⟨member, other_wanted⟩) with same | above
  · exact .inl (FormRow.entry_injective other_common common same)
  · exact .inr ((FormRow.is_newer_iff common other_common).mp above)

/-- What is found of a form in some version is the record of it that was added last. -/
theorem latest_version_cases (formId : String) (version : Option String) :
    (∃ form, device.latestFormVersion formId version = .ok (some form) ∧
      device.AddedLast formId version form) ∨
    device.latestFormVersion formId version = .ok none ∧
      ∀ form, ¬ device.AddedLast formId version form := by
  let wanted (row : FormRow) : Bool := row.formId == formId && row.version == version
  have wanted_iff : ∀ form, wanted (.ofForm form) = true ↔
      form.formId = formId ∧ form.version = version := by
    intro form
    simp only [wanted, Bool.and_eq_true, beq_iff_eq]
    rfl
  obtain ⟨found, answered⟩ :=
    (answers_all_of_common written years).latestFormVersion formId version
  rcases (reach_eq_ok_iff _ _ _ _).mp answered with ⟨_, asked⟩
  rcases (bind_eq_ok_iff _ _ _).mp asked with ⟨_, _, latest⟩
  cases newest : Database.newest (device.database.forms.select wanted) with
  | none =>
      rw [newest] at latest
      cases latest
      refine .inr ⟨answered, ?_⟩
      rintro form ⟨⟨stored, ofForm⟩, _⟩
      have member := (row_of_form written years stored).1
      have selected : (form.id, FormRow.ofForm form) ∈ device.database.forms.select wanted :=
        List.mem_filter.mpr ⟨member, (wanted_iff form).mpr ofForm⟩
      rw [Database.newest_eq_topmost, topmost_eq_none_iff] at newest
      rw [newest] at selected
      cases selected
  | some entry =>
      rcases entry with ⟨id, row⟩
      rw [newest] at latest
      rcases (map_eq_ok_iff _ _ _).mp latest with ⟨form, reads, rfl⟩
      have member := (List.mem_filter.mp (Database.newest_mem newest)).1
      obtain ⟨kept, rfl, rfl, stored, _⟩ := form_of_row written years member
      have same : kept = form := by
        obtain ⟨_, found, reads_again⟩ := stored
        cases ((Table.find_eq_some_iff _ _ _).mpr member).symm.trans found
        exact Except.ok.inj (reads_again.symm.trans reads)
      subst same
      obtain ⟨ofForm, last⟩ := newest_is_last written years stored newest
      refine .inl ⟨kept, answered, ⟨⟨stored, (wanted_iff kept).mp ofForm⟩, ?_⟩⟩
      intro other other_stored formed versioned
      exact last other other_stored ((wanted_iff other).mpr ⟨formed, versioned⟩)

/-- Whether a form in some version asks is always answered, by its record that was added last. -/
theorem asks_of_common (key : Selection.Key) :
    ∃ wanted, Selection.asks device key = .ok wanted ∧
      (wanted = true ↔
        ∃ form, device.AddedLast key.1 key.2 form ∧ form.autoSend = some true) := by
  unfold Selection.asks
  rcases latest_version_cases written years key.1 key.2 with ⟨form, found, last⟩ | ⟨found, none⟩
  · refine ⟨form.requestsAutoSend, by rw [found]; rfl, ?_⟩
    rw [Form.requestsAutoSend, beq_iff_eq]
    constructor
    · exact fun requests => ⟨form, last, requests⟩
    · rintro ⟨other, other_last, requests⟩
      rw [last.unique other_last]
      exact requests
  · refine ⟨false, by rw [found]; rfl, ?_⟩
    simp [none]

/-- A form that is added last for some version and asks opens the gate for all. -/
theorem any_form_requests_of_last {formId : String} {version : Option String} {form : Form}
    (last : device.AddedLast formId version form) (requests : form.autoSend = some true) :
    device.anyFormRequests = .ok true := by
  have member := (row_of_form written years last.1.1).1
  have one : (FormRow.ofForm form).autoSend = some 1 := by
    unfold FormRow.ofForm
    rw [requests]
    rfl
  rw [written.any_form_requests]
  exact congrArg Except.ok (List.any_eq_true.mpr ⟨_, member, beq_iff_eq.mpr one⟩)

end

end Device

/-! ### Selection -/

namespace Selection

variable {ε : Type}

/-- Where every question is answered, the plain filter is the filter of lists. -/
theorem plain_eq_filter {asks : Key → Except ε Bool} (wanted : Instance → Bool)
    (listed : List Instance)
    (answered : ∀ filled ∈ listed, asks (key filled) = .ok (wanted filled)) :
    plain asks listed = .ok (listed.filter wanted) := by
  induction listed with
  | nil => rfl
  | cons filled rest induction =>
      have others := induction fun other member => answered other (List.mem_cons_of_mem _ member)
      unfold plain
      rw [answered filled List.mem_cons_self, others, List.filter_cons]
      cases wanted filled <;> rfl

/-- The instances that wait are those that are stored with one of the two statuses. -/
theorem mem_finalized_iff {device : Device} {found : List Instance}
    (listed : device.instancesByStatus Status.finalized = .ok found) (filled : Instance) :
    filled ∈ found ↔
      (∃ row, device.row? filled.id = some row ∧ row.read filled.id = .ok filled) ∧
        (filled.status = .complete ∨ filled.status = .submissionFailed) := by
  rcases (Device.reach_eq_ok_iff _ _ _ _).mp listed with ⟨_, answered⟩
  unfold Database.instancesByStatus at answered
  rw [if_neg (by decide)] at answered
  rcases (bind_eq_ok_iff _ _ _).mp answered with ⟨_, _, read⟩
  rw [mem_read_iff ((mapM_eq_ok_iff _ _ _).mp read)]
  constructor
  · rintro ⟨row, inside, reads⟩
    rcases List.mem_filter.mp inside with ⟨stored, wanted⟩
    have finalized := finalized_of_text (InstanceRow.status_of_read reads) wanted
    refine ⟨⟨row, (Table.find_eq_some_iff _ _ _).mpr stored, reads⟩, ?_⟩
    rw [Status.isFinalized, Bool.or_eq_true, beq_iff_eq, beq_iff_eq] at finalized
    exact finalized
  · rintro ⟨⟨row, found, reads⟩, waits⟩
    have text := Status.text_of_ofText? (InstanceRow.status_of_read reads)
    refine ⟨row, List.mem_filter.mpr ⟨(Table.find_eq_some_iff _ _ _).mp found, ?_⟩, reads⟩
    dsimp only
    rw [← text]
    rcases waits with complete | failed
    · rw [complete]
      decide
    · rw [failed]
      decide

end Selection

namespace Device

variable {device : Device} {times : List Moment}

/-- With settings that send nothing of themselves the selection is always made, and it is of the
instances whose forms ask. -/
theorem selected_of_common (written : device.WrittenAt times)
    (years : ∀ moment ∈ times, moment.InFourDigitYears) {settings : Settings}
    (off : settings.autoSend = .off) :
    ∃ candidates, Selection.instances settings device = .ok candidates ∧
      ∀ filled, filled ∈ candidates ↔ device.OptedIn filled := by
  obtain ⟨found, listed⟩ :=
    (answers_all_of_common written years).instancesByStatus Status.finalized
  choose wanted answered asked using asks_of_common written years
  have manual := Settings.auto_send_disabled off
  refine ⟨found.filter fun filled => wanted (Selection.key filled), ?_, ?_⟩
  · unfold Selection.instances
    rw [listed, manual]
    have nothing := Selection.Known.right_nil (Selection.asks device)
    have plain := Selection.remembering_eq_plain (Selection.asks device) nothing found
    rw [Selection.plain_eq_filter _ found fun filled _ => answered (Selection.key filled)] at plain
    exact plain
  · intro filled
    rw [List.mem_filter, Selection.mem_finalized_iff listed, asked, and_assoc]
    rfl

end Device

namespace Run

/-- With settings that send nothing of themselves, on a storage that is there, the gate hangs on
the forms alone. -/
theorem gate_of_off {around : Surroundings} {device : Device} (off : around.settings.autoSend = .off)
    (mounted : around.storage.isMounted device.files = true) :
    gate around device =
      device.anyFormRequests.map fun requests => if requests then .proceed else .retry := by
  unfold gate Gate.evaluate
  rw [off, mounted]
  rfl

theorem ids_of_completed {around : Surroundings} {uploaders : Uploaders σ} {world : World σ}
    {summary : Summary} {candidates : List Instance}
    (completed : (execute around uploaders world).1 = .completed summary)
    (selected : Selection.instances around.settings world.device = .ok candidates) :
    summary.results.map (·.instanceId) = candidates.map (·.id) := by
  have execution := execution_of_run around uploaders world
  rw [completed] at execution
  generalize (execute around uploaders world).2 = after at execution
  cases execution with
  | idle _ notices unfinished => exact absurd rfl (unfinished summary)
  | sent others selected_again _ results =>
      cases selected.symm.trans selected_again
      rw [results, List.map_map]
      exact ids_of_turns _ _ _ _ _

/-- The record of a form in its first version, which asks for its instances to be sent or does not
say. -/
def recordedForm (formId : String) (added : Int) (autoSend : Option Bool) : Form :=
  { Rehearsal.form formId { path := formId } (.ofSeconds added) with
    version := some "1", autoSend := autoSend }

/-- A form whose record that was added last came into the store first and asks, a form whose record
that asks is not the one that was added last, and instances of both. -/
def recordedHistory : List StoreChange.Timed :=
  [(.ofSeconds 0, .insertForm (recordedForm "well" 2000 (some true))),
    (.ofSeconds 0, .insertForm (recordedForm "well" 1000 (some false))),
    (.ofSeconds 0, .insertForm (recordedForm "pump" 1000 (some true))),
    (.ofSeconds 0, .insertForm (recordedForm "pump" 2000 none)),
    (.ofSeconds 0, .insertInstance
      { waitingInstance "well" "/well/1.xml" with formVersion := some "1" }),
    (.ofSeconds 0, .insertInstance (waitingInstance "well" "/well/2.xml")),
    (.ofSeconds 0, .insertInstance
      { waitingInstance "pump" "/pump/3.xml" with formVersion := some "1" })]

def recordedWorld : World Rehearsal.Stage where
  device := StoreChange.play (.fresh {} (.ofSeconds 0)) recordedHistory
  far := {}

/-- The surroundings of a rehearsal, without a connection and with settings that send nothing. -/
def silentSurroundings : Surroundings :=
  { rehearsedSurroundings with settings := {}, connection := none }

end Run

end FieldPost
