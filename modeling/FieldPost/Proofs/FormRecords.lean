import FieldPost.Proofs.Drafts
import FieldPost.Proofs.Latest

/-!
Records of forms that openings drop. They are dropped only when the latest record of the opened
form has lost its definition, and then all of them are, also those of other versions whose
definitions are still there. Records of other forms stay, so what these forms say of their
instances stays too. A download is trusted to add records of the form it was asked for and to do
nothing else to the table of forms.
-/

namespace FieldPost

open FieldPost.Answers

variable {σ : Type}

/-- Records of one form, with identifiers that this device did not give out yet. -/
def Device.FreshRecords (device : Device) (formId : String) (added : List (Int × FormRow)) :
    Prop :=
  ∀ entry ∈ added, entry.2.formId = formId ∧ device.database.forms.lastId < entry.1

/-- Downloading a form adds records of it and leaves the stores as they are otherwise. -/
structure FormServices.OnlyAddsRecords (services : FormServices σ) : Prop where
  forms : ∀ formId (device : Device) far, ∃ added, device.FreshRecords formId added ∧
    (services.download formId device far).device.database.forms.rows =
      device.database.forms.rows ++ added
  lock : ∀ formId (device : Device) far,
    (services.download formId device far).device.database.lockPoisoned =
      device.database.lockPoisoned
  outages : ∀ formId (device : Device) far,
    (services.download formId device far).device.outages = device.outages

namespace Database

theorem newest_eq_none_iff (entries : List (Int × FormRow)) :
    newest entries = none ↔ entries = [] := by
  rw [newest_eq_topmost]
  exact topmost_eq_none_iff entries

end Database

namespace Device

/-- A form has no latest record only if it has none at all. -/
theorem no_record_of_no_latest {device : Device} {formId : String}
    (missing : device.latestForm formId = .ok none) :
    ∀ entry ∈ device.database.forms.rows, entry.2.formId ≠ formId := by
  rcases (reach_eq_ok_iff _ _ _ _).mp missing with ⟨_, asked⟩
  rcases (bind_eq_ok_iff _ _ _).mp asked with ⟨_, _, answered⟩
  cases found : Database.newest (device.database.forms.select fun row => row.formId == formId) with
  | some entry =>
      rw [found] at answered
      rcases (map_eq_ok_iff _ _ _).mp answered with ⟨_, _, absurd⟩
      cases absurd
  | none =>
      intro entry member same
      have nothing := (Database.newest_eq_none_iff _).mp found
      have selected : entry ∈ device.database.forms.select fun row => row.formId == formId :=
        List.mem_filter.mpr ⟨member, beq_iff_eq.mpr same⟩
      rw [nothing] at selected
      cases selected

theorem unlocked_of_latest {device : Device} {formId : String} {latest : Option Form}
    (found : device.latestForm formId = .ok latest) : device.database.lockPoisoned = false := by
  rcases (reach_eq_ok_iff _ _ _ _).mp found with ⟨_, asked⟩
  rcases (bind_eq_ok_iff _ _ _).mp asked with ⟨_, unlocked, _⟩
  cases locked : device.database.lockPoisoned with
  | false => rfl
  | true => simp [Database.unlocked, locked] at unlocked

/-- The records of a form are deleted exactly when the store can be reached for it. -/
theorem delete_forms_of_unlocked {device : Device} (formId : String)
    (unlocked : device.database.lockPoisoned = false) :
    (∃ count, (device.deleteForms formId).1 = .ok count) ↔
      device.outages.lookup .deleteForms = none := by
  unfold deleteForms reach
  cases device.outages.lookup .deleteForms <;>
    simp [commit, Database.deleteForms, Database.unlocked, unlocked, bind, Except.bind,
      Except.mapError]

theorem rows_of_deleted_forms {device : Device} {formId : String} {count : Nat}
    (deleted : (device.deleteForms formId).1 = .ok count) :
    (device.deleteForms formId).2.database.forms =
      device.database.forms.keep fun entry => entry.2.formId != formId := by
  have reached : device.deleteForms formId =
      device.commit (device.reach .deleteForms (device.database.deleteForms formId)) := rfl
  rw [reached] at deleted ⊢
  cases answer : device.reach .deleteForms (device.database.deleteForms formId) with
  | error error =>
      rw [answer] at deleted
      cases deleted
  | ok changed =>
      rcases (reach_eq_ok_iff _ _ _ _).mp answer with ⟨_, asked⟩
      rcases (bind_eq_ok_iff _ _ _).mp asked with ⟨_, _, same⟩
      cases same
      rfl

theorem stores_of_deleted_forms (device : Device) (formId : String) :
    (device.deleteForms formId).2.database.lockPoisoned = device.database.lockPoisoned ∧
      (device.deleteForms formId).2.outages = device.outages := by
  rcases delete_forms_cases device formId with same | same <;> rw [same] <;> exact ⟨rfl, rfl⟩

theorem refused_delete_forms {device : Device} {formId : String} {error : StoreError}
    (refused : (device.deleteForms formId).1 = .error error) :
    (device.deleteForms formId).2 = device := by
  have reached : device.deleteForms formId =
      device.commit (device.reach .deleteForms (device.database.deleteForms formId)) := rfl
  rw [reached] at refused ⊢
  cases answer : device.reach .deleteForms (device.database.deleteForms formId) with
  | error error => rfl
  | ok changed =>
      rw [answer] at refused
      cases refused

/-- What is found of a form in some version hangs on the records of that form and version. -/
theorem latest_version_of_same_records {before after : Device} {formId : String}
    {version : Option String} (lock : after.database.lockPoisoned = before.database.lockPoisoned)
    (outages : after.outages = before.outages)
    (same :
      after.database.forms.select (fun row => row.formId == formId && row.version == version) =
      before.database.forms.select fun row => row.formId == formId && row.version == version) :
    after.latestFormVersion formId version = before.latestFormVersion formId version := by
  unfold latestFormVersion reach Database.latestFormVersion Database.newestForm Database.unlocked
  rw [lock, outages, same]

/-- The latest record of the form is there and its definition is not, and the store can be reached
to delete the records. -/
structure NeedsRepair (device : Device) (formId : String) : Prop where
  stale : ∃ form, device.latestForm formId = .ok (some form) ∧
    form.definitionExists device.files = false
  reachable : device.outages.lookup .deleteForms = none

/-- The records of forms after one of the forms was obtained. -/
inductive Renewal (formId : String) (device : Device) : List (Int × FormRow) → Prop
  | unchanged (intact : ¬ device.NeedsRepair formId) :
      Renewal formId device device.database.forms.rows
  | added (intact : ¬ device.NeedsRepair formId)
      (unknown : ∀ entry ∈ device.database.forms.rows, entry.2.formId ≠ formId)
      {added : List (Int × FormRow)} (fresh : device.FreshRecords formId added) :
      Renewal formId device (device.database.forms.rows ++ added)
  | repaired (needed : device.NeedsRepair formId) {added : List (Int × FormRow)}
      (fresh : device.FreshRecords formId added) :
      Renewal formId device
        ((device.database.forms.rows.filter fun entry => entry.2.formId != formId) ++ added)

namespace Renewal

variable {formId : String} {device : Device} {rows : List (Int × FormRow)}

theorem old_of_fresh {added : List (Int × FormRow)} (fresh : device.FreshRecords formId added)
    {entry : Int × FormRow} (old : entry ∈ device.database.forms.rows) : entry ∉ added := by
  intro member
  have later := (fresh entry member).2
  have issued := device.database.forms.issued entry.1 (List.mem_map_of_mem old)
  omega

/-- Only a repair drops a record, and it drops every record of the form. -/
theorem mem_iff (renewal : Renewal formId device rows) {entry : Int × FormRow}
    (old : entry ∈ device.database.forms.rows) :
    entry ∈ rows ↔ ¬ (entry.2.formId = formId ∧ device.NeedsRepair formId) := by
  cases renewal with
  | unchanged intact => simp [old, intact]
  | added intact unknown fresh => simp [old, intact]
  | repaired needed fresh => simp [old, needed, old_of_fresh fresh old]

theorem filter_added {added : List (Int × FormRow)} (fresh : device.FreshRecords formId added)
    {wanted : FormRow → Bool} (others : ∀ row, wanted row = true → row.formId ≠ formId) :
    added.filter (fun entry => wanted entry.2) = [] := by
  apply List.filter_eq_nil_iff.mpr
  intro entry member asked
  exact others entry.2 asked (fresh entry member).1

theorem select_others (renewal : Renewal formId device rows) (wanted : FormRow → Bool)
    (others : ∀ row, wanted row = true → row.formId ≠ formId) :
    rows.filter (fun entry => wanted entry.2) = device.database.forms.select wanted := by
  cases renewal with
  | unchanged intact => rfl
  | added intact unknown fresh =>
      rw [List.filter_append, filter_added fresh others, List.append_nil]
      rfl
  | repaired needed fresh =>
      rw [List.filter_append, filter_added fresh others, List.append_nil, List.filter_filter]
      apply List.filter_congr
      intro entry _
      by_cases asked : wanted entry.2 = true
      · simp [asked, others entry.2 asked]
      · simp [asked]

/-- A form that is known and need not be repaired keeps its records, and gets none. -/
theorem rows_of_intact (renewal : Renewal formId device rows)
    (intact : ¬ device.NeedsRepair formId)
    (known : ∃ entry ∈ device.database.forms.rows, entry.2.formId = formId) :
    rows = device.database.forms.rows := by
  cases renewal with
  | unchanged _ => rfl
  | added _ unknown fresh =>
      rcases known with ⟨entry, member, same⟩
      exact absurd same (unknown entry member)
  | repaired needed fresh => exact absurd needed intact

end Renewal

end Device

namespace Opening

/-- The three states of a form, by its latest record and the definition of that. -/
theorem cache_state_eq_ok_iff (device : Device) (formId : String) (state : CacheState) :
    cacheState device formId = .ok state ↔
      ∃ latest, device.latestForm formId = .ok latest ∧
        state = match latest with
          | none => .absent
          | some form =>
              if form.definitionExists device.files then .valid form else .corrupt form := by
  unfold cacheState ofStore
  rw [map_error_eq_ok_iff, map_eq_ok_iff]
  exact exists_congr fun _ => and_congr_right fun _ => eq_comm

section

variable {services : FormServices σ} (adds : services.OnlyAddsRecords)

include adds

theorem renewal_of_repair {formId : String} {world : World σ} {form : Form}
    (found : world.device.latestForm formId = .ok (some form))
    (lost : form.definitionExists world.device.files = false) :
    Device.Renewal formId world.device
      (repair services formId world).2.device.database.forms.rows := by
  have reached := Device.delete_forms_of_unlocked formId (Device.unlocked_of_latest found)
  unfold repair World.onDevice
  dsimp only
  cases answer : (world.device.deleteForms formId).1 with
  | error error =>
      dsimp only
      rw [Device.refused_delete_forms answer]
      apply Device.Renewal.unchanged
      rintro ⟨_, reachable⟩
      rcases reached.mpr reachable with ⟨count, deleted⟩
      rw [answer] at deleted
      cases deleted
  | ok count =>
      have left := Device.rows_of_deleted_forms answer
      rcases adds.forms formId (world.device.deleteForms formId).2 world.far with
        ⟨added, fresh, rows⟩
      dsimp only [download, receive]
      unfold Device.FreshRecords at fresh
      rw [left] at fresh rows
      rw [rows]
      apply Device.Renewal.repaired _ fresh
      exact ⟨⟨form, found, lost⟩, reached.mp ⟨count, answer⟩⟩

theorem renewal_of_obtain (formId : String) (world : World σ) :
    Device.Renewal formId world.device
      (obtain services formId world).2.device.database.forms.rows := by
  unfold obtain
  cases known : cacheState world.device formId with
  | error error =>
      apply Device.Renewal.unchanged
      rintro ⟨⟨form, found, _⟩, _⟩
      have answered := (cache_state_eq_ok_iff world.device formId _).mpr ⟨_, found, rfl⟩
      rw [known] at answered
      cases answered
  | ok state =>
      rcases (cache_state_eq_ok_iff _ _ _).mp known with ⟨latest, found, rfl⟩
      cases latest with
      | none =>
          rcases adds.forms formId world.device world.far with ⟨added, fresh, rows⟩
          dsimp only [download, receive]
          rw [rows]
          apply Device.Renewal.added _ (Device.no_record_of_no_latest found) fresh
          rintro ⟨⟨form, other, _⟩, _⟩
          rw [found] at other
          cases other
      | some form =>
          cases there : form.definitionExists world.device.files with
          | false =>
              simp only [there, Bool.false_eq_true, if_false]
              exact renewal_of_repair adds found there
          | true =>
              simp only [there, if_true]
              apply Device.Renewal.unchanged
              rintro ⟨⟨other, again, lost⟩, _⟩
              rw [found] at again
              cases again
              rw [there] at lost
              cases lost

theorem stores_of_obtain (formId : String) (world : World σ) :
    (obtain services formId world).2.device.database.lockPoisoned =
        world.device.database.lockPoisoned ∧
      (obtain services formId world).2.device.outages = world.device.outages := by
  have dropped := Device.stores_of_deleted_forms world.device formId
  unfold obtain
  split
  · exact ⟨rfl, rfl⟩
  · exact ⟨rfl, rfl⟩
  · exact ⟨adds.lock formId world.device world.far, adds.outages formId world.device world.far⟩
  · unfold repair World.onDevice
    dsimp only
    split
    · exact dropped
    · exact ⟨(adds.lock formId _ world.far).trans dropped.1,
        (adds.outages formId _ world.far).trans dropped.2⟩

end

/-- Once its drafts are gone, the latest record of the form has no definition, and the store can be
reached to delete the records. -/
def Repairs (formId : String) (world : World σ) : Prop :=
  (discardDrafts formId world).1 = .ok () ∧
    (discardDrafts formId world).2.device.NeedsRepair formId

/-- A record of a form is dropped exactly when the form that is opened is its own and has to be
repaired, wherever the definition of that record is. Every other form, and the opened one if it is
known and not repaired, says the same of its instances as before. -/
theorem records_dropped_only_in_repair (services : FormServices σ)
    (adds : services.OnlyAddsRecords) (formId : String) (world : World σ) :
    (∀ entry ∈ world.device.database.forms.rows,
      entry ∈ (openForm services formId world).2.device.database.forms.rows ↔
        ¬ (entry.2.formId = formId ∧ Repairs formId world)) ∧
    ∀ other version,
      (other = formId → ¬ Repairs formId world ∧
        ∃ entry ∈ world.device.database.forms.rows, entry.2.formId = formId) →
      (openForm services formId world).2.device.latestFormVersion other version =
        world.device.latestFormVersion other version := by
  rcases discard_drafts_loses formId world with ⟨dropped, _, loses, _⟩
  have changes := loses.changes
  cases ended : (discardDrafts formId world).1 with
  | error error =>
      have opened : (openForm services formId world).2 = (discardDrafts formId world).2 := by
        simp only [openForm, ended]
      have intact : ¬ Repairs formId world := by
        rintro ⟨discarded, _⟩
        rw [ended] at discarded
        cases discarded
      rw [opened, changes.forms]
      exact ⟨fun entry old => by simp [old, intact],
        fun other version _ => changes.latest_form_version other version⟩
  | ok done =>
      have opened : (openForm services formId world).2.device =
          (obtain services formId (discardDrafts formId world).2).2.device := by
        simp only [openForm, ended, device_show_blank]
      have repairs : Repairs formId world ↔
          (discardDrafts formId world).2.device.NeedsRepair formId := and_iff_right ended
      have renewal := renewal_of_obtain adds formId (discardDrafts formId world).2
      have stores := stores_of_obtain adds formId (discardDrafts formId world).2
      rw [opened, repairs, ← changes.forms]
      constructor
      · intro entry old
        exact renewal.mem_iff old
      · intro other version asked
        rw [← changes.latest_form_version other version]
        apply Device.latest_version_of_same_records stores.1 stores.2
        by_cases same : other = formId
        · rcases asked same with ⟨intact, known⟩
          unfold Table.select
          rw [renewal.rows_of_intact intact known]
        · apply renewal.select_others fun row => row.formId == other && row.version == version
          intro row wanted own
          apply same
          rw [← own]
          exact (beq_iff_eq.mp (Bool.and_eq_true_iff.mp wanted).1).symm

theorem closed_services_add_records : closedServices.OnlyAddsRecords where
  forms _ _ _ := ⟨[], nofun, (List.append_nil _).symm⟩
  lock _ _ _ := rfl
  outages _ _ _ := rfl

/-- A version of a form, added at this second. -/
def formVersion (version path : String) (seconds : Int) : Form where
  formId := "well"
  version := some version
  displayName := "well"
  path := path
  mediaPath := none
  autoSend := some true
  autoDelete := none
  added := .ofSeconds seconds

/-- Two versions of a form, of which the later one has lost its definition. -/
def staleWorld : World Unit where
  device :=
    { database :=
        { instances := .empty
          forms :=
            (Table.empty.insert (.ofForm (formVersion "1" "/forms/1.xml" 1))).insert
              (.ofForm (formVersion "2" "/forms/2.xml" 2)) }
      files := { nodes := [(["forms"], .directory true), (["forms", "1.xml"], .file [60])] } }
  far := ()

/-- A record is dropped although its definition lies on the disk all the while. -/
theorem intact_record_dropped_in_repair :
    ¬ ∀ (services : FormServices Unit) (formId : String) (world : World Unit),
      services.OnlyAddsRecords → ∀ entry ∈ world.device.database.forms.rows,
        world.device.files.isFile entry.2.path = true →
        (openForm services formId world).2.device.files.isFile entry.2.path = true →
        entry ∈ (openForm services formId world).2.device.database.forms.rows := by
  intro kept
  have still := kept closedServices "well" staleWorld closed_services_add_records
    (1, .ofForm (formVersion "1" "/forms/1.xml" 1)) (by decide +kernel) (by decide +kernel)
    (by decide +kernel)
  revert still
  decide +kernel

theorem stale_form_loses_both_records :
    Repairs "well" staleWorld ∧
      (1, FormRow.ofForm (formVersion "1" "/forms/1.xml" 1)) ∉
        (openForm closedServices "well" staleWorld).2.device.database.forms.rows ∧
      (openForm closedServices "pump" staleWorld).2.device.latestFormVersion "well" (some "1") =
        staleWorld.device.latestFormVersion "well" (some "1") := by
  have repairs : Repairs "well" staleWorld :=
    ⟨by decide +kernel, ⟨⟨{ formVersion "2" "/forms/2.xml" 2 with id := 2 }, by decide +kernel,
      by decide +kernel⟩, by decide +kernel⟩⟩
  have dropped := (records_dropped_only_in_repair closedServices closed_services_add_records
    "well" staleWorld).1 (1, .ofForm (formVersion "1" "/forms/1.xml" 1)) (by decide +kernel)
  have others := (records_dropped_only_in_repair closedServices closed_services_add_records
    "pump" staleWorld).2 "well" (some "1") (fun same => absurd same (by decide))
  exact ⟨repairs, fun member => dropped.mp member ⟨rfl, repairs⟩, others⟩

end Opening

end FieldPost
