import FieldPost.Proofs.OptedIn
import Mathlib.Data.List.Induction

/-!
The latest of the forms that a history left in the store. A form is live when it was inserted and
its identifier was not deleted after that; what comes and goes of instances does not touch it. As
long as forms were added in the years 0 to 9999, the latest form is found whatever the history was:
of the live ones asked for it is the one that was added last, going by time, and of those that were
added at one time the one inserted last. The store compares texts, and these are in the order of
time, with a fraction of a second or without and in leap seconds too.

For other years nothing is said; there the form that is found need not even be readable.
-/

namespace FieldPost

open FieldPost.Answers

namespace StoreChange

def insertsForm : StoreChange → Bool
  | .insertForm _ => true
  | _ => false

def formsInserted (history : List Timed) : Nat := history.countP fun timed => timed.2.insertsForm

/-- A form that was inserted and whose identifier was not deleted after that, with the number that
it got. -/
def Live (history : List Timed) (form : Form) : Prop :=
  ∃ early now given late, history = early ++ (now, .insertForm given) :: late ∧
    form = { given with id := formsInserted early + 1 } ∧
    ∀ timed ∈ late, timed.2 ≠ .deleteForms given.formId

theorem not_live_nil (form : Form) : ¬ Live [] form := by
  rintro ⟨early, now, given, late, split, _⟩
  exact List.append_ne_nil_of_right_ne_nil early (List.cons_ne_nil _ late) split.symm

/-- A change adds the form that it inserts, and takes away those that it deletes. -/
theorem live_append_iff (history : List Timed) (timed : Timed) (form : Form) :
    Live (history ++ [timed]) form ↔
      Live history form ∧ timed.2 ≠ .deleteForms form.formId ∨
        ∃ given, timed.2 = .insertForm given ∧
          form = { given with id := formsInserted history + 1 } := by
  constructor
  · rintro ⟨early, now, given, late, split, rfl, kept⟩
    -- The form was inserted by the last change, or by one before it.
    rcases List.eq_nil_or_concat late with rfl | ⟨others, last, rfl⟩
    · obtain ⟨rfl, same⟩ := List.append_inj' split rfl
      cases same
      exact .inr ⟨given, rfl, rfl⟩
    · rw [List.concat_eq_append, ← List.cons_append, ← List.append_assoc] at split
      obtain ⟨rfl, same⟩ := List.append_inj' split rfl
      cases same
      rw [List.concat_eq_append] at kept
      have before := fun other member => kept other (List.mem_append_left _ member)
      have last := kept timed (List.mem_append_right _ List.mem_cons_self)
      exact .inl ⟨⟨early, now, given, others, rfl, rfl, before⟩, last⟩
  · rintro (⟨⟨early, now, given, late, rfl, rfl, kept⟩, spared⟩ | ⟨given, inserted, rfl⟩)
    · refine ⟨early, now, given, late ++ [timed], by simp, rfl, ?_⟩
      intro other member
      rcases List.mem_append.mp member with before | last
      · exact kept other before
      · rw [List.mem_singleton.mp last]
        exact spared
    · refine ⟨history, timed.1, given, [], ?_, rfl, by simp⟩
      rw [← inserted]

theorem forms_inserted_append (history : List Timed) (timed : Timed) :
    formsInserted (history ++ [timed]) =
      formsInserted history + if timed.2.insertsForm then 1 else 0 := by
  unfold formsInserted
  rw [List.countP_append, List.countP_singleton]

/-- All forms that a history inserts were added in the years 0 to 9999. -/
def AddedInCommonYears (history : List Timed) : Prop :=
  ∀ timed ∈ history, ∀ form, timed.2 = .insertForm form → form.added.InFourDigitYears

theorem AddedInCommonYears.of_live {history : List Timed} (years : AddedInCommonYears history)
    {form : Form} (live : Live history form) : form.added.InFourDigitYears := by
  obtain ⟨early, now, given, late, rfl, rfl, _⟩ := live
  exact years (now, .insertForm given) (by simp) given rfl

end StoreChange

open StoreChange

namespace Device

theorem insert_instance_forms (device : Device) (filled : Instance) :
    (device.insertInstance filled).2.database.forms = device.database.forms ∧
      (device.insertInstance filled).2.database.lockPoisoned = device.database.lockPoisoned ∧
      (device.insertInstance filled).2.outages = device.outages := by
  rcases insert_instance_cases device filled with same | same <;> rw [same] <;>
    exact ⟨rfl, rfl, rfl⟩

/-- The table of forms has the rows of the live forms and no others. -/
structure KeepsLive (device : Device) (history : List Timed) : Prop where
  unlocked : device.database.lockPoisoned = false
  reachable : device.outages = []
  last : device.database.forms.lastId = formsInserted history
  rows : ∀ entry, entry ∈ device.database.forms.rows ↔
    ∃ form, Live history form ∧ entry = (form.id, FormRow.ofForm form)

theorem fresh_keeps_live (files : FileTree) (clock : Moment) :
    (fresh files clock).KeepsLive [] where
  unlocked := rfl
  reachable := rfl
  last := rfl
  rows entry := by
    refine iff_of_false (List.not_mem_nil) ?_
    rintro ⟨form, live, _⟩
    exact not_live_nil form live

namespace KeepsLive

variable {device : Device} {history : List Timed} (keeps : device.KeepsLive history)

include keeps

theorem insert_form (now : Moment) (given : Form) :
    (device.insertForm given).1 = .ok (formsInserted history + 1) ∧
      (device.insertForm given).2.KeepsLive (history ++ [(now, .insertForm given)]) := by
  have inserted : device.insertForm given = (.ok device.database.forms.nextId, { device with
      database := { device.database with
        forms := device.database.forms.insert (.ofForm given) } }) :=
    commit_taken keeps.reachable (Database.unlocked_then keeps.unlocked _)
  have next : device.database.forms.nextId = formsInserted history + 1 := by
    rw [Table.nextId, keeps.last]
  rw [inserted, next]
  refine ⟨rfl, keeps.unlocked, keeps.reachable, ?_, ?_⟩
  · rw [Table.lastId_insert, keeps.last, forms_inserted_append]
    rfl
  · intro entry
    rw [Table.rows_insert, List.mem_append, List.mem_singleton, keeps.rows, next]
    constructor
    · rintro (⟨form, live, same⟩ | same)
      · exact ⟨form, (live_append_iff _ _ _).mpr (.inl ⟨live, nofun⟩), same⟩
      · exact ⟨_, (live_append_iff _ _ _).mpr (.inr ⟨given, rfl, rfl⟩), same⟩
    · rintro ⟨form, live, same⟩
      rcases (live_append_iff _ _ _).mp live with ⟨before, _⟩ | ⟨other, insertion, rfl⟩
      · exact .inl ⟨form, before, same⟩
      · cases insertion
        exact .inr same

theorem delete_forms (now : Moment) (formId : String) :
    (device.deleteForms formId).2.KeepsLive (history ++ [(now, .deleteForms formId)]) := by
  have deleted : (device.deleteForms formId).2 = { device with
      database := { device.database with
        forms := device.database.forms.keep fun entry => entry.2.formId != formId } } :=
    congrArg Prod.snd (commit_taken keeps.reachable (Database.unlocked_then keeps.unlocked _))
  rw [deleted]
  refine ⟨keeps.unlocked, keeps.reachable, ?_, ?_⟩
  · rw [forms_inserted_append]
    exact keeps.last
  · intro entry
    have narrowed :
        entry ∈ (device.database.forms.keep fun entry => entry.2.formId != formId).rows ↔
          entry ∈ device.database.forms.rows ∧ entry.2.formId ≠ formId := by
      rw [← bne_iff_ne]
      exact List.mem_filter
    rw [narrowed, keeps.rows]
    constructor
    · rintro ⟨⟨form, live, rfl⟩, other⟩
      refine ⟨form, (live_append_iff _ _ _).mpr (.inl ⟨live, ?_⟩), rfl⟩
      intro deletion
      cases deletion
      exact other rfl
    · rintro ⟨form, live, rfl⟩
      rcases (live_append_iff _ _ _).mp live with ⟨before, spared⟩ | ⟨_, insertion, _⟩
      · refine ⟨⟨form, before, rfl⟩, ?_⟩
        rintro rfl
        exact spared rfl
      · cases insertion

/-- A change that only concerns instances leaves all forms where they are. -/
theorem of_instances {after : Device} {timed : Timed} (inserts : timed.2.insertsForm = false)
    (deletes : ∀ formId, timed.2 ≠ .deleteForms formId)
    (forms : after.database.forms = device.database.forms)
    (lock : after.database.lockPoisoned = device.database.lockPoisoned)
    (outages : after.outages = device.outages) : after.KeepsLive (history ++ [timed]) where
  unlocked := lock.trans keeps.unlocked
  reachable := outages.trans keeps.reachable
  last := by
    rw [forms, forms_inserted_append, inserts]
    exact keeps.last
  rows entry := by
    have same : ∀ form, Live (history ++ [timed]) form ↔ Live history form := by
      intro form
      rw [live_append_iff]
      constructor
      · rintro (⟨live, _⟩ | ⟨given, insertion, _⟩)
        · exact live
        · rw [insertion] at inserts
          cases inserts
      · intro live
        exact .inl ⟨live, deletes form.formId⟩
    simp only [same]
    rw [forms]
    exact keeps.rows entry

theorem perform_at (timed : Timed) : (performAt device timed).2.KeepsLive (history ++ [timed]) := by
  rcases timed with ⟨now, change⟩
  have ready : KeepsLive { device with clock := now } history :=
    ⟨keeps.unlocked, keeps.reachable, keeps.last, keeps.rows⟩
  cases change with
  | insertInstance filled =>
      have frame := insert_instance_forms { device with clock := now } filled
      exact ready.of_instances rfl nofun frame.1 frame.2.1 frame.2.2
  | updateStatus id status =>
      have changes := update_status_changes { device with clock := now } id status
      exact ready.of_instances rfl nofun changes.forms changes.lock changes.outages
  | deleteInstance id =>
      have changes := delete_instance_changes { device with clock := now } id
      exact ready.of_instances rfl nofun changes.forms changes.lock changes.outages
  | insertForm form => exact (ready.insert_form now form).2
  | deleteForms formId => exact ready.delete_forms now formId

end KeepsLive

theorem played_keeps_live (files : FileTree) (clock : Moment) (history : List Timed) :
    (play (.fresh files clock) history).KeepsLive history := by
  induction history using List.reverseRecOn with
  | nil => exact fresh_keeps_live files clock
  | append_singleton history timed induction =>
      unfold play
      rw [List.foldl_append]
      exact induction.perform_at timed

/-! ### What is found -/

theorem reach_of_reachable {α : Type} {device : Device} (reachable : device.outages = [])
    (call : StoreCall) (value : α) : device.reach call (.ok value) = .ok value := by
  apply (reach_eq_ok_iff _ _ _ _).mpr
  rw [reachable]
  exact ⟨rfl, rfl⟩

/-- Of the live forms that are wanted the one that was added last, and of those that were added at
one time the one that was inserted last. -/
def IsLatest (history : List Timed) (wanted : Form → Prop) (form : Form) : Prop :=
  (Live history form ∧ wanted form) ∧
    ∀ other, Live history other → wanted other →
      other = form ∨ other.added.before form.added = true ∨
        other.added = form.added ∧ other.id < form.id

/-- An answer that is the latest of the wanted forms as it was inserted, or none if there is none
of them. -/
structure FindsLatest (history : List Timed) (wanted : Form → Prop)
    (answer : Answer (Option Form)) : Prop where
  answered : ∃ found, answer = .ok found
  some_iff : ∀ form, answer = .ok (some form) ↔ IsLatest history wanted form
  none_iff : answer = .ok none ↔ ∀ form, Live history form → ¬ wanted form

section

variable {device : Device} {history : List Timed} (keeps : device.KeepsLive history)
  (years : AddedInCommonYears history)

include keeps

theorem mem_select_iff (wanted : FormRow → Bool) (entry : Int × FormRow) :
    entry ∈ device.database.forms.select wanted ↔
      ∃ form, (Live history form ∧ wanted (.ofForm form) = true) ∧
        entry = (form.id, FormRow.ofForm form) := by
  unfold Table.select
  rw [List.mem_filter, keeps.rows]
  constructor
  · rintro ⟨⟨form, live, rfl⟩, wants⟩
    exact ⟨form, ⟨live, wants⟩, rfl⟩
  · rintro ⟨form, ⟨live, wants⟩, rfl⟩
    exact ⟨⟨form, live, rfl⟩, wants⟩

include years

theorem newest_eq_some_iff (wanted : FormRow → Bool) (entry : Int × FormRow) :
    Database.newest (device.database.forms.select wanted) = some entry ↔
      ∃ form, IsLatest history (fun form => wanted (.ofForm form) = true) form ∧
        entry = (form.id, FormRow.ofForm form) := by
  have ascending : ((device.database.forms.select wanted).map (·.1)).Pairwise (· < ·) :=
    device.database.forms.ascending.sublist (List.filter_sublist.map _)
  rw [Database.newest_eq_topmost, topmost_eq_some_iff (Database.ranks_of_ids ascending)]
  simp only [mem_select_iff keeps]
  constructor
  · rintro ⟨⟨form, ⟨live, wants⟩, rfl⟩, highest⟩
    refine ⟨form, ⟨⟨live, wants⟩, ?_⟩, rfl⟩
    intro other other_live other_wants
    rcases highest _ ⟨other, ⟨other_live, other_wants⟩, rfl⟩ with same | above
    · exact .inl (FormRow.entry_injective (years.of_live other_live) (years.of_live live) same)
    · exact .inr ((FormRow.is_newer_iff (years.of_live live) (years.of_live other_live)).mp above)
  · rintro ⟨form, ⟨⟨live, wants⟩, last⟩, rfl⟩
    refine ⟨⟨form, ⟨live, wants⟩, rfl⟩, ?_⟩
    rintro _ ⟨other, ⟨other_live, other_wants⟩, rfl⟩
    rcases last other other_live other_wants with rfl | below
    · exact .inl rfl
    · exact .inr ((FormRow.is_newer_iff (years.of_live live) (years.of_live other_live)).mpr below)

theorem newest_form_finds_latest (call : StoreCall) (wanted : FormRow → Bool) :
    FindsLatest history (fun form => wanted (.ofForm form) = true)
      (device.reach call (device.database.newestForm wanted)) := by
  unfold Database.newestForm
  rw [Database.unlocked_then keeps.unlocked]
  cases newest : Database.newest (device.database.forms.select wanted) with
  | none =>
      have nothing : ∀ form, Live history form → ¬ wanted (.ofForm form) = true := by
        intro form live wants
        have selected := (mem_select_iff keeps wanted _).mpr ⟨form, ⟨live, wants⟩, rfl⟩
        rw [Database.newest_eq_topmost, topmost_eq_none_iff] at newest
        rw [newest] at selected
        cases selected
      dsimp only
      rw [reach_of_reachable keeps.reachable]
      refine ⟨⟨none, rfl⟩, ?_, iff_of_true rfl nothing⟩
      intro form
      refine iff_of_false nofun ?_
      rintro ⟨⟨live, wants⟩, _⟩
      exact nothing form live wants
  | some entry =>
      obtain ⟨form, latest, rfl⟩ := (newest_eq_some_iff keeps years wanted entry).mp newest
      have common := years.of_live latest.1.1
      dsimp only
      rw [FormRow.read_of_form common, Except.map, reach_of_reachable keeps.reachable]
      refine ⟨⟨some form, rfl⟩, ?_, iff_of_false nofun ?_⟩
      · intro other
        constructor
        · intro same
          cases same
          exact latest
        · intro other_latest
          have again := (newest_eq_some_iff keeps years wanted _).mpr ⟨other, other_latest, rfl⟩
          rw [newest] at again
          have other_common := years.of_live other_latest.1.1
          rw [FormRow.entry_injective common other_common (Option.some.inj again)]
      · intro nothing
        exact nothing form latest.1.1 latest.1.2

end

/-- A form that was added in a leap second. -/
def leapForm : Form :=
  { Run.recordedForm "well" 0 (some true) with
    added := ⟨1483228799, 1250000000, by omega, fun _ => rfl⟩ }

/-- Two more records of the form, both inserted after it: one was added a millisecond before the
leap second, the other, which has no version, right after it. Another form comes and goes. -/
def leapHistory : List Timed :=
  [(.ofSeconds 0, .insertForm leapForm),
    (.ofSeconds 0, .insertForm (Run.recordedForm "pump" 2000 none)),
    (.ofSeconds 0, .insertForm { Run.recordedForm "well" 1483228800 none with version := none }),
    (.ofSeconds 0, .insertForm
      { Run.recordedForm "well" 0 (some false) with
        added := ⟨1483228799, 999000000, by omega, fun _ => rfl⟩ }),
    (.ofSeconds 0, .deleteForms "pump")]

end Device

end FieldPost
