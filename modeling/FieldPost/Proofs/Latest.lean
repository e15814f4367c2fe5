import FieldPost.Opening
import Mathlib.Data.List.Nodup
import Mathlib.Data.String.Basic

/-!
The latest of what is stored. Both the latest draft of a form and its newest record are looked for
by going through a list from its end and keeping what comes out on top. Where what is listed is
ranked without ties that is the one entry above all others. Moments and texts of time are ranked by
their own order first and by identifiers then, so only entries with one identifier tie.
-/

namespace FieldPost

namespace Moment

theorem before_iff (left right : Moment) :
    left.before right = true ↔ left.seconds < right.seconds ∨
      left.seconds = right.seconds ∧ left.nanos < right.nanos := by
  unfold before
  rw [Bool.or_eq_true, Bool.and_eq_true, decide_eq_true_eq, decide_eq_true_eq, beq_iff_eq]

theorem before_trans {first second third : Moment} (early : first.before second = true)
    (late : second.before third = true) : first.before third = true := by
  rw [before_iff] at early late ⊢
  omega

theorem before_irrefl (moment : Moment) : moment.before moment = false := by
  rw [Bool.eq_false_iff, ne_eq, before_iff]
  omega

theorem before_total (left right : Moment) :
    left = right ∨ left.before right = true ∨ right.before left = true := by
  rw [before_iff, before_iff]
  have equal : left.seconds = right.seconds ∧ left.nanos = right.nanos → left = right := by
    cases left
    cases right
    rintro ⟨rfl, rfl⟩
    rfl
  by_cases same : left.seconds = right.seconds ∧ left.nanos = right.nanos
  · exact .inl (equal same)
  · omega

end Moment

/-! ### Coming out on top -/

section

variable {α : Type}

/-- What is kept when a list is gone through from its end, an entry being exchanged for one that is
above it. -/
def topmost (above : α → α → Bool) : List α → Option α
  | [] => none
  | entry :: rest =>
      match topmost above rest with
      | none => some entry
      | some found => some (if above entry found then entry else found)

/-- One of two different entries of the list is above the other. -/
structure Ranks (above : α → α → Bool) (entries : List α) : Prop where
  trans : ∀ high middle low,
    above high middle = true → above middle low = true → above high low = true
  irrefl : ∀ entry, above entry entry = false
  total : ∀ left ∈ entries, ∀ right ∈ entries,
    left = right ∨ above left right = true ∨ above right left = true

variable {above : α → α → Bool}

theorem topmost_cons (above : α → α → Bool) (entry : α) (rest : List α) :
    ∃ found, topmost above (entry :: rest) = some found := by
  unfold topmost
  cases topmost above rest <;> exact ⟨_, rfl⟩

theorem topmost_eq_none_iff (entries : List α) : topmost above entries = none ↔ entries = [] := by
  cases entries with
  | nil => exact ⟨fun _ => rfl, fun _ => rfl⟩
  | cons entry rest =>
      obtain ⟨found, kept⟩ := topmost_cons above entry rest
      simp [kept]

theorem Ranks.tail {entry : α} {rest : List α} (ranks : Ranks above (entry :: rest)) :
    Ranks above rest where
  trans := ranks.trans
  irrefl := ranks.irrefl
  total left left_member right right_member :=
    ranks.total left (List.mem_cons_of_mem _ left_member) right
      (List.mem_cons_of_mem _ right_member)

theorem topmost_above {entries : List α} (ranks : Ranks above entries) {found : α}
    (kept : topmost above entries = some found) :
    found ∈ entries ∧ ∀ other ∈ entries, other = found ∨ above found other = true := by
  induction entries generalizing found with
  | nil => cases kept
  | cons entry rest induction =>
      unfold topmost at kept
      cases later : topmost above rest with
      | none =>
          have alone := (topmost_eq_none_iff rest).mp later
          rw [later] at kept
          cases kept
          rw [alone]
          exact ⟨List.mem_singleton.mpr rfl, fun other member => .inl (List.mem_singleton.mp member)⟩
      | some best =>
          obtain ⟨inside, highest⟩ := induction ranks.tail later
          simp only [later, Option.some.injEq] at kept
          split at kept
          · rename_i higher
            cases kept
            refine ⟨List.mem_cons_self, ?_⟩
            intro other member
            rcases List.mem_cons.mp member with same | behind
            · exact .inl same
            · right
              rcases highest other behind with rfl | below
              · exact higher
              · exact ranks.trans _ _ _ higher below
          · rename_i lower
            cases kept
            refine ⟨List.mem_cons_of_mem _ inside, ?_⟩
            intro other member
            rcases List.mem_cons.mp member with rfl | behind
            · rcases ranks.total other List.mem_cons_self _ (List.mem_cons_of_mem _ inside) with
                same | higher | below
              · exact .inl same
              · exact absurd higher lower
              · exact .inr below
            · exact highest other behind

/-- Where there are no ties, what comes out on top is the entry above all others. -/
theorem topmost_eq_some_iff {entries : List α} (ranks : Ranks above entries) (found : α) :
    topmost above entries = some found ↔
      found ∈ entries ∧ ∀ other ∈ entries, other = found ∨ above found other = true := by
  constructor
  · exact topmost_above ranks
  · rintro ⟨member, highest⟩
    cases kept : topmost above entries with
    | none =>
        rw [(topmost_eq_none_iff entries).mp kept] at member
        cases member
    | some best =>
        obtain ⟨inside, others⟩ := topmost_above ranks kept
        rcases highest best inside with same | below
        · rw [same]
        · rcases others found member with same | above
          · rw [same]
          · have itself := ranks.trans _ _ _ below above
            rw [ranks.irrefl] at itself
            cases itself

/-- Entries are ranked by their times, and by their keys where the times are the same. -/
theorem ranks_of_ascending {τ : Type} (earlier : τ → τ → Prop) (time : α → τ) (key : α → Int)
    (trans : ∀ first second third, earlier first second → earlier second third →
      earlier first third)
    (irrefl : ∀ time, ¬ earlier time time)
    (total : ∀ left right, left = right ∨ earlier left right ∨ earlier right left)
    (compare : ∀ left right, above left right = true ↔ earlier (time right) (time left) ∨
      time right = time left ∧ key right < key left)
    {entries : List α} (ascending : (entries.map key).Pairwise (· < ·)) :
    Ranks above entries where
  trans high middle low first second := by
    rw [compare] at first second ⊢
    rcases first with later | ⟨same, greater⟩ <;> rcases second with before | ⟨equal, smaller⟩
    · exact .inl (trans _ _ _ before later)
    · exact .inl (equal ▸ later)
    · exact .inl (same ▸ before)
    · exact .inr ⟨equal.trans same, Int.lt_trans smaller greater⟩
  irrefl entry := by
    rw [Bool.eq_false_iff, ne_eq, compare]
    rintro (before | ⟨_, less⟩)
    · exact irrefl _ before
    · exact Int.lt_irrefl _ less
  total left left_member right right_member := by
    rw [compare, compare]
    have distinct : (entries.map key).Nodup := ascending.imp Int.ne_of_lt
    rcases total (time left) (time right) with same | before | after
    · rcases Int.lt_trichotomy (key left) (key right) with less | equal | greater
      · exact .inr (.inr (.inr ⟨same, less⟩))
      · exact .inl (List.inj_on_of_nodup_map distinct left_member right_member equal)
      · exact .inr (.inl (.inr ⟨same.symm, greater⟩))
    · exact .inr (.inr (.inl before))
    · exact .inr (.inl (.inl after))

end

/-! ### Drafts and records -/

namespace Opening

theorem latest_eq_topmost (listed : List Instance) : latest listed = topmost isLater listed := by
  induction listed with
  | nil => rfl
  | cons filled rest induction =>
      unfold latest topmost
      rw [induction]
      cases topmost isLater rest <;> rfl

theorem is_later_iff (left right : Instance) :
    isLater left right = true ↔ right.changed.before left.changed = true ∨
      right.changed = left.changed ∧ right.id < left.id := by
  unfold isLater
  rw [Bool.or_eq_true, Bool.and_eq_true, beq_iff_eq, decide_eq_true_eq]

theorem ranks_of_ids {listed : List Instance}
    (ascending : (listed.map (·.id)).Pairwise (· < ·)) : Ranks isLater listed := by
  apply ranks_of_ascending (fun left right : Moment => left.before right = true) (·.changed)
    (·.id) _ _ Moment.before_total is_later_iff ascending
  · intro first second third
    exact Moment.before_trans
  · intro moment
    rw [Moment.before_irrefl]
    exact Bool.false_ne_true

end Opening

namespace Database

theorem newest_eq_topmost (entries : List (Int × FormRow)) :
    newest entries = topmost isNewer entries := by
  induction entries with
  | nil => rfl
  | cons entry rest induction =>
      unfold newest topmost
      rw [induction]
      cases topmost isNewer rest <;> rfl

theorem is_newer_iff (left right : Int × FormRow) :
    isNewer left right = true ↔ right.2.added < left.2.added ∨
      right.2.added = left.2.added ∧ right.1 < left.1 := by
  unfold isNewer
  rw [Bool.or_eq_true, Bool.and_eq_true, beq_iff_eq, decide_eq_true_eq, decide_eq_true_eq]

theorem ranks_of_ids {entries : List (Int × FormRow)}
    (ascending : (entries.map (·.1)).Pairwise (· < ·)) : Ranks isNewer entries := by
  apply ranks_of_ascending (fun left right : String => left < right) (·.2.added) (·.1)
    (fun _ _ _ => String.lt_trans) String.lt_irrefl _ is_newer_iff ascending
  intro left right
  rcases lt_trichotomy left right with less | same | greater
  · exact .inr (.inl less)
  · exact .inl same
  · exact .inr (.inr greater)

end Database

end FieldPost
