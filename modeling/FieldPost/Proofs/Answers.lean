import Mathlib.Data.List.Forall2

/-!
Answers that may be errors instead. An answer made of others is there exactly when all of those
are, and its error is one of theirs.
-/

namespace FieldPost.Answers

variable {ε δ α β : Type}

theorem bind_eq_ok_iff (answer : Except ε α) (next : α → Except ε β) (result : β) :
    (answer >>= next) = .ok result ↔ ∃ value, answer = .ok value ∧ next value = .ok result := by
  cases answer <;> simp [bind, Except.bind]

theorem map_eq_ok_iff (answer : Except ε α) (change : α → β) (result : β) :
    answer.map change = .ok result ↔ ∃ value, answer = .ok value ∧ change value = result := by
  cases answer <;> simp [Except.map]

theorem map_eq_error_iff (answer : Except ε α) (change : α → β) (error : ε) :
    answer.map change = .error error ↔ answer = .error error := by
  cases answer <;> simp [Except.map]

theorem map_error_eq_ok_iff (answer : Except ε α) (change : ε → δ) (result : α) :
    answer.mapError change = .ok result ↔ answer = .ok result := by
  cases answer <;> simp [Except.mapError]

theorem eq_ok_of_to_option {answer : Except ε α} {value : α}
    (found : answer.toOption = some value) : answer = .ok value := by
  rcases answer with error | read
  · cases found
  · exact congrArg Except.ok (Option.some.inj found)

/-- A list is answered entry by entry. -/
theorem mapM_eq_ok_iff (ask : α → Except ε β) (entries : List α) (results : List β) :
    entries.mapM ask = .ok results ↔
      List.Forall₂ (fun entry result => ask entry = .ok result) entries results := by
  induction entries generalizing results with
  | nil => cases results <;> simp [pure, Except.pure]
  | cons entry rest induction =>
      rw [List.mapM_cons, bind_eq_ok_iff]
      constructor
      · rintro ⟨first, answered, remaining⟩
        rcases (bind_eq_ok_iff _ _ _).mp remaining with ⟨others, all, same⟩
        cases same
        exact .cons answered ((induction others).mp all)
      · intro each
        cases each with
        | cons answered others =>
            refine ⟨_, answered, (bind_eq_ok_iff _ _ _).mpr ?_⟩
            exact ⟨_, (induction _).mpr others, rfl⟩

theorem answer_of_mem {ask : α → Except ε β} {entries : List α} {results : List β} {entry : α}
    (answered : entries.mapM ask = .ok results) (member : entry ∈ entries) :
    ∃ result, ask entry = .ok result := by
  have each := (mapM_eq_ok_iff ask entries results).mp answered
  clear answered
  induction each with
  | nil => cases member
  | cons first _ induction =>
      rcases List.mem_cons.mp member with rfl | later
      · exact ⟨_, first⟩
      · exact induction later

/-- The results are the answers of the entries and nothing else. -/
theorem mem_answers_iff {ask : α → Except ε β} {entries : List α} {results : List β}
    (answered : entries.mapM ask = .ok results) (result : β) :
    result ∈ results ↔ ∃ entry ∈ entries, ask entry = .ok result := by
  have each := (mapM_eq_ok_iff ask entries results).mp answered
  clear answered
  induction each with
  | nil => simp
  | cons first _ induction => simp [induction, first, eq_comm]

theorem mapM_answered_iff (ask : α → Except ε β) (entries : List α) :
    (∃ results, entries.mapM ask = .ok results) ↔
      ∀ entry ∈ entries, ∃ result, ask entry = .ok result := by
  constructor
  · rintro ⟨results, answered⟩ entry member
    exact answer_of_mem answered member
  · intro each
    induction entries with
    | nil => exact ⟨[], rfl⟩
    | cons entry rest induction =>
        obtain ⟨first, answered⟩ := each entry List.mem_cons_self
        obtain ⟨others, all⟩ := induction fun other member =>
          each other (List.mem_cons_of_mem _ member)
        refine ⟨first :: others, (mapM_eq_ok_iff _ _ _).mpr ?_⟩
        exact .cons answered ((mapM_eq_ok_iff _ _ _).mp all)

/-! ### Errors -/

/-- If this is an error, then one of these. -/
def FailsOnly (expected : ε → Prop) (answer : Except ε α) : Prop :=
  ∀ error, answer = .error error → expected error

theorem fails_only_of_ok (expected : ε → Prop) (value : α) :
    FailsOnly expected (.ok value : Except ε α) := by
  intro error failed
  cases failed

theorem fails_only_error_iff (expected : ε → Prop) (error : ε) :
    FailsOnly expected (.error error : Except ε α) ↔ expected error := by
  constructor
  · intro only
    exact only error rfl
  · intro known other failed
    cases failed
    exact known

section

variable {expected : ε → Prop}

theorem FailsOnly.bind {answer : Except ε α} {next : α → Except ε β}
    (first : FailsOnly expected answer) (second : ∀ value, FailsOnly expected (next value)) :
    FailsOnly expected (answer >>= next) := by
  cases answer with
  | error error => exact (fails_only_error_iff expected error).mpr (first error rfl)
  | ok value => exact second value

theorem FailsOnly.map {answer : Except ε α} (only : FailsOnly expected answer)
    (change : α → β) : FailsOnly expected (answer.map change) := by
  cases answer with
  | error error => exact (fails_only_error_iff expected error).mpr (only error rfl)
  | ok value => exact fails_only_of_ok expected (change value)

theorem FailsOnly.mapM {ask : α → Except ε β} (each : ∀ entry, FailsOnly expected (ask entry))
    (entries : List α) : FailsOnly expected (entries.mapM ask) := by
  induction entries with
  | nil => exact fails_only_of_ok expected []
  | cons entry rest induction =>
      rw [List.mapM_cons]
      apply (each entry).bind
      intro first
      apply induction.bind
      intro others
      exact fails_only_of_ok expected (first :: others)

end

end FieldPost.Answers
