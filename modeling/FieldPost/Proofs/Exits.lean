import FieldPost.Proofs.Isolation

/-!
The ways in which a run ends before anything is sent. Which of them it takes hangs on the storage,
the gate, the selection and the account, and on neither uploader. None of them changes anything,
and the user is told of one alone: that there were instances to send and no account to send them
with. What a run does that completes is not said.
-/

namespace FieldPost.Run

variable {σ : Type}

/-- There is something to send, and no account that may be used for it. -/
structure LacksAccount (around : Surroundings) (device : Device) (error : RunError) : Prop where
  settled : around.storage.migrating = false
  opens : gate around device = .ok .proceed
  waiting : ∃ first rest, Selection.instances around.settings device = .ok (first :: rest)
  refused : Route.account around.settings.protocol around.accounts = .error error

/-- An end without anything sent: its outcome, and what others see of it. -/
inductive Exit (around : Surroundings) (device : Device) : Outcome → List Event → Prop
  | moving (moves : around.storage.migrating = true) : Exit around device .skipped []
  | unanswered (error : StoreError) (settled : around.storage.migrating = false)
      (asked : gate around device = .error error) :
      Exit around device (.aborted (.store error)) []
  | unmounted (settled : around.storage.migrating = false)
      (stops : gate around device = .ok .stop) :
      Exit around device (.aborted .storageUnavailable) []
  | forbidden (settled : around.storage.migrating = false)
      (waits : gate around device = .ok .retry) :
      Exit around device (.aborted .networkMismatch) []
  | unselected (error : StoreError) (settled : around.storage.migrating = false)
      (opens : gate around device = .ok .proceed)
      (asked : Selection.instances around.settings device = .error error) :
      Exit around device (.aborted (.store error)) []
  | idle (settled : around.storage.migrating = false)
      (opens : gate around device = .ok .proceed)
      (none : Selection.instances around.settings device = .ok []) :
      Exit around device .skipped []
  | unrouted (error : RunError) (lacks : LacksAccount around device error) :
      Exit around device (.aborted error) [.noticed true error.userMessage]

/-- The world after an exit: nothing of it has changed, and others have seen this much more. -/
def informed (world : World σ) (told : List Event) : World σ :=
  { world with events := world.events ++ told }

theorem informed_nil (world : World σ) : informed world [] = world := by
  unfold informed
  rw [List.append_nil]

/-- A run past an open gate is left to the selection. -/
theorem execute_of_open {around : Surroundings} {world : World σ}
    (settled : around.storage.migrating = false) (opens : gate around world.device = .ok .proceed)
    (uploaders : Uploaders σ) :
    execute around uploaders world = proceed around uploaders world := by
  unfold execute
  rw [settled, if_neg Bool.false_ne_true, opens]

/-- With something to send and a way to send it a run completes. -/
theorem completed_of_way {around : Surroundings} {world : World σ} {first : Instance}
    {rest : List Instance} {account : Option String}
    (settled : around.storage.migrating = false) (opens : gate around world.device = .ok .proceed)
    (selected : Selection.instances around.settings world.device = .ok (first :: rest))
    (routed : Route.account around.settings.protocol around.accounts = .ok account)
    (uploaders : Uploaders σ) :
    ∃ summary, (execute around uploaders world).1 = .completed summary := by
  rw [execute_of_open settled opens]
  simp only [proceed, selected, dispatch, routed]
  cases account <;> exact ⟨_, rfl⟩

/-- A run takes one of the exits, or it completes. -/
theorem exit_or_completed (around : Surroundings) (uploaders : Uploaders σ) (world : World σ) :
    (∃ outcome told, Exit around world.device outcome told) ∨
      ∃ summary, (execute around uploaders world).1 = .completed summary := by
  cases moves : around.storage.migrating with
  | true => exact .inl ⟨_, _, .moving moves⟩
  | false =>
      cases passed : gate around world.device with
      | error error => exact .inl ⟨_, _, .unanswered error moves passed⟩
      | ok way =>
          cases way with
          | stop => exact .inl ⟨_, _, .unmounted moves passed⟩
          | retry => exact .inl ⟨_, _, .forbidden moves passed⟩
          | proceed =>
              cases selected : Selection.instances around.settings world.device with
              | error error => exact .inl ⟨_, _, .unselected error moves passed selected⟩
              | ok candidates =>
                  cases candidates with
                  | nil => exact .inl ⟨_, _, .idle moves passed selected⟩
                  | cons first rest =>
                      cases account : Route.account around.settings.protocol around.accounts with
                      | error error =>
                          exact .inl ⟨_, _, .unrouted error
                            ⟨moves, passed, ⟨first, rest, selected⟩, account⟩⟩
                      | ok picked =>
                          exact .inr (completed_of_way moves passed selected account uploaders)

/-- An exit that is open is taken, with whatever uploaders there are. -/
theorem execute_of_exit {around : Surroundings} {world : World σ} {outcome : Outcome}
    {told : List Event} (exit : Exit around world.device outcome told)
    (uploaders : Uploaders σ) :
    execute around uploaders world = (outcome, informed world told) := by
  cases exit with
  | moving moves =>
      unfold execute
      rw [moves, if_pos rfl, informed_nil]
  | unanswered error settled asked =>
      unfold execute
      rw [settled, if_neg Bool.false_ne_true, asked, informed_nil]
  | unmounted settled stops =>
      unfold execute
      rw [settled, if_neg Bool.false_ne_true, stops, informed_nil]
  | forbidden settled waits =>
      unfold execute
      rw [settled, if_neg Bool.false_ne_true, waits, informed_nil]
  | unselected error settled opens asked =>
      rw [execute_of_open settled opens, proceed, asked, informed_nil]
  | idle settled opens none =>
      rw [execute_of_open settled opens, proceed, none, informed_nil]
  | unrouted error lacks =>
      obtain ⟨first, rest, selected⟩ := lacks.waiting
      rw [execute_of_open lacks.settled lacks.opens, proceed, selected]
      dsimp only
      rw [dispatch, lacks.refused]
      rfl

namespace Exit

variable {around : Surroundings} {device : Device} {outcome : Outcome} {told : List Event}

/-- The user is told of a run that lacks an account, and of no other. -/
theorem told_cases (exit : Exit around device outcome told) :
    (∃ error, LacksAccount around device error ∧ outcome = .aborted error ∧
        told = [.noticed true error.userMessage]) ∨
      (∀ error, ¬ LacksAccount around device error) ∧ told = [] := by
  cases exit with
  | unrouted error lacks => exact .inl ⟨error, lacks, rfl, rfl⟩
  | moving moves => exact .inr ⟨fun _ lacks => (nomatch lacks.settled.symm.trans moves), rfl⟩
  | unanswered error settled asked =>
      exact .inr ⟨fun _ lacks => (nomatch lacks.opens.symm.trans asked), rfl⟩
  | unmounted settled stops =>
      exact .inr ⟨fun _ lacks => (nomatch lacks.opens.symm.trans stops), rfl⟩
  | forbidden settled waits =>
      exact .inr ⟨fun _ lacks => (nomatch lacks.opens.symm.trans waits), rfl⟩
  | unselected error settled opens asked =>
      refine .inr ⟨fun _ lacks => ?_, rfl⟩
      obtain ⟨first, rest, selected⟩ := lacks.waiting
      cases selected.symm.trans asked
  | idle settled opens none =>
      refine .inr ⟨fun _ lacks => ?_, rfl⟩
      obtain ⟨first, rest, selected⟩ := lacks.waiting
      cases selected.symm.trans none

/-- A lacking account is for the user to choose, not for another run to find. -/
theorem untold_of_retried (exit : Exit around device outcome told)
    (retried : outcome.isDone = false) : told = [] := by
  rcases exit.told_cases with ⟨error, lacks, aborted, _⟩ | ⟨_, none⟩
  · rw [aborted] at retried
    have refused := lacks.refused
    unfold Route.account at refused
    repeat' split at refused
    all_goals cases refused
    all_goals cases retried
  · exact none

end Exit

theorem is_done_eq_false_iff (outcome : Outcome) :
    outcome.isDone = false ↔
      outcome = .aborted .networkMismatch ∨ ∃ error, outcome = .aborted (.store error) := by
  cases outcome with
  | skipped => simp [Outcome.isDone]
  | completed summary => simp [Outcome.isDone]
  | aborted cause => cases cause <;> simp [Outcome.isDone, RunError.isRetryable]

/-- A run that does not complete leaves the device and the far side as they were. It asks nothing
of its uploaders, so with others it would have gone the same way. The user is told once, of the
failure, when an account was lacking for what there was to send, and else nobody is told anything.
A run that asks for another one has left no trace at all. -/
theorem unfinished_run_leaves_all_alone (around : Surroundings) (uploaders : Uploaders σ)
    (world : World σ) :
    ((∀ summary, (execute around uploaders world).1 ≠ .completed summary) →
      ∃ told, (execute around uploaders world).2 = informed world told ∧
        (∀ others, execute around others world = execute around uploaders world) ∧
        ((∃ error, LacksAccount around world.device error ∧
            (execute around uploaders world).1 = .aborted error ∧
            told = [.noticed true error.userMessage]) ∨
          (∀ error, ¬ LacksAccount around world.device error) ∧ told = [])) ∧
    ((execute around uploaders world).1.isDone = false ↔
      (execute around uploaders world).1 = .aborted .networkMismatch ∨
        ∃ error, (execute around uploaders world).1 = .aborted (.store error)) ∧
    ((execute around uploaders world).1.isDone = false →
      (execute around uploaders world).2 = world ∧
        ∀ others, execute around others world = execute around uploaders world) := by
  refine ⟨?_, is_done_eq_false_iff _, ?_⟩
  · intro unfinished
    rcases exit_or_completed around uploaders world with ⟨outcome, told, exit⟩ | ⟨summary, ended⟩
    · refine ⟨told, ?_, ?_, ?_⟩
      · rw [execute_of_exit exit uploaders]
      · intro others
        rw [execute_of_exit exit uploaders, execute_of_exit exit others]
      · rw [execute_of_exit exit uploaders]
        exact exit.told_cases
    · exact absurd ended (unfinished summary)
  · intro retried
    rcases exit_or_completed around uploaders world with ⟨outcome, told, exit⟩ | ⟨summary, ended⟩
    · rw [execute_of_exit exit uploaders] at retried
      have untold := exit.untold_of_retried retried
      rw [untold] at exit
      constructor
      · rw [execute_of_exit exit uploaders, informed_nil]
      · intro others
        rw [execute_of_exit exit uploaders, execute_of_exit exit others]
    · rw [ended] at retried
      cases retried

/-- The device of a rehearsal that is to fill a spreadsheet and may not use any account. -/
def accountless : Surroundings :=
  { rehearsedSurroundings with settings := { autoSend := .wifiOnly, protocol := .spreadsheet } }

theorem accountless_run_tells_once :
    (∀ summary, (execute accountless (Rehearsal.uploaders []) rehearsedWorld).1 ≠
      .completed summary) ∧
    (execute accountless (Rehearsal.uploaders []) rehearsedWorld).2 =
      informed rehearsedWorld [.noticed true RunError.permissionDenied.userMessage] := by
  have aborted : (execute accountless (Rehearsal.uploaders []) rehearsedWorld).1 =
      .aborted .permissionDenied := by decide +kernel
  have unfinished : ∀ summary,
      (execute accountless (Rehearsal.uploaders []) rehearsedWorld).1 ≠ .completed summary := by
    rw [aborted]
    simp
  refine ⟨unfinished, ?_⟩
  obtain ⟨told, after, _, told_cases⟩ :=
    (unfinished_run_leaves_all_alone accountless (Rehearsal.uploaders []) rehearsedWorld).1
      unfinished
  rcases told_cases with ⟨error, _, ended, rfl⟩ | ⟨_, rfl⟩
  · cases aborted.symm.trans ended
    exact after
  · have one : (execute accountless (Rehearsal.uploaders []) rehearsedWorld).2.events.length =
        1 := by decide +kernel
    rw [after] at one
    cases one

end FieldPost.Run
