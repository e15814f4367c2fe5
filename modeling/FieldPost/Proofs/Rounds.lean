import FieldPost.Scheduler.Loop
import Mathlib.Data.List.Induction

/-!
When the loop of a scheduler starts a run, read off the history of what it heard. The flag for
another try is always the opposite of what the last run said, so a run starts on every trigger
that is heard, and on a tick exactly when the last run was not done; after a stop none starts.
A scheduler that has each run done at once comes to the same results.

How long a run or an interval takes is not said, nor in which order signals that are ready at
the same time are heard.
-/

namespace FieldPost.Scheduler

/-- What the runs said that have ended, in their order. -/
def endings (history : List Event) : List Bool :=
  history.filterMap fun
    | .finished done => some done
    | .heard _ => none

def signals (history : List Event) : List Signal :=
  history.filterMap fun
    | .heard signal => some signal
    | .finished _ => none

/-- Whether the last run that has ended asked to be tried again. -/
def retryAsked (history : List Event) : Bool :=
  !((endings history).getLast?.getD true)

/-- Whether there was a stop, before the start or since. -/
def stoppedBy (atStart : Bool) (history : List Event) : Bool :=
  atStart || history.contains (.heard .stop)

/-- Whether a run is due at an event, as told by what was heard before it. -/
def callsForRun (atStart : Bool) (history : List Event) : Event → Bool
  | .heard .trigger => !stoppedBy atStart history
  | .heard .tick => retryAsked history && !stoppedBy atStart history
  | .heard .missed => false
  | .heard .stop => false
  | .finished _ => false

section histories

variable (atStart : Bool) (history later : List Event)

@[simp] theorem endings_heard (signal : Signal) :
    endings (history ++ [.heard signal]) = endings history := by
  simp [endings]

@[simp] theorem endings_finished (done : Bool) :
    endings (history ++ [.finished done]) = endings history ++ [done] := by
  simp [endings]

@[simp] theorem signals_heard (signal : Signal) :
    signals (history ++ [.heard signal]) = signals history ++ [signal] := by
  simp [signals]

@[simp] theorem signals_finished (done : Bool) :
    signals (history ++ [.finished done]) = signals history := by
  simp [signals]

@[simp] theorem retry_asked_heard (signal : Signal) :
    retryAsked (history ++ [.heard signal]) = retryAsked history := by
  rw [retryAsked, endings_heard, retryAsked]

@[simp] theorem retry_asked_finished (done : Bool) :
    retryAsked (history ++ [.finished done]) = !done := by
  simp [retryAsked]

theorem stopped_by_append :
    stoppedBy atStart (history ++ later) =
      (stoppedBy atStart history || later.contains (.heard .stop)) := by
  rw [stoppedBy, stoppedBy, List.contains_append, Bool.or_assoc]

@[simp] theorem stopped_by_heard (signal : Signal) :
    stoppedBy atStart (history ++ [.heard signal]) =
      (stoppedBy atStart history || signal == .stop) := by
  rw [stopped_by_append]
  cases signal <;> rfl

@[simp] theorem stopped_by_finished (done : Bool) :
    stoppedBy atStart (history ++ [.finished done]) = stoppedBy atStart history := by
  simp [stopped_by_append]

end histories

/-- Without a run that asks for it there is no other try after a run that was done. -/
theorem retry_asked_append_of_done {history later : List Event}
    (done : (endings history).getLast? = some true) (noneAsks : .finished false ∉ later) :
    retryAsked (history ++ later) = false := by
  have allDone : ∀ result ∈ endings later, result = true := by
    intro result found
    rcases List.mem_filterMap.1 found with ⟨event, member, ends⟩
    cases event with
    | heard signal => cases ends
    | finished said =>
      cases said with
      | false => exact absurd member noneAsks
      | true => exact (Option.some.inj ends).symm
  rw [retryAsked, endings, List.filterMap_append, List.getLast?_append]
  rw [← endings, ← endings, done]
  cases last : (endings later).getLast? with
  | none => rfl
  | some result =>
    have isDone := allDone result (List.mem_of_getLast? last)
    rw [isDone]
    rfl

namespace Loop

theorem play_append (loop : Loop) (history later : List Event) :
    loop.play? (history ++ later) = (loop.play? history).bind fun next => next.play? later :=
  List.foldlM_append

theorem play_concat_eq_some {loop final : Loop} {history : List Event} {event : Event} :
    loop.play? (history ++ [event]) = some final ↔
      ∃ next, loop.play? history = some next ∧ next.take? event = some final := by
  rw [play_append, Option.bind_eq_some_iff]
  simp [play?]

/-- What one event keeps, every history keeps. -/
theorem play_induction {motive : List Event → Loop → Prop} {first : Loop} (start : motive [] first)
    (step : ∀ history loop event next, motive history loop → loop.take? event = some next →
      motive (history ++ [event]) next)
    {history : List Event} {loop : Loop} (played : first.play? history = some loop) :
    motive history loop := by
  induction history using List.reverseRecOn generalizing loop with
  | nil =>
    cases played
    exact start
  | append_singleton history event hypothesis =>
    rcases play_concat_eq_some.1 played with ⟨before, playedBefore, taken⟩
    exact step history before event loop (hypothesis playedBefore) taken

/-- All that an event can do. -/
inductive Takes (loop : Loop) : Event → Loop → Prop
  | stop : Takes loop (.heard .stop) { loop with scheduler := loop.scheduler.halt .stop }
  | missed (waits : loop.phase = .waiting true) :
      Takes loop (.heard .missed) { loop with phase := .waiting false }
  | answer {signal : Signal} {listening : Bool} (waits : loop.phase = .waiting listening)
      (kind : signal = .tick ∨ signal = .trigger) :
      Takes loop (.heard signal) (loop.answer signal)
  | finish {done : Bool} (isRunning : loop.phase = .running) :
      Takes loop (.finished done) (loop.finish done)

theorem takes_of_take {loop next : Loop} {event : Event} (taken : loop.take? event = some next) :
    Takes loop event next := by
  rw [take?.eq_def] at taken
  split at taken
  · cases taken
    exact .stop
  · rename_i listening waits
    cases taken
    exact .answer waits (.inl rfl)
  · rename_i waits
    cases taken
    exact .answer waits (.inr rfl)
  · rename_i waits
    cases taken
    exact .missed waits
  · rename_i isRunning
    cases taken
    exact .finish isRunning
  · cases taken

/-- How many runs were started. -/
def runs (loop : Loop) : Nat :=
  loop.results.length + if loop.phase = .running then 1 else 0

/-- What the loop shows of the history that led to it. -/
structure Follows (atStart : Bool) (history : List Event) (loop : Loop) : Prop where
  scheduler : loop.scheduler = ⟨retryAsked history, stoppedBy atStart history⟩
  results : loop.results = endings history
  ends_stopped : loop.phase = .ended → stoppedBy atStart history = true

theorem rest_eq_ended_iff (scheduler : Scheduler) :
    scheduler.rest = .ended ↔ scheduler.stopped = true := by
  cases stopped : scheduler.stopped <;> simp [rest, stopped]

theorem rest_ne_running (scheduler : Scheduler) : scheduler.rest ≠ .running := by
  cases stopped : scheduler.stopped <;> simp [rest, stopped]

theorem Follows.start (atStart : Bool) :
    Follows atStart [] (Loop.start { stopped := atStart }) where
  scheduler := by simp [Loop.start, retryAsked, endings, stoppedBy]
  results := rfl
  ends_stopped ended := by
    have stopped := (rest_eq_ended_iff _).1 ended
    simpa [stoppedBy] using stopped

theorem Follows.take {atStart : Bool} {history : List Event} {loop next : Loop} {event : Event}
    (follows : Follows atStart history loop) (taken : loop.take? event = some next) :
    Follows atStart (history ++ [event]) next := by
  have scheduler := follows.scheduler
  cases takes_of_take taken with
  | stop =>
    constructor
    · simp [scheduler, halt]
    · simp [follows.results]
    · intro _
      simp
  | missed waits =>
    constructor
    · simp [scheduler]
    · simp [follows.results]
    · intro ended
      cases ended
  | @answer signal listening waits kind =>
    have notStop : (signal == .stop) = false := by
      rcases kind with rfl | rfl <;> rfl
    constructor
    · simp [answer, scheduler, notStop]
    · simp [answer, follows.results]
    · intro ended
      rw [stopped_by_heard, notStop, Bool.or_false]
      have atRest : loop.scheduler.rest = .ended := by
        by_cases starts : loop.scheduler.starts signal = true
        · simp [answer, starts] at ended
        · simpa [answer, starts] using ended
      have stopped := (rest_eq_ended_iff _).1 atRest
      rwa [scheduler] at stopped
  | finish isRunning =>
    constructor
    · simp [finish, Scheduler.finish, scheduler]
    · simp [finish, follows.results]
    · intro ended
      have stopped := (rest_eq_ended_iff _).1 ended
      simpa [Scheduler.finish, scheduler] using stopped

theorem follows_of_play {atStart : Bool} {history : List Event} {loop : Loop}
    (played : (Loop.start { stopped := atStart }).play? history = some loop) :
    Follows atStart history loop :=
  play_induction (Follows.start atStart)
    (fun _ _ _ _ follows taken => follows.take taken) played

/-- An event starts one run or none, and which of the two is read off the history. -/
theorem Follows.runs_take {atStart : Bool} {history : List Event} {loop next : Loop} {event : Event}
    (follows : Follows atStart history loop) (taken : loop.take? event = some next) :
    next.runs = loop.runs + (if callsForRun atStart history event then 1 else 0) ∧
      (callsForRun atStart history event = true → next.phase = .running) := by
  cases takes_of_take taken with
  | stop => simp [runs, callsForRun]
  | missed waits => simp [runs, callsForRun, waits]
  | @answer signal listening waits kind =>
    have called : callsForRun atStart history (.heard signal) = loop.scheduler.starts signal := by
      rw [follows.scheduler]
      rcases kind with rfl | rfl <;> rfl
    rw [called]
    cases starts : loop.scheduler.starts signal with
    | true => simp [runs, answer, starts, waits]
    | false => simp [runs, answer, starts, waits, rest_ne_running]
  | finish isRunning => simp [runs, finish, isRunning, callsForRun, rest_ne_running]

/-- Once it is stopped, the loop starts nothing any more. -/
theorem Follows.runs_play_of_stopped {atStart : Bool} {history later : List Event}
    {loop final : Loop} (follows : Follows atStart history loop)
    (stopped : stoppedBy atStart history = true) (played : loop.play? later = some final) :
    Follows atStart (history ++ later) final ∧ final.runs = loop.runs := by
  refine play_induction (motive := fun later final =>
    Follows atStart (history ++ later) final ∧ final.runs = loop.runs) ?_ ?_ played
  · exact ⟨by simpa using follows, rfl⟩
  · rintro later before event next ⟨followsBefore, sameRuns⟩ taken
    have stillStopped : stoppedBy atStart (history ++ later) = true := by
      rw [stopped_by_append, stopped, Bool.true_or]
    have notCalled : callsForRun atStart (history ++ later) event = false := by
      rcases event with (_ | _ | _ | _) | _ <;> simp [callsForRun, stillStopped]
    have taking := (followsBefore.runs_take taken).1
    rw [notCalled] at taking
    rw [← List.append_assoc]
    exact ⟨followsBefore.take taken, taking.trans sameRuns⟩

/-- The events that can come where the loop stands. -/
theorem exists_take (loop : Loop) :
    (∃ next, loop.take? (.heard .stop) = some next) ∧
      (∀ listening, loop.phase = .waiting listening →
        ∃ next, loop.take? (.heard .tick) = some next) ∧
      (loop.phase = .waiting true → ∀ signal, ∃ next, loop.take? (.heard signal) = some next) ∧
      (loop.phase = .running → ∀ done, ∃ next, loop.take? (.finished done) = some next) := by
  refine ⟨⟨_, rfl⟩, ?_, ?_, ?_⟩
  · intro listening waits
    simp [take?, waits]
  · intro waits signal
    cases signal <;> simp [take?, waits]
  · intro isRunning done
    simp [take?, isRunning]

end Loop

/-- The next result that a script has ready. -/
def scripted (script : List Bool) : Bool × List Bool := (script.headD true, script.tail)

/-- The scheduler that has its runs done at once, and says of each what the script has next. -/
def replayed (atStart : Bool) (history : List Event) (script : List Bool) : State (List Bool) :=
  runAll scripted { scheduler := { stopped := atStart }, world := script } (signals history)

@[simp] theorem replayed_heard (atStart : Bool) (history : List Event) (signal : Signal)
    (script : List Bool) :
    replayed atStart (history ++ [.heard signal]) script =
      step scripted (replayed atStart history script) signal := by
  simp [replayed, runAll]

@[simp] theorem replayed_finished (atStart : Bool) (history : List Event) (done : Bool)
    (script : List Bool) :
    replayed atStart (history ++ [.finished done]) script = replayed atStart history script := by
  simp [replayed]

/-- A run that still goes on in the loop has ended already in what is replayed. -/
structure Agrees (atStart : Bool) (history : List Event) (loop : Loop) : Prop where
  between : loop.phase ≠ .running → ∀ script,
    replayed atStart history (endings history ++ script) =
      { scheduler := loop.scheduler, world := script, results := loop.results }
  during : loop.phase = .running → ∀ done script,
    replayed atStart history (endings history ++ done :: script) =
      { scheduler := loop.scheduler.finish done
        world := script
        results := loop.results ++ [done] }

theorem Agrees.start (atStart : Bool) : Agrees atStart [] (Loop.start { stopped := atStart }) where
  between _ _ := rfl
  during isRunning := absurd isRunning (Loop.rest_ne_running _)

theorem Agrees.take {atStart : Bool} {history : List Event} {loop next : Loop} {event : Event}
    (agrees : Agrees atStart history loop) (taken : loop.take? event = some next) :
    Agrees atStart (history ++ [event]) next := by
  cases Loop.takes_of_take taken with
  | stop =>
    constructor
    · intro between script
      rw [endings_heard, replayed_heard, agrees.between between]
      simp [step, starts]
    · intro isRunning done script
      rw [endings_heard, replayed_heard, agrees.during isRunning]
      simp [step, starts, halt, Scheduler.finish]
  | missed waits =>
    have between : loop.phase ≠ .running := by simp [waits]
    constructor
    · intro _ script
      rw [endings_heard, replayed_heard, agrees.between between]
      simp [step, starts, halt]
    · intro isRunning
      cases isRunning
  | @answer signal listening waits kind =>
    have between : loop.phase ≠ .running := by simp [waits]
    have notStop : signal ≠ .stop := by
      rcases kind with rfl | rfl <;> decide
    constructor
    · intro isOver script
      have notStarted : loop.scheduler.starts signal = false := by
        by_contra started
        simp [Loop.answer, started] at isOver
      rw [endings_heard, replayed_heard, agrees.between between]
      simp [step, notStarted, halt, notStop, Loop.answer]
    · intro isRunning done script
      have started : loop.scheduler.starts signal = true := by
        by_contra notStarted
        simp [Loop.answer, notStarted, Loop.rest_ne_running] at isRunning
      rw [endings_heard, replayed_heard, agrees.between between]
      simp [step, started, scripted, Loop.answer]
  | finish isRunning =>
    constructor
    · intro _ script
      rw [endings_finished, replayed_finished, List.append_assoc, List.singleton_append,
        agrees.during isRunning]
      rfl
    · intro stillRunning
      exact absurd stillRunning (Loop.rest_ne_running _)

theorem agrees_of_play {atStart : Bool} {history : List Event} {loop : Loop}
    (played : (Loop.start { stopped := atStart }).play? history = some loop) :
    Agrees atStart history loop :=
  Loop.play_induction (Agrees.start atStart)
    (fun _ _ _ _ agrees taken => agrees.take taken) played

/-- Runs start on the triggers that are heard before a stop, one for each, and on the ticks before
it that follow a run which was not done. -/
theorem runs_follow_signals {atStart : Bool} {history : List Event} {loop : Loop}
    (played : (Loop.start { stopped := atStart }).play? history = some loop) :
    loop.results = endings history ∧
      (∀ listening, loop.phase = .waiting listening →
        loop.scheduler.retryPending = !((endings history).getLast?.getD true)) ∧
      (∀ event next, loop.take? event = some next →
        next.runs = loop.runs + (if callsForRun atStart history event then 1 else 0) ∧
          (callsForRun atStart history event = true → next.phase = .running)) ∧
      ((endings history).getLast? = some true → ∀ later, .finished false ∉ later →
        ∀ between final, loop.play? later = some between →
          between.take? (.heard .tick) = some final → final.runs = between.runs) ∧
      (stoppedBy atStart history = true →
        ∀ later final, loop.play? later = some final → final.runs = loop.runs) ∧
      ((∃ next, loop.take? (.heard .stop) = some next) ∧
        (∀ listening, loop.phase = .waiting listening →
          ∃ next, loop.take? (.heard .tick) = some next) ∧
        (loop.phase = .waiting true → ∀ signal, ∃ next, loop.take? (.heard signal) = some next) ∧
        (loop.phase = .running → ∀ done, ∃ next, loop.take? (.finished done) = some next) ∧
        (loop.phase = .ended → stoppedBy atStart history = true)) ∧
      (loop.phase ≠ .running → replayed atStart history (endings history) =
        { scheduler := loop.scheduler, world := [], results := endings history }) := by
  have follows := Loop.follows_of_play played
  have agrees := agrees_of_play played
  have comes := loop.exists_take
  refine ⟨follows.results, ?_, ?_, ?_, ?_, ?_, ?_⟩
  · intro _ _
    rw [follows.scheduler]
    rfl
  · intro event next taken
    exact follows.runs_take taken
  · intro done later noneAsks between final playedLater taken
    have playedAll : (Loop.start { stopped := atStart }).play? (history ++ later) = some between := by
      rw [Loop.play_append, played]
      exact playedLater
    have notAsked := retry_asked_append_of_done done noneAsks
    have taking := ((Loop.follows_of_play playedAll).runs_take taken).1
    simpa [callsForRun, notAsked] using taking
  · intro stopped later final playedLater
    exact (follows.runs_play_of_stopped stopped playedLater).2
  · exact ⟨comes.1, comes.2.1, comes.2.2.1, comes.2.2.2, follows.ends_stopped⟩
  · intro between
    have replayedAll := agrees.between between []
    rwa [List.append_nil, follows.results] at replayedAll

/-- A run that is not done, a trigger that is missed, and the tick that tries again. -/
def retriedOnce : List Event :=
  [.heard .trigger, .finished false, .heard .missed, .heard .tick, .finished true]

def quiet (stopped : Bool) : Loop :=
  { scheduler := { stopped }, phase := .waiting true, results := [false, true] }

theorem quiet_after_retried_once :
    (Loop.start {}).play? retriedOnce = some (quiet false) ∧
      (∀ next, (quiet false).take? (.heard .tick) = some next → next.runs = 2) ∧
      (∀ next, (quiet false).take? (.heard .trigger) = some next →
        next.runs = 3 ∧ next.phase = .running) ∧
      (Loop.start {}).play? (retriedOnce ++ [.heard .stop]) = some (quiet true) ∧
      ∀ later final, (quiet true).play? later = some final → final.runs = 2 := by
  have played : (Loop.start {}).play? retriedOnce = some (quiet false) := rfl
  have stopped : (Loop.start {}).play? (retriedOnce ++ [.heard .stop]) = some (quiet true) := rfl
  rcases runs_follow_signals played with ⟨-, -, takes, ticks, -⟩
  rcases runs_follow_signals stopped with ⟨-, -, -, -, stays, -⟩
  refine ⟨played, ?_, ?_, stopped, stays rfl⟩
  · intro next taken
    exact ticks rfl [] List.not_mem_nil (quiet false) next rfl taken
  · intro next taken
    have called := takes (.heard .trigger) next taken
    exact ⟨called.1, called.2 rfl⟩

end FieldPost.Scheduler
