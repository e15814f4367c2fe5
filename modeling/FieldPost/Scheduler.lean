import FieldPost.Channel

/-!
When runs happen: on every trigger, and on the ticks of a clock as long as the last run asked to
be tried again. A trigger that could not be received starts nothing. Once it is stopped,
nothing starts any more.
-/

namespace FieldPost

inductive Signal
  | tick
  | trigger
  | missed
  | stop
deriving DecidableEq, Repr

structure Scheduler where
  retryPending : Bool := false
  stopped : Bool := false
deriving DecidableEq, Repr

namespace Scheduler

def starts (scheduler : Scheduler) : Signal → Bool
  | .tick => scheduler.retryPending && !scheduler.stopped
  | .trigger => !scheduler.stopped
  | .missed => false
  | .stop => false

/-- After a run that is done, or that asks to be tried again. -/
def finish (scheduler : Scheduler) (done : Bool) : Scheduler :=
  { scheduler with retryPending := !done }

def halt (scheduler : Scheduler) (signal : Signal) : Scheduler :=
  if signal = .stop then { scheduler with stopped := true } else scheduler

/-- A scheduler with what its runs act on, and the results of the runs so far. -/
structure State (World : Type) where
  scheduler : Scheduler := {}
  world : World
  results : List Bool := []

variable {World : Type}

/-- Takes in one signal; `run` tells whether it is done. -/
def step (run : World → Bool × World) (state : State World) (signal : Signal) : State World :=
  if state.scheduler.starts signal then
    let ran := run state.world
    { scheduler := state.scheduler.finish ran.1
      world := ran.2
      results := state.results ++ [ran.1] }
  else { state with scheduler := state.scheduler.halt signal }

def runAll (run : World → Bool × World) (state : State World) (signals : List Signal) :
    State World :=
  signals.foldl (step run) state

/-- The signal that a reception is, if it is one. -/
def signalOf? : Reception Unit → Option Signal
  | .message _ => some .trigger
  | .missed _ => some .missed
  | .empty => none
  | .closed => none

/-- The signals that a channel holds for a listener, at most `fuel` of them. -/
def queued (channel : Channel Unit) : (fuel : Nat) → Listener → List Signal
  | 0, _ => []
  | fuel + 1, listener =>
      let received := channel.receive listener
      match signalOf? received.1 with
      | some signal => signal :: queued channel fuel received.2
      | none => []

end Scheduler

end FieldPost
