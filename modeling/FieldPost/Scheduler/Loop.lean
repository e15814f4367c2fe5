import FieldPost.Scheduler

/-!
The loop in which the signals of a scheduler are heard, one after the other. While a run goes on
only a stop is heard; any other signal is then heard when the run has ended. After a trigger that
could not be received the loop does not listen for triggers until the next tick. A stop that comes
between a signal and the look at the flag is listed before that signal.
-/

namespace FieldPost.Scheduler

/-- Where the loop stands and, while it waits, whether it listens for triggers. -/
inductive Phase
  | waiting (listening : Bool)
  | running
  | ended
deriving DecidableEq, Repr

inductive Event
  | heard (signal : Signal)
  | finished (done : Bool)
deriving DecidableEq, Repr

structure Loop where
  scheduler : Scheduler
  phase : Phase
  results : List Bool := []
deriving DecidableEq, Repr

/-- What the loop does when there is nothing to run. -/
def rest (scheduler : Scheduler) : Phase :=
  if scheduler.stopped then .ended else .waiting true

namespace Loop

def start (scheduler : Scheduler) : Loop := { scheduler, phase := scheduler.rest }

/-- A signal that was waited for leads to a run or to the next round. -/
def answer (loop : Loop) (signal : Signal) : Loop :=
  { loop with
    phase := if loop.scheduler.starts signal then .running else loop.scheduler.rest }

def finish (loop : Loop) (done : Bool) : Loop where
  scheduler := loop.scheduler.finish done
  phase := (loop.scheduler.finish done).rest
  results := loop.results ++ [done]

/-- The loop after an event, if the event can come where the loop stands. -/
def take? (loop : Loop) (event : Event) : Option Loop :=
  match loop.phase, event with
  | _, .heard .stop => some { loop with scheduler := loop.scheduler.halt .stop }
  | .waiting _, .heard .tick => some (loop.answer .tick)
  | .waiting true, .heard .trigger => some (loop.answer .trigger)
  | .waiting true, .heard .missed => some { loop with phase := .waiting false }
  | .running, .finished done => some (loop.finish done)
  | _, _ => none

def play? (loop : Loop) (events : List Event) : Option Loop :=
  events.foldlM take? loop

end Loop

end FieldPost.Scheduler
