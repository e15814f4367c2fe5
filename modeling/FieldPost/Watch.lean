import FieldPost.Run
import FieldPost.Scheduler

/-!
Runs under a scheduler. Every run finds the connection of its turn; the last one stays.
-/

namespace FieldPost

structure Watch (σ : Type) where
  world : World σ
  connections : List (Option Connection)

namespace Watch

variable {σ : Type}

def connection (watch : Watch σ) : Option Connection := watch.connections.headD none

def nextConnections (watch : Watch σ) : List (Option Connection) :=
  match watch.connections with
  | [last] => [last]
  | connections => connections.tail

/-- One run, and whether it is done. -/
def run (around : Surroundings) (uploaders : Uploaders σ) (watch : Watch σ) : Bool × Watch σ :=
  let ran := Run.execute { around with connection := watch.connection } uploaders watch.world
  (ran.1.isDone, ⟨ran.2, watch.nextConnections⟩)

end Watch

end FieldPost
