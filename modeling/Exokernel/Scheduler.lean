import Exokernel.Env.Id
/-!
# The scheduler

Environments that may run wait in a queue, first come, first served; at most one holds the processor.
-/
namespace Exokernel

/-- The run queue and the holder of the processor. -/
structure Scheduler where
  queue : List EnvId := []
  current : Option EnvId := none
deriving DecidableEq

namespace Scheduler

instance : Inhabited Scheduler := ⟨{}⟩

def isQueued (s : Scheduler) (i : EnvId) : Bool := s.queue.contains i

/-- Join the end of the queue, unless already there or running. -/
def enqueue (s : Scheduler) (i : EnvId) : Scheduler :=
  if s.current = some i ∨ i ∈ s.queue then s else { s with queue := s.queue ++ [i] }

def remove (s : Scheduler) (i : EnvId) : Scheduler :=
  { queue := s.queue.filter (· != i), current := s.current.filter (· != i) }

/-- Give the processor to an environment, which leaves the queue, or to none. -/
def setCurrent (s : Scheduler) : Option EnvId → Scheduler
  | none => { s with current := none }
  | some i => { queue := s.queue.filter (· != i), current := some i }

/-- The holder of the processor goes to the end of the queue. -/
def yieldCurrent (s : Scheduler) : Scheduler :=
  { queue := s.queue ++ s.current.toList, current := none }

/-- **The first in the queue gets the processor**; with an empty queue nothing changes. -/
def scheduleNext (s : Scheduler) : Option EnvId × Scheduler :=
  match s.queue with
  | [] => (none, s)
  | i :: rest => (some i, { queue := rest, current := some i })

end Scheduler
end Exokernel
