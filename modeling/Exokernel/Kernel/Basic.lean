import Exokernel.Config
import Exokernel.Env.Table
import Exokernel.Scheduler
/-!
# The kernel

The state of a kernel is its machine, its environments and its scheduler.  An operation gives its answer and the state
after it; an operation that fails may still have changed the state, and says so by returning one.
-/
namespace Exokernel

/-- A kernel and the machine it runs on. -/
structure Kernel where
  config : Config
  machine : Machine
  envs : EnvTable
  scheduler : Scheduler

namespace Line

def booted (c : Config) : Line :=
  ⟨.info, "boot", "axon: " ++ toString c.frames ++ " frames, " ++ toString c.maxEnvs ++ " env slots"⟩

def envMade (i : EnvId) (parent : Option EnvId) : Line :=
  ⟨.debug, "env", "alloc " ++ i.text ++ " parent=" ++ EnvId.describeOption parent⟩

def envFreed (i : EnvId) (pages : Nat) : Line :=
  ⟨.info, "env", "free env " ++ i.text ++ " (" ++ toString pages ++ " pages)"⟩

end Line

namespace Kernel

/-- The pool that a kernel takes its frames from. -/
def pool : Nat := 0

/-! ## Starting -/

/-- The state of a kernel before anything has happened. -/
def ofConfig (c : Config) : Kernel :=
  { config := c, machine := .ofSizes [c.frames], envs := .ofCapacity c.maxEnvs, scheduler := {} }

def log (k : Kernel) (l : Line) : Kernel := { k with machine := k.machine.log l }

/-- **Start a kernel**, if its configuration makes sense. -/
def boot (c : Config) : Except ConfigError Kernel :=
  match c.validate with
  | .error e => .error e
  | .ok () => .ok ((ofConfig c).log (.booted c))

/-! ## Frames -/

def failAfter (k : Kernel) (n : Nat) : Kernel := { k with machine := k.machine.modifyPool pool (·.failAfter n) }

def clearFailure (k : Kernel) : Kernel := { k with machine := k.machine.modifyPool pool Pool.clearFailure }

def freeFrames (k : Kernel) : Nat := k.machine.freeCount pool

def allocFrame (k : Kernel) : Option Frame × Kernel :=
  let (f, m) := k.machine.alloc pool
  (f, { k with machine := m })

def releaseFrame (k : Kernel) (f : Frame) : Kernel := { k with machine := k.machine.release f }

/-! ## Environments -/

def env? (k : Kernel) (i : EnvId) : Option Env := k.envs.get? i

def modifyEnv (k : Kernel) (i : EnvId) (f : Env → Env) : Kernel := { k with envs := k.envs.modify i f }

def setStatus (k : Kernel) (i : EnvId) (s : EnvStatus) : Kernel := k.modifyEnv i fun e => { e with status := s }

def setRegisters (k : Kernel) (i : EnvId) (r : Registers) : Kernel := k.modifyEnv i fun e => { e with regs := r }

/-- **A new environment in the lowest free slot**, blocked and with nothing mapped. -/
def createEnv (k : Kernel) (parent : Option EnvId) : Except EnvError EnvId × Kernel :=
  match k.envs.firstFree? with
  | none => (.error .noFreeEnv, k)
  | some index =>
    match AddressSpace.alloc k.machine pool with
    | (.error _, m) => (.error .noMemory, { k with machine := m })
    | (.ok space, m) =>
      let g := k.envs.nextGeneration index
      let i := EnvId.ofParts g index
      let k := { k with machine := m, envs := k.envs.fill index g (.fresh i parent space) }
      (.ok i, k.log (.envMade i parent))

/-- **End an environment**: it leaves the scheduler and the table, and its frames are given up. -/
def destroyEnv (k : Kernel) (i : EnvId) : Except EnvError Unit × Kernel :=
  match k.env? i with
  | none => (.error .badEnv, k)
  | some e =>
    let k := { k with envs := k.envs.remove i, scheduler := k.scheduler.remove i }
    let k := k.log (.envFreed i e.space.mappedPages)
    (.ok (), { k with machine := e.space.drop k.machine })

def mapInto (k : Kernel) (e : Env) (f : Frame) (v : VirtAddr) (p : Perm) : Except MapError Unit × Kernel :=
  match e.space.map k.machine pool f v p with
  | (.error err, m) => (.error err, { k with machine := m })
  | (.ok space, m) => (.ok (), { k with machine := m }.modifyEnv e.id fun e => { e with space })

def unmapFrom (k : Kernel) (e : Env) (v : VirtAddr) : Kernel :=
  let (space, m) := e.space.unmap k.machine v
  { k with machine := m }.modifyEnv e.id fun e => { e with space }

/-! ## The processor -/

def current (k : Kernel) : Option EnvId := k.scheduler.current

/-- The holder of the processor goes back to the queue. -/
def preempt (k : Kernel) : Kernel :=
  match k.current with
  | none => k
  | some i =>
    let k := k.modifyEnv i fun e => if e.status = .running then { e with status := .runnable } else e
    { k with scheduler := k.scheduler.yieldCurrent }

/-- **Give the processor to the next environment in the queue.** -/
def scheduleNext (k : Kernel) : Option EnvId × Kernel :=
  let k := k.preempt
  match k.scheduler.scheduleNext with
  | (none, s) => (none, { k with scheduler := s })
  | (some i, s) => (some i, { k with scheduler := s }.setStatus i .running)

/-- **Give the processor to a chosen environment**, which must be able to run. -/
def dispatch (k : Kernel) (i : EnvId) : Except EnvError Kernel :=
  match k.env? i with
  | none => .error .badEnv
  | some e =>
    if !e.status.isRunnable then .error .notRunnable
    else
      let k := if k.current = some i then k else
        let k := k.preempt
        { k with scheduler := k.scheduler.setCurrent (some i) }
      .ok (k.setStatus i .running)

def describe (k : Kernel) : String :=
  let frames := match k.machine.pools[pool]? with
    | none => (Pool.ofSize 0).describe
    | some p => p.describe
  "Kernel \x7b config: " ++ k.config.describe ++ ", frames: " ++ frames ++ ", envs: " ++ toString k.envs.size ++
    ", current: " ++ EnvId.describeOption k.current ++ " \x7d"

end Kernel
end Exokernel
