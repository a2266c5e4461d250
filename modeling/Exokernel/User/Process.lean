import Exokernel.User.Routine
/-!
# Processes

A process is an environment with what its program keeps to itself: its own id, its fault handler, and the end of its
heap.  Faults are served here: the trap that an access led to is taken up at the upcall, the record is read from the
exception stack, the handler runs, the registers are put back, and the access is tried again.
-/
namespace Exokernel

/-- What a program keeps to itself. -/
structure Runtime where
  /-- The program's own id. -/
  thisEnv : EnvId
  handler : Option FaultHandler := none
  /-- The end of the heap. -/
  brk : Word

structure UserProcess where
  env : EnvId
  runtime : Runtime

/-- How many times in a row a fault at one address is served. -/
def maxFaultRetries : Nat := 4

/-- How many faults are served for one access before it is given up as endless. -/
def serviceLimit : Nat := 1048576

namespace Line

def userPanic (i : EnvId) (cause : UserPanic) : Line :=
  ⟨.error, "user", "[" ++ i.text ++ "] user panic: " ++ cause.message⟩

def destroyFailed (i : EnvId) (e : Errno) : Line := ⟨.warn, "user", "[" ++ i.text ++ "] env_destroy: " ++ e.message⟩

end Line

def Runtime.describe (r : Runtime) : String :=
  "Runtime \x7b this_env: " ++ r.thisEnv.describe ++ ", pgfault_handler: " ++ toString r.handler.isSome ++ ", brk: " ++
    toString r.brk.toNat ++ " \x7d"

namespace UserProcess

/-- The process of an environment whose heap ends at `brk`. -/
def ofEnv (env : EnvId) (brk : Word) : UserProcess := ⟨env, { thisEnv := env, brk }⟩

def describe (p : UserProcess) : String :=
  "Process \x7b env: " ++ p.env.describe ++ ", runtime: " ++ p.runtime.describe ++ " \x7d"

/-- Take the processor. -/
def enter (p : UserProcess) (k : Kernel) : Except Errno Unit × Kernel :=
  match k.dispatch p.env with
  | .error _ => (.error .badEnv, k)
  | .ok k => (.ok (), k)

/-- Take the processor and look up the permission of a page. -/
def query (p : UserProcess) (k : Kernel) (va : Word) : Option Perm × Kernel :=
  match p.enter k with
  | (.error _, k) => (none, k)
  | (.ok (), k) => (k.query p.env va, k)

/-- **Panic**: the cause is logged, and the environment is ended if it can still run. -/
def fatal (p : UserProcess) (k : Kernel) (cause : UserPanic) : Kernel :=
  match p.enter (k.log (.userPanic p.env cause)) with
  | (.error _, k) => k
  | (.ok (), k) =>
    match k.call p.env (.envDestroy .self) with
    | (.error e, k) => k.log (.destroyFailed p.env e)
    | (.ok _, k) => k

/-! ## Running routines -/

/-- The answer of something that may serve faults and the state after it; none if it was given up as endless. -/
abbrev Served (α : Type) := Option (Except UserPanic α × Kernel)

/-- **Run a routine**, its accesses by means of `access`. -/
def run (p : UserProcess) (access : Kernel → Access → Served Bytes) : Routine → Kernel → Served Unit
  | .done, k => some (.ok (), k)
  | .fail cause, k => some (.error cause, k)
  | .fatal cause, k => some (.error cause, p.fatal k cause)
  | .enter next, k =>
    let (r, k) := p.enter k
    run p access (next r) k
  | .call c next, k =>
    let (r, k) := k.call p.env c
    run p access (next r) k
  | .ecall number args next, k =>
    let (r, k) := k.ecall p.env number args
    run p access (next r) k
  | .load va len next, k =>
    let (r, k) := k.load p.env va len
    run p access (next r) k
  | .store va data next, k =>
    let (r, k) := k.store p.env va data
    run p access (next r) k
  | .query va next, k => run p access (next (k.query p.env va)) k
  | .registers next, k => run p access (next (k.registers p.env)) k
  | .resumeWith regs next, k =>
    let (r, k) := k.resumeWith p.env regs
    run p access (next r) k
  | .access a next, k =>
    match access k a with
    | none => none
    | some (r, k) => run p access (next r) k

/-! ## Serving faults -/

def attempt (p : UserProcess) (k : Kernel) : Access → Except Trap Bytes × Kernel
  | .read va len => k.load p.env va len
  | .write va data =>
    match k.store p.env va data with
    | (.error t, k) => (.error t, k)
    | (.ok (), k) => (.ok #[], k)

/-- The record of a fault, read from the exception stack. -/
def readRecord (p : UserProcess) (k : Kernel) (record : Word) : Except UserPanic FaultRecord × Kernel :=
  match p.enter k with
  | (.error _, k) => (.error .killed, k)
  | (.ok (), k) =>
    match k.load p.env record FaultRecord.size with
    | (.error _, k) => (.error .killed, k)
    | (.ok bytes, k) => (.ok (.decode (Vector.ofFn fun i => bytes.getD i.val 0)), k)

/-- Put the registers back as they were at the fault. -/
def returnFrom (p : UserProcess) (k : Kernel) (r : FaultRecord) : Except UserPanic Word × Kernel :=
  match p.enter k with
  | (.error _, k) => (.error .killed, k)
  | (.ok (), k) =>
    match k.resumeWith p.env r.regs with
    | (.error _, k) => (.error .killed, k)
    | (.ok (), k) => (.ok r.address, k)

/-- **Serve a trap**: run the handler on the record of the fault and go back to where it was, with its address. -/
def serve (p : UserProcess) (access : Kernel → Access → Served Bytes) (k : Kernel) : Trap → Served Word
  | .killed => some (.error .killed, k)
  | .upcall entry record =>
    if entry ≠ upcallEntry.toUInt64 then some (.error (.unknownUpcall entry), p.fatal k (.unknownUpcall entry))
    else
      match p.readRecord k record with
      | (.error cause, k) => some (.error cause, k)
      | (.ok r, k) =>
        match p.runtime.handler with
        | none => some (.error (.noHandler r.address), p.fatal k (.noHandler r.address))
        | some handler =>
          match p.run access (handler r) k with
          | none => none
          | some (.error cause, k) => some (.error cause, k)
          | some (.ok (), k) => some (p.returnFrom k r)

/-- **An access, tried until it goes through.**  `last` is the address of the fault served last and `repeats` how often
in a row it has been served; the first argument bounds the number of tries. -/
def accessFrom (p : UserProcess) : Nat → Option Word → Nat → Kernel → Access → Served Bytes
  | 0, _, _, _, _ => none
  | n + 1, last, repeats, k, a =>
    match p.enter k with
    | (.error _, k) => some (.error .killed, k)
    | (.ok (), k) =>
      match p.attempt k a with
      | (.ok bytes, k) => some (.ok bytes, k)
      | (.error trap, k) =>
        match p.serve (accessFrom p n none 0) k trap with
        | none => none
        | some (.error cause, k) => some (.error cause, k)
        | some (.ok va, k) =>
          let repeats := if last = some va then repeats + 1 else 1
          if maxFaultRetries ≤ repeats then some (.error (.unresolved va), p.fatal k (.unresolved va))
          else accessFrom p n (some va) repeats k a

def access (p : UserProcess) (n : Nat) (k : Kernel) (a : Access) : Served Bytes := p.accessFrom n none 0 k a

/-- Run a routine whose accesses are tried at most `n` times each. -/
def runWithin (p : UserProcess) (n : Nat) (k : Kernel) (r : Routine) : Served Unit := p.run (p.access n) r k

/-! ## The heap and the handler -/

/-- Map pages of zeros, up to the first that fails. -/
def allocPages (p : UserProcess) (k : Kernel) : List Nat → Except Errno Unit × Kernel
  | [] => (.ok (), k)
  | a :: rest =>
    match k.call p.env (.pageAlloc .self a.toUInt64 .userWritable) with
    | (.error e, k) => (.error e, k)
    | (.ok _, k) => allocPages p k rest

/-- The end of the heap after growing it, a page boundary: none if it would reach the stack page. -/
def grownBrk? (p : UserProcess) (increment : Word) : Option Nat :=
  let sum := p.runtime.brk.toNat + increment.toNat
  if sum < addressLimit ∧ pageUp sum ≤ stackPage then some (pageUp sum) else none

/-- **Grow the heap**, with its old end as the answer. -/
def sbrk (p : UserProcess) (k : Kernel) (increment : Word) : Except Errno Word × UserProcess × Kernel :=
  match p.grownBrk? increment with
  | none => (.error .noMem, p, k)
  | some brk =>
    match p.enter k with
    | (.error e, k) => (.error e, p, k)
    | (.ok (), k) =>
      match p.allocPages k (pageSteps p.runtime.brk.toNat brk) with
      | (.error e, k) => (.error e, p, k)
      | (.ok (), k) => (.ok p.runtime.brk, ⟨p.env, { p.runtime with brk := brk.toUInt64 }⟩, k)

def prepareUpcall (p : UserProcess) (k : Kernel) : Except Errno Unit × Kernel :=
  match p.enter k with
  | (.error e, k) => (.error e, k)
  | (.ok (), k) =>
    match k.call p.env (.pageAlloc .self exceptionStackBase.toUInt64 .userWritable) with
    | (.error e, k) => (.error e, k)
    | (.ok _, k) =>
      match k.call p.env (.setUpcall .self upcallEntry.toUInt64) with
      | (.error e, k) => (.error e, k)
      | (.ok _, k) => (.ok (), k)

/-- **Set the fault handler**; the first one needs an exception stack and the upcall. -/
def setHandler (p : UserProcess) (k : Kernel) (h : FaultHandler) : Except Errno Unit × UserProcess × Kernel :=
  let ready := ⟨p.env, { p.runtime with handler := some h }⟩
  if p.runtime.handler.isSome then (.ok (), ready, k)
  else
    match p.prepareUpcall k with
    | (.error e, k) => (.error e, p, k)
    | (.ok (), k) => (.ok (), ready, k)

end UserProcess
end Exokernel
