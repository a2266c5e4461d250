import Exokernel.Syscall.Error
/-!
# The services of the kernel

A call names a service and gives six words.  Each service first reads its arguments, then checks them, then looks up
the environments it acts on, and only then changes anything; so the first thing that is wrong decides the error.
-/
namespace Exokernel

abbrev CallArgs := Vector Word 6

/-- The argument in a given place. -/
def CallArgs.word (a : CallArgs) (i : Nat) : Word := a.toArray.getD i 0

/-- A service: the caller and its arguments, to a result or an error. -/
abbrev Handler := Kernel → EnvId → CallArgs → Except SysError Word × Kernel

/-- What a program can ask of the kernel. -/
inductive Service where
  | getEnvId
  | envDestroy
  | pageAlloc
  | pageMap
  | pageUnmap
  | exofork
  | envSetStatus
  | envSetTrapframe
  | envSetPgfaultUpcall
  | yield
  | ipcTrySend
  | ipcRecv
deriving DecidableEq

namespace Service

def all : List Service :=
  [getEnvId, envDestroy, pageAlloc, pageMap, pageUnmap, exofork, envSetStatus, envSetTrapframe, envSetPgfaultUpcall,
    yield, ipcTrySend, ipcRecv]

def number : Service → Nat
  | getEnvId => 1
  | envDestroy => 2
  | pageAlloc => 3
  | pageMap => 4
  | pageUnmap => 5
  | exofork => 6
  | envSetStatus => 7
  | envSetTrapframe => 8
  | envSetPgfaultUpcall => 9
  | yield => 10
  | ipcTrySend => 11
  | ipcRecv => 12

end Service

namespace Line

def exiting (i : EnvId) : Line := ⟨.info, "syscall", "[" ++ i.text ++ "] exiting gracefully"⟩

def destroying (caller i : EnvId) : Line := ⟨.info, "syscall", "[" ++ caller.text ++ "] destroying " ++ i.text⟩

def exoforked (caller i : EnvId) : Line := ⟨.debug, "syscall", "[" ++ caller.text ++ "] exofork -> " ++ i.text⟩

end Line

namespace Syscall

/-! ## Reading arguments -/

def decodeEnv (w : Word) : Except SysError EnvId :=
  match EnvId.ofWord? w with
  | none => .error (.env .badEnv)
  | some i => .ok i

def decodePage (w : Word) : Except SysError VirtAddr :=
  match VirtAddr.pageOfNat? w.toNat with
  | none => .error .invalidArgument
  | some v => .ok v

/-- A page, or none if the word is no user address. -/
def decodeOptionalPage (w : Word) : Except SysError (Option VirtAddr) :=
  if userTop ≤ w.toNat then .ok none else (decodePage w).map some

def decodePerm (w : Word) : Except SysError Perm :=
  match Perm.ofWord? w with
  | none => .error .invalidArgument
  | some p => .ok p

/-- Only a settable permission will do. -/
def checkPerm (p : Perm) : Except SysError Unit := if p.settable then .ok () else .error .invalidArgument

/-- The environment that a word names, if the caller may act on it: itself or a child. -/
def authorize (k : Kernel) (caller : EnvId) (i : EnvId) : Except SysError Env :=
  (k.envs.resolve i (.env caller) true).mapError .env

def authorizeWord (k : Kernel) (caller : EnvId) (w : Word) : Except SysError Env :=
  match decodeEnv w with
  | .error e => .error e
  | .ok i => authorize k caller i

def callerEnv (k : Kernel) (caller : EnvId) : Except SysError Env := (k.envs.get caller).mapError .env

/-! ## The services -/

def getEnvId : Handler := fun k caller _ => (.ok caller.toWord, k)

/-- **End the caller or one of its children.** -/
def envDestroy : Handler := fun k caller a =>
  match authorizeWord k caller (a.word 0) with
  | .error e => (.error e, k)
  | .ok target =>
    match k.destroyEnv target.id with
    | (.error e, k) => (.error (.env e), k)
    | (.ok (), k) =>
      if target.id = caller then (.error .envExit, k.log (.exiting target.id))
      else (.ok 0, k.log (.destroying caller target.id))

def pageAllocArgs (k : Kernel) (caller : EnvId) (a : CallArgs) : Except SysError (Env × VirtAddr × Perm) := do
  let v ← decodePage (a.word 1)
  let p ← decodePerm (a.word 2)
  checkPerm p
  let target ← authorizeWord k caller (a.word 0)
  return (target, v, p)

/-- **Map a fresh page of zeros.** -/
def pageAlloc : Handler := fun k caller a =>
  match pageAllocArgs k caller a with
  | .error e => (.error e, k)
  | .ok (target, v, p) =>
    match k.allocFrame with
    | (none, k) => (.error (.map .outOfMemory), k)
    | (some f, k) =>
      match k.mapInto target f v p with
      | (.error e, k) => (.error (.map e), k.releaseFrame f)
      | (.ok (), k) => (.ok 0, k.releaseFrame f)

/-- The arguments of `pageMap`: the mapping to share, whose address space it goes to, where, and the permission, which
may be no wider in writing than the mapping. -/
def pageMapArgs (k : Kernel) (caller : EnvId) (a : CallArgs) : Except SysError (Pte × Env × VirtAddr × Perm) := do
  let sv ← decodePage (a.word 1)
  let dv ← decodePage (a.word 3)
  let p ← decodePerm (a.word 4)
  checkPerm p
  let si ← decodeEnv (a.word 0)
  let di ← decodeEnv (a.word 2)
  let src ← authorize k caller si
  let dst ← authorize k caller di
  match src.space.lookup sv with
  | none => .error .invalidArgument
  | some pte =>
    if p.contains .writable && !pte.perm.contains .writable then .error .invalidArgument
    else .ok (pte, dst, dv, p)

/-- **Share the frame of a mapping at another address**, perhaps of another environment. -/
def pageMap : Handler := fun k caller a =>
  match pageMapArgs k caller a with
  | .error e => (.error e, k)
  | .ok (pte, dst, v, p) =>
    match k.mapInto dst pte.frame v p with
    | (.error e, k) => (.error (.map e), k)
    | (.ok (), k) => (.ok 0, k)

def pageUnmapArgs (k : Kernel) (caller : EnvId) (a : CallArgs) : Except SysError (Env × VirtAddr) := do
  let v ← decodePage (a.word 1)
  let target ← authorizeWord k caller (a.word 0)
  return (target, v)

/-- **Unmap a page**, mapped or not. -/
def pageUnmap : Handler := fun k caller a =>
  match pageUnmapArgs k caller a with
  | .error e => (.error e, k)
  | .ok (target, v) => (.ok 0, k.unmapFrom target v)

/-- **A child with the caller's registers**, except that it sees zero as the result.  A table with more slots than ids
tell apart can hold a child that its id does not find; the call fails then. -/
def exofork : Handler := fun k caller _ =>
  match callerEnv k caller with
  | .error e => (.error e, k)
  | .ok parent =>
    match k.createEnv (some caller) with
    | (.error e, k) => (.error (.env e), k)
    | (.ok child, k) =>
      match k.env? child with
      | none => (.error (.env .badEnv), k)
      | some _ => (.ok child.toWord, (k.setRegisters child (parent.regs.setA0 0)).log (.exoforked caller child))

def envSetStatusArgs (k : Kernel) (caller : EnvId) (a : CallArgs) : Except SysError (Env × EnvStatus) :=
  match EnvStatus.ofCode? (a.word 1).toNat with
  | none => .error .invalidArgument
  | some s =>
    if s = .runnable ∨ s = .notRunnable then (authorizeWord k caller (a.word 0)).map fun target => (target, s)
    else .error .invalidArgument

/-- **Let an environment run, or stop it.** -/
def envSetStatus : Handler := fun k caller a =>
  match envSetStatusArgs k caller a with
  | .error e => (.error e, k)
  | .ok (target, s) =>
    let k := k.setStatus target.id s
    let scheduler :=
      if s = .runnable then k.scheduler.enqueue target.id else k.scheduler.remove target.id
    (.ok 0, { k with scheduler })

def envSetTrapframeArgs (k : Kernel) (caller : EnvId) (a : CallArgs) : Except SysError (Env × Bytes) := do
  let target ← authorizeWord k caller (a.word 0)
  let me ← callerEnv k caller
  match me.space.read k.machine (a.word 1).toNat Registers.size with
  | .error _ => .error .invalidArgument
  | .ok bytes => .ok (target, bytes)

/-- The register file in some bytes; absent bytes count as zero. -/
def registersOf (bytes : Bytes) : Registers := .decode (Vector.ofFn fun i => bytes.getD i.val 0)

/-- **Replace the registers of an environment**, which goes on in user mode. -/
def envSetTrapframe : Handler := fun k caller a =>
  match envSetTrapframeArgs k caller a with
  | .error e => (.error e, k)
  | .ok (target, bytes) => (.ok 0, k.setRegisters target.id (registersOf bytes).forUser)

/-- **Set where an environment continues after a page fault.** -/
def envSetPgfaultUpcall : Handler := fun k caller a =>
  match authorizeWord k caller (a.word 0) with
  | .error e => (.error e, k)
  | .ok target => (.ok 0, k.modifyEnv target.id fun e => { e with upcall := some (a.word 1) })

/-- **Let the next in the queue run.** -/
def yield : Handler := fun k caller _ =>
  match callerEnv k caller with
  | .error e => (.error e, k)
  | .ok _ =>
    let k := k.setStatus caller .runnable
    match k.scheduler.yieldCurrent.scheduleNext with
    | (none, s) => (.ok 0, { k with scheduler := s })
    | (some next, s) => (.ok 0, { k with scheduler := s }.setStatus next .running)

def ipcTrySendArgs (a : CallArgs) : Except SysError SendRequest := do
  let page ← match ← decodeOptionalPage (a.word 2) with
    | none => pure none
    | some v => do
      let p ← decodePerm (a.word 3)
      checkPerm p
      pure (some (v, p))
  let receiver ← decodeEnv (a.word 0)
  return { receiver, value := (a.word 1).toUInt32, page }

/-- **Send a message, if the receiver waits for one.** -/
def ipcTrySend : Handler := fun k caller a =>
  match ipcTrySendArgs a with
  | .error e => (.error e, k)
  | .ok req =>
    match k.send caller req with
    | (.error e, k) => (.error (.ipc e), k)
    | (.ok (), k) => (.ok 0, k)

/-- **Wait for a message.** -/
def ipcRecv : Handler := fun k caller a =>
  match decodeOptionalPage (a.word 0) with
  | .error e => (.error e, k)
  | .ok target =>
    match k.receive caller target with
    | (.error e, k) => (.error (.ipc e), k)
    | (.ok (), k) => (.error .blocked, k)

end Syscall

def Service.handler : Service → Handler
  | .getEnvId => Syscall.getEnvId
  | .envDestroy => Syscall.envDestroy
  | .pageAlloc => Syscall.pageAlloc
  | .pageMap => Syscall.pageMap
  | .pageUnmap => Syscall.pageUnmap
  | .exofork => Syscall.exofork
  | .envSetStatus => Syscall.envSetStatus
  | .envSetTrapframe => Syscall.envSetTrapframe
  | .envSetPgfaultUpcall => Syscall.envSetPgfaultUpcall
  | .yield => Syscall.yield
  | .ipcTrySend => Syscall.ipcTrySend
  | .ipcRecv => Syscall.ipcRecv

end Exokernel
