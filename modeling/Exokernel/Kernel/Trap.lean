import Exokernel.Syscall.Table
/-!
# Traps

A program enters the kernel by a call, which reads its number and arguments from the saved registers, or by a page
fault.  A fault goes to the program itself if it has set an upcall: a record of the fault is pushed on its exception
stack and the program continues at the upcall.  A fault that cannot be handed over ends the environment.
-/
namespace Exokernel

inductive Ecall where
  /-- It returned a word. -/
  | returned (ret : Word)
  /-- The caller waits for a message. -/
  | blocked
  /-- The caller is gone. -/
  | exited
deriving DecidableEq

def Ecall.describe : Ecall → String
  | .returned ret => "Returned(" ++ toString ret.signed ++ ")"
  | .blocked => "Blocked"
  | .exited => "Exited"

/-- Where a page fault leads. -/
inductive Trap where
  /-- To the program's upcall, with the record of the fault at an address. -/
  | upcall (entry record : Word)
  /-- The environment is gone. -/
  | killed
deriving DecidableEq

namespace Line

def callFailed (caller : EnvId) (number : Word) (e : SysError) : Line :=
  ⟨.debug, "syscall", "[" ++ caller.text ++ "] syscall " ++ toString number.toNat ++ " -> " ++ e.name⟩

def unhandledFault (i : EnvId) (f : PageFault) (ip : Word) : Line :=
  ⟨.error, "trap", "[" ++ i.text ++ "] user fault va " ++ Hex.address f.address ++ " code " ++ f.code.describe ++
    " ip " ++ Hex.address ip.toNat⟩

def exceptionStackOverflow (i : EnvId) : Line :=
  ⟨.error, "trap", "[" ++ i.text ++ "] exception stack overflow"⟩

def exceptionStackUnmapped (i : EnvId) (record : Nat) : Line :=
  ⟨.error, "trap", "[" ++ i.text ++ "] exception stack not mapped writable at " ++ Hex.address record⟩

def upcalled (i : EnvId) (entry : Word) (record : Nat) : Line :=
  ⟨.trace, "trap", "[" ++ i.text ++ "] upcall " ++ Hex.short entry.toNat ++ " record " ++ Hex.short record⟩

def alreadyGone (i : EnvId) : Line := ⟨.warn, "trap", "[" ++ i.text ++ "] already gone"⟩

end Line

namespace Kernel

/-! ## Calls -/

def argsOf (r : Registers) : CallArgs := Vector.ofFn fun i => r.x[10 + i.val]

/-- **A call, as the saved registers say**: the program will go on after the call instruction, with the result in
`a0` unless it is blocked or gone. -/
def handleEcall (k : Kernel) (table : SyscallTable) (caller : EnvId) : Ecall × Kernel :=
  match k.env? caller with
  | none => (.exited, k)
  | some e =>
    let regs := { e.regs with sepc := e.regs.sepc + 4 }
    let number := regs.a7
    let k := k.setRegisters caller regs
    let (outcome, k) := table.dispatch number.toNat k caller (argsOf regs)
    let answer (ret : Word) (k : Kernel) : Ecall × Kernel :=
      match k.env? caller with
      | none => (.exited, k)
      | some _ => (.returned ret, k.modifyEnv caller fun e => { e with regs := e.regs.setA0 ret })
    match outcome with
    | .ok ret => answer ret k
    | .error .blocked => (.blocked, k)
    | .error .envExit => (.exited, k)
    | .error err => answer err.errno.toWord (k.log (.callFailed caller number err))

/-! ## Page faults -/

/-- End an environment that cannot go on. -/
def kill (k : Kernel) (i : EnvId) : Kernel :=
  match k.destroyEnv i with
  | (.error _, k) => k.log (.alreadyGone i)
  | (.ok (), k) => k

/-- **Where the record of a fault goes**: to the end of the exception stack or, if the program runs on that stack
already, below its stack pointer and one more word; nowhere if there is no room. -/
def recordAddress? (sp : Word) : Option Nat :=
  let top := if exceptionStackBase ≤ sp.toNat ∧ sp.toNat < exceptionStackTop then sp.toNat - 8 else exceptionStackTop
  if exceptionStackBase + FaultRecord.size ≤ top then some (top - FaultRecord.size) else none

/-- **Hand a page fault over to the program**, or end it. -/
def deliverFault (k : Kernel) (i : EnvId) (f : PageFault) : Trap × Kernel :=
  match k.env? i with
  | none => (.killed, k)
  | some e =>
    match e.upcall with
    | none => (.killed, (k.log (.unhandledFault i f e.regs.sepc)).kill i)
    | some entry =>
      match recordAddress? e.regs.sp with
      | none => (.killed, (k.log (.exceptionStackOverflow i)).kill i)
      | some record =>
        let bytes := FaultRecord.encode ⟨f.address.toUInt64, f.code, e.regs⟩
        match e.space.write k.machine record bytes.toArray with
        | .error _ => (.killed, (k.log (.exceptionStackUnmapped i record)).kill i)
        | .ok m =>
          let k := { k with machine := m }.setRegisters i { e.regs.setSp record.toUInt64 with sepc := entry }
          (.upcall entry record.toUInt64, k.log (.upcalled i entry record))

end Kernel
end Exokernel
