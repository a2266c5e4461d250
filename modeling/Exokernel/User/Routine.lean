import Exokernel.User.Call
import Exokernel.User.Panic
/-!
# Routines

A routine is a piece of user code that does one thing after another, each of which may hang on the answers so far, and
ends well or with a panic.  Page faults are handled by routines.  A routine takes the processor before it uses it; an
access is what the program itself does when it reads or writes memory, faults and their handling included.

A handler here works for the process whose fault it serves, through that process's calls and accesses only.  A fault
handler in general is handed the process and the kernel themselves, and so could also change what the process keeps to
itself (its handler, the end of its heap, its own id) or drive the processes of other environments.  No handler here
does: a process has the same runtime after an access as before it.
-/
namespace Exokernel

inductive Access where
  | read (va : Word) (len : Nat)
  | write (va : Word) (data : Bytes)

/-- User code as a tree of operations, with a branch for each answer. -/
inductive Routine where
  | done
  /-- Give up; the program goes on to exist. -/
  | fail (cause : UserPanic)
  /-- Panic. -/
  | fatal (cause : UserPanic)
  /-- Take the processor. -/
  | enter (next : Except Errno Unit → Routine)
  | call (c : Call) (next : Except Errno Word → Routine)
  | ecall (number : Word) (args : Vector Word 5) (next : Ecall → Routine)
  /-- Read memory without handling faults. -/
  | load (va : Word) (len : Nat) (next : Except Trap Bytes → Routine)
  /-- Write memory without handling faults. -/
  | store (va : Word) (data : Bytes) (next : Except Trap Unit → Routine)
  | query (va : Word) (next : Option Perm → Routine)
  | registers (next : Except Trap Registers → Routine)
  | resumeWith (regs : Registers) (next : Except Trap Unit → Routine)
  /-- Read or write memory, handling faults. -/
  | access (a : Access) (next : Except UserPanic Bytes → Routine)

/-- What a program does about a page fault. -/
abbrev FaultHandler := FaultRecord → Routine

namespace Routine

/-- Take the processor, or give up because the program is gone. -/
def enterOr (cause : Errno → UserPanic) (next : Routine) : Routine :=
  .enter fun
    | .error e => .fail (cause e)
    | .ok () => next

/-- Take the processor and make a call, as the last thing; a call that fails is reported under a name. -/
def lastCall (c : Call) (op : String) : Routine :=
  enterOr (fun _ => .killed) <| .call c fun
    | .error e => .fail (.syscall op e)
    | .ok _ => .done

/-! ## Handlers -/

def ignore : FaultHandler := fun _ => .done

def refuse : FaultHandler := fun r => .fatal (.fault r.address r.code r.regs.sepc)

/-- **Maps a page of zeros where the fault was.** -/
def demandZero : FaultHandler := fun r =>
  lastCall (.pageAlloc .self (pageDown r.address.toNat).toUInt64 .userWritable) "page_alloc"

/-- Writes at another address first, which may fault in its turn, then does what `demandZero` does. -/
def touching (other : Word → Option Word) : FaultHandler := fun r =>
  match other r.address with
  | none => demandZero r
  | some va => .access (.write va (leBytes32 1)) fun
    | .error cause => .fail cause
    | .ok _ => demandZero r

/-- Ends the program without a panic. -/
def vanish : FaultHandler := fun _ => lastCall (.envDestroy .self) "cpu"

/-- Waits for a message. -/
def block : FaultHandler := fun _ => lastCall (.recv none) "cpu"

/-- Unmaps the exception stack. -/
def unstack : FaultHandler := fun _ => lastCall (.pageUnmap .self exceptionStackBase.toUInt64) "page_unmap"

end Routine
end Exokernel
