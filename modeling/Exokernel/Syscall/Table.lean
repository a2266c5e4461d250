import Exokernel.Syscall.Service
/-!
# The table of calls

A call is dispatched by its number through a table, so that numbers can be given to other handlers than the kernel's
own services.
-/
namespace Exokernel

structure SyscallTable where
  handlers : Vector (Option Handler) 32

namespace SyscallTable

def empty : SyscallTable := ⟨Vector.replicate 32 none⟩

/-- Give a number to a handler; a number out of range is ignored. -/
def register (t : SyscallTable) (number : Nat) (h : Handler) : SyscallTable :=
  ⟨t.handlers.setIfInBounds number (some h)⟩

/-- The table in which every service has its own number. -/
def standard : SyscallTable := Service.all.foldl (fun t s => t.register s.number s.handler) empty

/-- **Call by number.** -/
def dispatch (t : SyscallTable) (number : Nat) : Handler := fun k caller a =>
  match t.handlers[number]?.bind id with
  | none => (.error .invalidSyscall, k)
  | some h => h k caller a

end SyscallTable

/-! ## Handlers that are no services -/

namespace Handler

/-- Returns its last argument. -/
def lastArgument : Handler := fun k _ a => (.ok (a.word 5), k)

/-- Fails for a given reason. -/
def failing (e : SysError) : Handler := fun k _ _ => (.error e, k)

/-- Ends the caller, and returns as if nothing had happened; there must be a caller to end. -/
def vanish : Handler := fun k caller _ =>
  match k.destroyEnv caller with
  | (.error e, k) => (.error (.env e), k)
  | (.ok (), k) => (.ok 0, k)

end Handler
end Exokernel
