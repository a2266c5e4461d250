import Exokernel.Kernel.Cpu
/-!
# Typed calls

A `Call` is a request to the kernel with its arguments as values of their own types.  Two calls are expected not to
return when they succeed: ending oneself, and waiting for a message.
-/
namespace Exokernel

inductive Call where
  | getEnvId
  | envDestroy (env : EnvId)
  | yield
  | pageAlloc (env : EnvId) (va : Word) (perm : Perm)
  | pageMap (src : EnvId) (srcVa : Word) (dst : EnvId) (dstVa : Word) (perm : Perm)
  | pageUnmap (env : EnvId) (va : Word)
  | exofork
  | setStatus (env : EnvId) (status : EnvStatus)
  | setTrapframe (env : EnvId) (va : Word)
  | setUpcall (env : EnvId) (entry : Word)
  | trySend (receiver : EnvId) (value : UInt32) (page : Option (Word × Perm))
  | recv (target : Option Word)
deriving DecidableEq

namespace Call

def service : Call → Service
  | getEnvId => .getEnvId
  | envDestroy _ => .envDestroy
  | yield => .yield
  | pageAlloc .. => .pageAlloc
  | pageMap .. => .pageMap
  | pageUnmap .. => .pageUnmap
  | exofork => .exofork
  | setStatus .. => .envSetStatus
  | setTrapframe .. => .envSetTrapframe
  | setUpcall .. => .envSetPgfaultUpcall
  | trySend .. => .ipcTrySend
  | recv _ => .ipcRecv

/-- The argument words of a call.  Where no page is meant, `userTop` stands for it. -/
def args : Call → Vector Word 5
  | getEnvId => #v[0, 0, 0, 0, 0]
  | envDestroy env => #v[env.toWord, 0, 0, 0, 0]
  | yield => #v[0, 0, 0, 0, 0]
  | pageAlloc env va perm => #v[env.toWord, va, perm.toWord, 0, 0]
  | pageMap src srcVa dst dstVa perm => #v[src.toWord, srcVa, dst.toWord, dstVa, perm.toWord]
  | pageUnmap env va => #v[env.toWord, va, 0, 0, 0]
  | exofork => #v[0, 0, 0, 0, 0]
  | setStatus env status => #v[env.toWord, status.code.toUInt64, 0, 0, 0]
  | setTrapframe env va => #v[env.toWord, va, 0, 0, 0]
  | setUpcall env entry => #v[env.toWord, entry, 0, 0, 0]
  | trySend receiver value none => #v[receiver.toWord, value.toUInt64, userTop.toUInt64, 0, 0]
  | trySend receiver value (some (va, perm)) => #v[receiver.toWord, value.toUInt64, va, perm.toWord, 0]
  | recv none => #v[userTop.toUInt64, 0, 0, 0, 0]
  | recv (some va) => #v[va, 0, 0, 0, 0]

/-- How a call ends that succeeds without returning. -/
def awaited : Call → Option Ecall
  | envDestroy _ => some .exited
  | recv _ => some .blocked
  | _ => none

end Call

/-- A call has ended in a way that it should not. -/
def Line.unexpectedEnd (i : EnvId) (c : Call) (e : Ecall) : Line :=
  ⟨.error, "user", "[" ++ i.text ++ "] syscall " ++ toString c.service.number ++ " ended in unexpected " ++ e.describe⟩

namespace Kernel

/-- **Make a call**: its result, or the error number. -/
def call (k : Kernel) (i : EnvId) (c : Call) : Except Errno Word × Kernel :=
  match k.ecall i c.service.number.toUInt64 c.args with
  | (.returned ret, k) => (Errno.decode ret, k)
  | (other, k) =>
    if c.awaited = some other then (.ok 0, k) else (.error .badEnv, k.log (.unexpectedEnd i c other))

def callForId (k : Kernel) (i : EnvId) (c : Call) : Except Errno EnvId × Kernel :=
  match k.call i c with
  | (.error e, k) => (.error e, k)
  | (.ok w, k) =>
    match EnvId.ofWord? w with
    | none => (.error .inval, k)
    | some id => (.ok id, k)

end Kernel
end Exokernel
