import Exokernel.Errno
import Exokernel.Kernel.Message
/-!
# Failed calls
-/
namespace Exokernel

/-- Why a call did not return a result. -/
inductive SysError where
  | invalidSyscall
  | invalidArgument
  | env (e : EnvError)
  | map (e : MapError)
  | ipc (e : IpcError)
  /-- The caller is gone. -/
  | envExit
  /-- The caller waits for a message. -/
  | blocked
deriving DecidableEq

namespace SysError

def all : List SysError :=
  [invalidSyscall, invalidArgument] ++ EnvError.all.map env ++ [map .outOfMemory] ++ IpcError.all.map ipc ++
    [envExit, blocked]

def name : SysError → String
  | invalidSyscall => "InvalidSyscall"
  | invalidArgument => "InvalidArgument"
  | env e => "Env(" ++ e.name ++ ")"
  | map e => "Map(" ++ e.name ++ ")"
  | ipc e => "Ipc(" ++ e.name ++ ")"
  | envExit => "EnvExit"
  | blocked => "Blocked"

def ofName? (s : String) : Option SysError := all.find? fun e => e.name == s

def envErrno : EnvError → Errno
  | .badEnv => .badEnv
  | .notRunnable => .badEnv
  | .noFreeEnv => .noFreeEnv
  | .noMemory => .noMem

/-- **The error number that the caller sees.**  The last two causes never reach it. -/
def errno : SysError → Errno
  | invalidSyscall => .noSys
  | invalidArgument => .inval
  | env e => envErrno e
  | map _ => .noMem
  | ipc .notReceiving => .ipcNotRecv
  | ipc .invalidSource => .inval
  | ipc (.env e) => envErrno e
  | ipc (.map _) => .noMem
  | envExit => .inval
  | blocked => .inval

end SysError
end Exokernel
