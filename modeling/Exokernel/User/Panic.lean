import Exokernel.Errno
import Exokernel.FaultCode
import Exokernel.Text.Quoted
import Exokernel.Word
/-!
# Panics

A program that cannot go on panics: it is ended, and the cause is reported to whoever ran it.
-/
namespace Exokernel

inductive ForkStep where
  /-- Installing the fault handler. -/
  | handler
  /-- Sharing a page with the child. -/
  | duplicate (va : Word)
  /-- Copying a page of the stack. -/
  | stack (va : Word)
  | exceptionStack
  | upcall
  | start
deriving DecidableEq

namespace ForkStep

def message : ForkStep → String
  | handler => "set_pgfault_handler"
  | duplicate va => "duppage " ++ Hex.address va.toNat
  | stack va => "copy stack " ++ Hex.address va.toNat
  | exceptionStack => "exception stack"
  | upcall => "set upcall"
  | start => "set status"

def describe : ForkStep → String
  | handler => "Handler"
  | duplicate va => "Duplicate \x7b va: " ++ toString va.toNat ++ " \x7d"
  | stack va => "Stack \x7b va: " ++ toString va.toNat ++ " \x7d"
  | exceptionStack => "ExceptionStack"
  | upcall => "Upcall"
  | start => "Start"

end ForkStep

/-- Why a program cannot go on. -/
inductive UserPanic where
  /-- A fault that its handler cannot repair. -/
  | fault (va : Word) (code : FaultCode) (ip : Word)
  /-- A fault that came back after it had been handled, several times in a row. -/
  | unresolved (va : Word)
  /-- A fault was sent to an upcall that is not the program's. -/
  | unknownUpcall (entry : Word)
  | noHandler (va : Word)
  /-- A call that the program relies on failed. -/
  | syscall (op : String) (err : Errno)
  | fork (step : ForkStep) (err : Errno)
  /-- The kernel has ended the program. -/
  | killed
deriving DecidableEq

namespace UserPanic

def message : UserPanic → String
  | fault va code ip =>
    "unrecoverable fault at va " ++ Hex.address va.toNat ++ " code " ++ code.describe ++ " ip " ++ Hex.address ip.toNat
  | unresolved va => "fault at va " ++ Hex.address va.toNat ++ " not resolved"
  | unknownUpcall entry => "unknown upcall entry " ++ Hex.address entry.toNat
  | noHandler va => "no page fault handler for va " ++ Hex.address va.toNat
  | syscall op err => op ++ ": " ++ err.message
  | fork step err => "fork: " ++ step.message ++ ": " ++ err.message
  | killed => "destroyed by the kernel"

def describe : UserPanic → String
  | fault va code ip =>
    "Fault \x7b va: " ++ toString va.toNat ++ ", code: " ++ code.describe ++ ", ip: " ++ toString ip.toNat ++ " \x7d"
  | unresolved va => "Unresolved \x7b va: " ++ toString va.toNat ++ " \x7d"
  | unknownUpcall entry => "UnknownUpcall \x7b entry: " ++ toString entry.toNat ++ " \x7d"
  | noHandler va => "NoHandler \x7b va: " ++ toString va.toNat ++ " \x7d"
  | syscall op err => "Syscall \x7b op: " ++ Quoted.encode op ++ ", err: " ++ err.name ++ " \x7d"
  | fork step err => "Fork \x7b step: " ++ step.describe ++ ", err: " ++ err.name ++ " \x7d"
  | killed => "Killed"

end UserPanic

/-- Why a fork did not give a child. -/
inductive ForkError where
  /-- No child could be made; the parent goes on. -/
  | exofork (err : Errno)
  /-- The parent has panicked. -/
  | panicked (cause : UserPanic)
deriving DecidableEq

def ForkError.message : ForkError → String
  | .exofork err => "exofork: " ++ err.message
  | .panicked cause => cause.message

end Exokernel
