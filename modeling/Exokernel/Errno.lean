import Exokernel.Word
/-!
# Error numbers

A call answers with one word.  Read as a signed number it is a result if it is not negative, and the negated code of
an error otherwise.
-/
namespace Exokernel

/-- Why a call failed. -/
inductive Errno where
  /-- The environment is unknown, or the caller may not act on it. -/
  | badEnv
  /-- Bad alignment, bounds or permission bits. -/
  | inval
  /-- No frame for a page or a page-table page. -/
  | noMem
  /-- The environment table is full. -/
  | noFreeEnv
  /-- User memory could not be accessed. -/
  | fault
  /-- The receiver of a message is not waiting. -/
  | ipcNotRecv
  /-- There is no such call. -/
  | noSys
deriving DecidableEq, Inhabited

namespace Errno

def all : List Errno := [badEnv, inval, noMem, noFreeEnv, fault, ipcNotRecv, noSys]

def code : Errno → Nat
  | badEnv => 2
  | inval => 3
  | noMem => 4
  | noFreeEnv => 5
  | fault => 6
  | ipcNotRecv => 7
  | noSys => 8

def ofCode? (c : Int) : Option Errno := all.find? fun e => (e.code : Int) == c

def toWord (e : Errno) : Word := 0 - e.code.toUInt64

/-- **A returned word is a result or an error**; a negative word that is no error's counts as `inval`. -/
def decode (ret : Word) : Except Errno Word :=
  if ret.signed < 0 then .error ((ofCode? (-ret.signed)).getD inval) else .ok ret

def name : Errno → String
  | badEnv => "BadEnv"
  | inval => "Inval"
  | noMem => "NoMem"
  | noFreeEnv => "NoFreeEnv"
  | fault => "Fault"
  | ipcNotRecv => "IpcNotRecv"
  | noSys => "NoSys"

def message : Errno → String
  | badEnv => "bad environment"
  | inval => "invalid parameter"
  | noMem => "out of memory"
  | noFreeEnv => "out of environments"
  | fault => "segmentation fault"
  | ipcNotRecv => "env is not recving"
  | noSys => "unknown syscall"

def ofName? (s : String) : Option Errno := all.find? fun e => e.name == s

end Errno
end Exokernel
