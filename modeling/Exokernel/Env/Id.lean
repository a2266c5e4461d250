import Exokernel.Text.Hex
import Exokernel.Word
/-!
# Environment ids and statuses

An id holds the slot of an environment in its low twelve bits and, above them, how often the slot has been used.  A
generation is never zero, so the id zero names no environment; in a call it stands for the caller.
-/
namespace Exokernel

structure EnvId where
  raw : UInt32
deriving DecidableEq, Inhabited

namespace EnvId

/-- In a call, the caller. -/
def self : EnvId := ⟨0⟩

/-- The id of the `generation`-th use of a slot. -/
def ofParts (generation : UInt32) (index : Nat) : EnvId := ⟨generation <<< 12 ||| index.toUInt32 &&& 0xFFF⟩

/-- The slot. -/
def index (i : EnvId) : Nat := (i.raw &&& 0xFFF).toNat

/-- How often the slot has been used. -/
def generation (i : EnvId) : UInt32 := i.raw >>> 12

def isSelf (i : EnvId) : Bool := i.raw == 0

/-- **The generation after `g`**: after the largest that an id can hold comes one, never zero. -/
def nextGeneration (g : UInt32) : UInt32 := if 0xFFFFF ≤ g then 1 else g + 1

def toWord (i : EnvId) : Word := i.raw.toUInt64

/-- The environment that an argument word names: none if it is wider than an id. -/
def ofWord? (raw : Word) : Option EnvId := if raw.toNat < 0x100000000 then some ⟨raw.toUInt32⟩ else none

/-- The id as users see it: eight hexadecimal digits. -/
def text (i : EnvId) : String := Hex.padded 8 i.raw.toNat

def describe (i : EnvId) : String := "EnvId(" ++ toString i.raw.toNat ++ ")"

def describeOption : Option EnvId → String
  | none => "None"
  | some i => "Some(" ++ i.describe ++ ")"

end EnvId

/-- What an environment is doing. -/
inductive EnvStatus where
  | free
  | dying
  /-- Waiting in the run queue. -/
  | runnable
  /-- Holding the processor. -/
  | running
  /-- Blocked, or not started yet. -/
  | notRunnable
deriving DecidableEq, Inhabited

namespace EnvStatus

def all : List EnvStatus := [free, dying, runnable, running, notRunnable]

def code : EnvStatus → Nat
  | free => 0
  | dying => 1
  | runnable => 2
  | running => 3
  | notRunnable => 4

def ofCode? (c : Nat) : Option EnvStatus := all.find? fun s => s.code == c

/-- The scheduler may pick an environment with this status. -/
def isRunnable (s : EnvStatus) : Bool := s == runnable || s == running

def name : EnvStatus → String
  | free => "Free"
  | dying => "Dying"
  | runnable => "Runnable"
  | running => "Running"
  | notRunnable => "NotRunnable"

def ofName? (n : String) : Option EnvStatus := all.find? fun s => s.name == n

end EnvStatus
end Exokernel
