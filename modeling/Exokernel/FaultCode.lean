import Exokernel.Text.Flags
/-!
# The cause of a page fault
-/
namespace Exokernel

/-- The cause of a page fault, as a set of bits. -/
structure FaultCode where
  bits : UInt32
deriving DecidableEq, Inhabited

namespace FaultCode

instance : OrOp FaultCode := ⟨fun c d => ⟨c.bits ||| d.bits⟩⟩

/-- The page was present and its protection was violated. -/
def present : FaultCode := ⟨1⟩

/-- The access was a write. -/
def write : FaultCode := ⟨2⟩

/-- The access came from user mode. -/
def user : FaultCode := ⟨4⟩

def flags : List Flag := [⟨"PRESENT", 1⟩, ⟨"WRITE", 2⟩, ⟨"USER", 4⟩]

/-- The code made of the named bits of a number. -/
def truncate (raw : UInt32) : FaultCode := ⟨raw &&& 7⟩

def contains (c d : FaultCode) : Bool := c.bits &&& d.bits == d.bits

def describe (c : FaultCode) : String := Flag.describe "FaultCode" flags c.bits

end FaultCode
end Exokernel
