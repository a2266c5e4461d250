import Exokernel.Text.Flags
import Exokernel.Word
/-!
# Mapping permissions

A permission is a set of page-table bits.  Any 32 bits may be held, since a mapping made by the kernel itself is not
restricted; what a call may ask for is the subset of `Perm.syscall` that `Perm.settable` accepts.
-/
namespace Exokernel

structure Perm where
  bits : UInt32
deriving DecidableEq, Inhabited

namespace Perm

instance : OrOp Perm := ⟨fun p q => ⟨p.bits ||| q.bits⟩⟩
instance : AndOp Perm := ⟨fun p q => ⟨p.bits &&& q.bits⟩⟩

def empty : Perm := ⟨0⟩

/-- The mapping is in force. -/
def present : Perm := ⟨0x001⟩

def writable : Perm := ⟨0x002⟩

/-- User mode may use the mapping. -/
def user : Perm := ⟨0x004⟩

/-- The bits that are left to user code. -/
def avail : Perm := ⟨0xE00⟩

/-- One of the bits left to user code: a write to this page makes a private copy first. -/
def cow : Perm := ⟨0x800⟩

/-- The named bits in the order in which they are described. -/
def flags : List Flag :=
  [⟨"PRESENT", 0x001⟩, ⟨"WRITABLE", 0x002⟩, ⟨"USER", 0x004⟩, ⟨"WRITE_THROUGH", 0x008⟩, ⟨"CACHE_DISABLE", 0x010⟩,
    ⟨"ACCESSED", 0x020⟩, ⟨"DIRTY", 0x040⟩, ⟨"LARGE", 0x080⟩, ⟨"GLOBAL", 0x100⟩, ⟨"AVAIL", 0xE00⟩, ⟨"COW", 0x800⟩]

def all : Perm := ⟨0xFFF⟩

/-- What every user mapping needs. -/
def userPresent : Perm := present ||| user

/-- The mapping of a page that user code reads and writes. -/
def userWritable : Perm := userPresent ||| writable

/-- A page shared until it is written. -/
def userCow : Perm := userPresent ||| cow

/-- The bits that a call may ask for. -/
def syscall : Perm := userWritable ||| avail

/-- Every bit of `q` is in `p`. -/
def contains (p q : Perm) : Bool := p.bits &&& q.bits == q.bits

/-- Some bit of `q` is in `p`. -/
def intersects (p q : Perm) : Bool := p.bits &&& q.bits != 0

/-- **The permission that an argument word names**: none if it has a bit without a name. -/
def ofWord? (raw : Word) : Option Perm :=
  if raw &&& all.bits.toUInt64 == raw then some ⟨raw.toUInt32⟩ else none

def toWord (p : Perm) : Word := p.bits.toUInt64

/-- **What a call may install**: present, for the user, and no bit outside `syscall`. -/
def settable (p : Perm) : Bool := p.contains userPresent && syscall.contains p

def describe (p : Perm) : String := Flag.describe "Perm" flags p.bits

end Perm
end Exokernel
