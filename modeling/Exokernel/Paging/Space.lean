import Exokernel.FaultCode
import Exokernel.Paging.Table
/-!
# Address spaces

An address space is a page table that holds its pages: mapping a frame takes a hold of it, and unmapping gives it up.
User memory is read and written through an address space: first every page of the range is checked, then the bytes
move, page by page.  An access that fails the check moves nothing.
-/
namespace Exokernel

/-- What an access does to memory. -/
inductive AccessKind where
  | read
  | write
deriving DecidableEq

/-- An access that the page table forbids: the first byte it could not have, and why. -/
structure PageFault where
  address : Nat
  code : FaultCode
deriving DecidableEq

/-! ## Ranges of addresses -/

/-- The number of pages that a nonempty range touches. -/
def pagesTouched (a len : Nat) : Nat := (a + (len - 1)) / pageSize - a / pageSize + 1

/-- The parts of a range that lie in one page each, for at most `n` pages: where a part starts and how long it is. -/
def partsFrom : Nat → Nat → Nat → List (Nat × Nat)
  | 0, _, _ => []
  | n + 1, a, len =>
    if len = 0 then []
    else
      let here := min (pageSize - pageOffset a) len
      (a, here) :: partsFrom n (a + here) (len - here)

/-- **A range cut at the page boundaries.** -/
def rangeParts (a len : Nat) : List (Nat × Nat) := partsFrom (pagesTouched a len) a len

/-- A page table whose entries hold their frames. -/
structure AddressSpace where
  table : PageTable

namespace AddressSpace

/-- A space with nothing mapped, its directory in a frame from `pool`. -/
def alloc (m : Machine) (pool : Nat) : Except MapError AddressSpace × Machine :=
  match PageTable.alloc m pool with
  | (.error e, m) => (.error e, m)
  | (.ok t, m) => (.ok ⟨t⟩, m)

def lookup (s : AddressSpace) (v : VirtAddr) : Option Pte := s.table.lookup v

def perm (s : AddressSpace) (v : VirtAddr) : Option Perm := (s.lookup v).map Pte.perm

/-- The entry of the page of an address: none from `userTop` on. -/
def entryAt (s : AddressSpace) (a : Nat) : Option Pte := (VirtAddr.ofNat? a).bind s.lookup

/-- **Map a frame at the page of an address**, giving up the frame that was mapped there.  A page-table page may be
needed; if there is no frame for it, nothing changes. -/
def map (s : AddressSpace) (m : Machine) (pool : Nat) (f : Frame) (v : VirtAddr) (p : Perm) :
    Except MapError AddressSpace × Machine :=
  match s.table.insert (m.retain f) pool v.pageDown ⟨f, p⟩ with
  | (.error e, m) => (.error e, m.release f)
  | (.ok (displaced, t), m) => (.ok ⟨t⟩, m.releaseAll (displaced.map Pte.frame).toList)

/-- Give up the frame mapped at the page of an address, if there is one. -/
def unmap (s : AddressSpace) (m : Machine) (v : VirtAddr) : AddressSpace × Machine :=
  let (e, t, m) := s.table.remove m v.pageDown
  (⟨t⟩, m.releaseAll (e.map Pte.frame).toList)

def mappedPages (s : AddressSpace) : Nat := s.table.mapped

def tablePages (s : AddressSpace) : Nat := s.table.tablePages

/-- The mapped pages with their permissions, in ascending order. -/
def mappings (s : AddressSpace) : List (Nat × Perm) := s.table.toList.map fun (a, e) => (a, e.perm)

def drop (s : AddressSpace) (m : Machine) : Machine := s.table.drop m

/-! ## Access by user code -/

/-- The cause of a fault on a page that is not present. -/
def faultCode : AccessKind → FaultCode
  | .read => .user
  | .write => .user ||| .write

/-- The fault that an access to the byte at `a` raises, if any. -/
def faultAt (s : AddressSpace) (k : AccessKind) (a : Nat) : Option PageFault :=
  match ((s.entryAt a).map Pte.perm).filter (·.contains .present) with
  | none => some ⟨a, faultCode k⟩
  | some p =>
    if p.contains .user && (k == .read || p.contains .writable) then none
    else some ⟨a, faultCode k ||| .present⟩

/-- The first fault among `n` pages, the first of them from address `a` on. -/
def checkPages (s : AddressSpace) (k : AccessKind) : Nat → Nat → Except PageFault Unit
  | 0, _ => .ok ()
  | n + 1, a =>
    match s.faultAt k a with
    | some f => .error f
    | none => checkPages s k n (Exokernel.pageDown a + pageSize)

/-- **Whether an access to a range is allowed**, or the first fault.  The empty range is always allowed, and a range
that runs past the last address faults at its start. -/
def check (s : AddressSpace) (a len : Nat) (k : AccessKind) : Except PageFault Unit :=
  if len = 0 then .ok ()
  else if addressLimit ≤ a + (len - 1) then .error ⟨a, faultCode k⟩
  else s.checkPages k (pagesTouched a len) a

def readPart (s : AddressSpace) (m : Machine) (a len : Nat) : Bytes :=
  match s.entryAt a with
  | none => #[]
  | some e => m.read e.frame (pageOffset a) len

/-- **The bytes of a range.** -/
def read (s : AddressSpace) (m : Machine) (a len : Nat) : Except PageFault Bytes :=
  match s.check a len .read with
  | .error f => .error f
  | .ok () => .ok ((rangeParts a len).foldl (fun buf (b, n) => buf ++ s.readPart m b n) #[])

def writePart (s : AddressSpace) (m : Machine) (a : Nat) (data : Bytes) : Machine :=
  match s.entryAt a with
  | none => m
  | some e => m.write e.frame (pageOffset a) data

/-- **Write data from an address on.** -/
def write (s : AddressSpace) (m : Machine) (a : Nat) (data : Bytes) : Except PageFault Machine :=
  match s.check a data.size .write with
  | .error f => .error f
  | .ok () =>
    .ok ((rangeParts a data.size).foldl (fun m (b, n) => s.writePart m b (data.extract (b - a) (b - a + n))) m)

end AddressSpace
end Exokernel
