import Exokernel.Layout
import Exokernel.Word
/-!
# Pages of bytes

A page is `pageSize` bytes.  Reading and writing start at an offset and stop at the end of the page: what does not fit
is left out, never an error.
-/
namespace Exokernel

/-- The content of one frame. -/
abbrev Page := Vector UInt8 pageSize

namespace Page

/-- The page of zeros, which every frame holds when it is handed out. -/
def zero : Page := Vector.replicate pageSize 0

instance : Inhabited Page := ⟨zero⟩

/-- The number of bytes that a transfer of `len` bytes from an offset moves. -/
def room (offset len : Nat) : Nat := min len (pageSize - offset)

def read (p : Page) (offset len : Nat) : Bytes := p.toArray.extract offset (offset + len)

/-- **The page after writing data at an offset**: byte `i` is the data's if the data reaches it. -/
def write (p : Page) (offset : Nat) (data : Bytes) : Page :=
  Vector.ofFn fun i =>
    if offset ≤ i.val then data.getD (i.val - offset) p[i] else p[i]

theorem getElem_zero (i : Nat) (h : i < pageSize) : zero[i] = 0 := by simp [zero]

theorem size_read (p : Page) (offset len : Nat) : (p.read offset len).size = room offset len := by
  simp only [read, room, Array.size_extract, Vector.size_toArray]; omega

theorem getElem_write (p : Page) (offset : Nat) (data : Bytes) (i : Nat) (h : i < pageSize) :
    (p.write offset data)[i] = if offset ≤ i then data.getD (i - offset) p[i] else p[i] := by
  simp [write]

end Page
end Exokernel
