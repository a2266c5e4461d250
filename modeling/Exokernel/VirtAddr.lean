import Exokernel.Text.Hex
import Exokernel.Layout
/-!
# User addresses

A `VirtAddr` is an address below `userTop`, the only kind that a page table maps.
-/
namespace Exokernel

/-- An address that user code may have mapped. -/
structure VirtAddr where
  raw : Nat
  raw_lt : raw < userTop
deriving DecidableEq

namespace VirtAddr

/-- The user address with a given number: none from `userTop` on. -/
def ofNat? (a : Nat) : Option VirtAddr := if h : a < userTop then some ⟨a, h⟩ else none

def isAligned (v : VirtAddr) : Bool := v.raw % pageSize == 0

/-- The user page that starts at a given number: none from `userTop` on or off a page boundary. -/
def pageOfNat? (a : Nat) : Option VirtAddr := (ofNat? a).filter isAligned

def pageDown (v : VirtAddr) : VirtAddr :=
  ⟨Exokernel.pageDown v.raw, Nat.lt_of_le_of_lt (Nat.div_mul_le_self _ _) v.raw_lt⟩

/-- The directory entry of an address. -/
def dirIndex (v : VirtAddr) : Fin tableEntries :=
  ⟨v.raw / tableSpan, by have := v.raw_lt; simp only [userTop, tableSpan, tableEntries] at *; omega⟩

/-- The entry of an address in its page-table page. -/
def tableIndex (v : VirtAddr) : Fin tableEntries :=
  ⟨v.raw / pageSize % tableEntries, Nat.mod_lt _ (by decide)⟩

def startOf (dir table : Nat) : Nat := dir * tableSpan + table * pageSize

def text (v : VirtAddr) : String := Hex.address v.raw

theorem ofNat?_eq_some_iff {a : Nat} {v : VirtAddr} : ofNat? a = some v ↔ v.raw = a := by
  obtain ⟨r, hr⟩ := v
  simp only [ofNat?]
  split
  · simp only [Option.some.injEq, mk.injEq]; exact eq_comm
  · simp only [reduceCtorEq, false_iff]; omega

theorem pageOfNat?_eq_some_iff {a : Nat} {v : VirtAddr} :
    pageOfNat? a = some v ↔ v.raw = a ∧ a % pageSize = 0 := by
  simp only [pageOfNat?, Option.filter_eq_some_iff, ofNat?_eq_some_iff, isAligned, beq_iff_eq]
  constructor
  · rintro ⟨rfl, h⟩; exact ⟨rfl, h⟩
  · rintro ⟨rfl, h⟩; exact ⟨rfl, h⟩

/-- **The two indices of an address name its page.** -/
theorem startOf_dirIndex_tableIndex (v : VirtAddr) : startOf v.dirIndex v.tableIndex = v.pageDown.raw := by
  simp only [startOf, dirIndex, tableIndex, pageDown, Exokernel.pageDown, tableSpan, pageSize, tableEntries]
  omega

/-- Two addresses have the same indices just when they lie in the same page. -/
theorem index_eq_iff {v w : VirtAddr} :
    v.dirIndex = w.dirIndex ∧ v.tableIndex = w.tableIndex ↔ v.pageDown = w.pageDown := by
  simp only [dirIndex, tableIndex, pageDown, Exokernel.pageDown, tableSpan, pageSize, tableEntries, Fin.mk.injEq,
    mk.injEq]
  omega

end VirtAddr
end Exokernel
