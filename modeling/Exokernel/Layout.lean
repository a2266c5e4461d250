/-!
# The layout of an address space

Addresses are natural numbers below `2 ^ 64`.  A page is the unit of every mapping; one page-table page maps
`tableSpan` bytes; user addresses end below `userTop`.  From the top down, a user address space holds the one-page
exception stack, a guard page, the stack, and, far below, the heap, the data and the text.
-/
namespace Exokernel

/-! ## Pages -/

def pageShift : Nat := 12

def pageSize : Nat := 4096

/-- The number of entries of a page-table page, and of the directory above it. -/
def tableEntries : Nat := 1024

/-- The number of bytes that one page-table page maps. -/
def tableSpan : Nat := 4194304

/-- The number of addresses. -/
def addressLimit : Nat := 0x10000000000000000

/-- The page boundary at or below an address. -/
def pageDown (a : Nat) : Nat := a / pageSize * pageSize

/-- **The page boundary at or above an address**, or the last one that there is if the next would be out of range. -/
def pageUp (a : Nat) : Nat := pageDown (min (a + (pageSize - 1)) (addressLimit - 1))

def pageOffset (a : Nat) : Nat := a % pageSize

/-- The addresses `low`, `low + pageSize`, … below `high`. -/
def pageSteps (low high : Nat) : List Nat :=
  List.range' low ((high - low + (pageSize - 1)) / pageSize) pageSize

theorem pageOffset_lt (a : Nat) : pageOffset a < pageSize := Nat.mod_lt _ (by decide)

theorem pageDown_add_pageOffset (a : Nat) : pageDown a + pageOffset a = a := Nat.div_add_mod' _ _

theorem pageDown_le (a : Nat) : pageDown a ≤ a := Nat.div_mul_le_self _ _

theorem mem_pageSteps {low high a : Nat} :
    a ∈ pageSteps low high ↔ ∃ i, a = low + pageSize * i ∧ a < high := by
  simp only [pageSteps, List.mem_range', pageSize]
  constructor
  · rintro ⟨i, hi, rfl⟩; exact ⟨i, rfl, by omega⟩
  · rintro ⟨i, rfl, hi⟩; exact ⟨i, by omega, rfl⟩

/-! ## Landmarks of a user address space -/

/-- User addresses lie below this one. -/
def userTop : Nat := 0xEEC00000

/-- The end of the exception stack. -/
def exceptionStackTop : Nat := userTop

/-- The start of the exception stack, which is one page. -/
def exceptionStackBase : Nat := exceptionStackTop - pageSize

/-- The end of the stack: one guard page lies between it and the exception stack. -/
def stackTop : Nat := userTop - 2 * pageSize

/-- The page the stack of a new program consists of. -/
def stackPage : Nat := stackTop - pageSize

/-- Where program text starts. -/
def textBase : Nat := 0x00800000

/-- A window that user code maps pages into for a while. -/
def scratchBase : Nat := 0x00400000

/-- The page through which a copy-on-write page is copied. -/
def copyScratch : Nat := scratchBase + tableSpan - pageSize

/-- The entry of the user's page-fault upcall. -/
def upcallEntry : Nat := textBase + 0x40

/-- The largest number of environments whose slots an environment id tells apart. -/
def maxEnvSlots : Nat := 4096

end Exokernel
