import Exokernel.FaultCode
import Exokernel.Word
/-!
# Register files and fault records

Both travel through user memory.  A register file is 34 words: the 32 registers, then `sepc` and `sstatus`.  A fault
record is the faulting address, the cause and the register file at the time of the fault.
-/
namespace Exokernel

/-- The saved registers of an environment. -/
structure Registers where
  x : Vector Word 32
  /-- Where to resume. -/
  sepc : Word
  sstatus : Word
deriving DecidableEq

namespace Registers

/-- The register that holds the stack pointer. -/
def spIndex : Nat := 2

/-- The register that holds the first argument and the result. -/
def a0Index : Nat := 10

/-- The register that holds the number of a call. -/
def a7Index : Nat := 17

/-- The status bit: the trap came from the supervisor. -/
def spp : Word := 0x100

/-- The status bit: interrupts were on before the trap. -/
def spie : Word := 0x20

def zero : Registers := ⟨Vector.replicate 32 0, 0, 0⟩

instance : Inhabited Registers := ⟨zero⟩

/-- The registers of an environment that has not run: all zero, interrupts on. -/
def fresh : Registers := { zero with sstatus := spie }

def sp (r : Registers) : Word := r.x[2]

def setSp (r : Registers) (w : Word) : Registers := { r with x := r.x.set 2 w }

def a0 (r : Registers) : Word := r.x[10]

def setA0 (r : Registers) (w : Word) : Registers := { r with x := r.x.set 10 w }

def a7 (r : Registers) : Word := r.x[17]

/-- **The same registers, to resume in user mode with interrupts on.** -/
def forUser (r : Registers) : Registers := { r with sstatus := (r.sstatus ||| spie) &&& ~~~spp }

/-! ## The register file in memory -/

def size : Nat := 272

/-- The words of a register file in the order in which they are stored. -/
def words (r : Registers) : Vector Word 34 := r.x ++ #v[r.sepc, r.sstatus]

def ofWords (ws : Vector Word 34) : Registers := ⟨Vector.ofFn fun i => ws[i.val], ws[32], ws[33]⟩

theorem getElem_words (r : Registers) (i : Nat) (h : i < 32) : r.words[i] = r.x[i] :=
  Vector.getElem_append_left h

theorem getElem_words_sepc (r : Registers) : r.words[32] = r.sepc :=
  show (r.x ++ #v[r.sepc, r.sstatus])[32] = r.sepc from Vector.getElem_append_right (by decide) (by decide)

theorem getElem_words_sstatus (r : Registers) : r.words[33] = r.sstatus :=
  show (r.x ++ #v[r.sepc, r.sstatus])[33] = r.sstatus from Vector.getElem_append_right (by decide) (by decide)

/-- **Registers are read back from the words that they are stored as.** -/
theorem ofWords_words (r : Registers) : ofWords r.words = r := by
  obtain ⟨x, sepc, sstatus⟩ := r
  rw [ofWords, getElem_words_sepc, getElem_words_sstatus, mk.injEq]
  refine ⟨?_, rfl, rfl⟩
  apply Vector.ext
  intro i hi
  rw [Vector.getElem_ofFn, getElem_words _ _ hi]

/-- Any 34 words are those of a register file. -/
theorem words_ofWords (ws : Vector Word 34) : (ofWords ws).words = ws := by
  apply Vector.ext
  intro i hi
  by_cases h : i < 32
  · rw [getElem_words _ _ h, ofWords, Vector.getElem_ofFn]
  · obtain rfl | rfl : i = 32 ∨ i = 33 := by omega
    · exact getElem_words_sepc _
    · exact getElem_words_sstatus _

def encode (r : Registers) : Vector UInt8 272 := Word.pack r.words

def decode (bs : Vector UInt8 272) : Registers := ofWords (Word.unpack bs)

end Registers

/-- **What a page fault was**: the kernel writes it on the exception stack before an upcall. -/
structure FaultRecord where
  address : Word
  code : FaultCode
  regs : Registers
deriving DecidableEq

namespace FaultRecord

def size : Nat := 288

/-- The words of a record in the order in which they are stored. -/
def words (r : FaultRecord) : Vector Word 36 := #v[r.address, r.code.bits.toUInt64] ++ r.regs.words

/-- The code in a stored word: unnamed bits are dropped, and a word of more than 32 bits holds no code. -/
def codeOfWord (w : Word) : FaultCode := FaultCode.truncate (if w.toNat < 0x100000000 then w.toUInt32 else 0)

def ofWords (ws : Vector Word 36) : FaultRecord :=
  ⟨ws[0], codeOfWord ws[1], .ofWords (Vector.ofFn fun i => ws[i.val + 2])⟩

def encode (r : FaultRecord) : Vector UInt8 288 := Word.pack r.words

def decode (bs : Vector UInt8 288) : FaultRecord := ofWords (Word.unpack bs)

end FaultRecord
end Exokernel
