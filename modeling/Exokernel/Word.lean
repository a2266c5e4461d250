import Exokernel.LittleEndian
/-!
# Machine words

Registers and call arguments are 64-bit words.  A word that holds a result is read as a signed number; a word in
memory is eight bytes.  Main statements: `unpack_pack` and `pack_unpack`, by which words in registers and words in
memory determine each other.
-/
namespace Exokernel

abbrev Word := UInt64

/-- Data that moves between memory and a program. -/
abbrev Bytes := Array UInt8

namespace Word

def signed (w : Word) : Int :=
  if w.toNat < 0x8000000000000000 then w.toNat else (w.toNat : Int) - 0x10000000000000000

/-- Byte `i` of a word, the lowest first. -/
def byte (w : Word) (i : Nat) : UInt8 := LittleEndian.byte w.toNat i

/-- The word whose byte `i` is `b i`. -/
def ofBytes (b : Fin 8 → UInt8) : Word := (LittleEndian.decode (List.ofFn b)).toUInt64

/-- The bytes of `n` words one after another. -/
def pack {n : Nat} (ws : Vector Word n) : Vector UInt8 (8 * n) :=
  Vector.ofFn fun i => byte ws[i.val / 8] (i.val % 8)

/-- The `n` words that lie one after another in `8 * n` bytes. -/
def unpack {n : Nat} (bs : Vector UInt8 (8 * n)) : Vector Word n :=
  Vector.ofFn fun j => ofBytes fun i => bs[8 * j.val + i.val]

theorem toNat_ofBytes (b : Fin 8 → UInt8) : (ofBytes b).toNat = LittleEndian.decode (List.ofFn b) := by
  have h := LittleEndian.decode_lt (List.ofFn b)
  rw [List.length_ofFn] at h
  exact UInt64.toNat_ofNat_of_lt h

theorem ofBytes_byte (w : Word) : ofBytes (fun i => byte w i.val) = w := by
  apply UInt64.toNat_inj.1
  rw [toNat_ofBytes]
  exact (LittleEndian.decode_bytes 8 w.toNat).trans (Nat.mod_eq_of_lt w.toNat_lt)

theorem byte_ofBytes (b : Fin 8 → UInt8) (i : Fin 8) : byte (ofBytes b) i.val = b i := by
  rw [byte, toNat_ofBytes, LittleEndian.byte_decode _ _ (by simp), List.getElem_ofFn]

theorem getElem_pack {n : Nat} (ws : Vector Word n) (i : Nat) (h : i < 8 * n) :
    (pack ws)[i] = byte ws[i / 8] (i % 8) := by
  simp [pack]

theorem getElem_unpack {n : Nat} (bs : Vector UInt8 (8 * n)) (j : Nat) (h : j < n) :
    (unpack bs)[j] = ofBytes fun i => bs[8 * j + i.val] := by
  simp [unpack]

/-- **Words are read back from the bytes that they are stored in.** -/
theorem unpack_pack {n : Nat} (ws : Vector Word n) : unpack (pack ws) = ws := by
  apply Vector.ext
  intro j hj
  have e : (fun i : Fin 8 => (pack ws)[8 * j + i.val]) = fun i : Fin 8 => byte ws[j] i.val := by
    funext i
    have h₁ : (8 * j + i.val) / 8 = j := by omega
    have h₂ : (8 * j + i.val) % 8 = i.val := by omega
    simp only [getElem_pack, h₁, h₂]
  rw [getElem_unpack, e, ofBytes_byte]

/-- **Bytes are stored again as they were read.** -/
theorem pack_unpack {n : Nat} (bs : Vector UInt8 (8 * n)) : pack (unpack bs) = bs := by
  apply Vector.ext
  intro i hi
  have h : 8 * (i / 8) + i % 8 = i := by omega
  rw [getElem_pack, getElem_unpack, byte_ofBytes _ ⟨i % 8, by omega⟩]
  simp only [h]

end Word

/-! ## Numbers of 32 bits -/

def leBytes32 (v : UInt32) : Bytes := Array.ofFn fun i : Fin 4 => LittleEndian.byte v.toNat i.val

/-- The 32-bit number in the first four bytes; absent bytes count as zero. -/
def ofLeBytes32 (b : Bytes) : UInt32 :=
  (LittleEndian.decode (List.ofFn fun i : Fin 4 => b.getD i.val 0)).toUInt32

end Exokernel
