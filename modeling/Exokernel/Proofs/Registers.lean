import Mathlib.Data.Nat.Bitwise
import Exokernel.Registers
/-!
# Register files and fault records in memory

Both are stored as words, each with its lowest byte first.  A register file is read as it was stored and stored as it
was read, and so is a fault record but for its code: bits without a name are lost, and a word that is wider than a code
counts as none.  Main statement: `stored_without_loss`.
-/
namespace Exokernel

/-- Byte `i` of a number is its digit at that place. -/
theorem LittleEndian.toNat_byte (v i : Nat) : (byte v i).toNat = v / 256 ^ i % 256 := by
  induction i generalizing v with
  | zero => rw [toNat_byte_zero, Nat.pow_zero, Nat.div_one]
  | succ i ih => rw [byte, ih, Nat.div_div_eq_div_mul, ← Nat.pow_succ']

/-- **Words are stored one after another, each with its lowest byte first.** -/
theorem Word.toNat_getElem_pack {n : Nat} (ws : Vector Word n) (j : Fin n) (i : Fin 8) (h : 8 * j.val + i.val < 8 * n) :
    (pack ws)[8 * j.val + i.val].toNat = ws[j].toNat / 256 ^ i.val % 256 := by
  have h₁ : (8 * j.val + i.val) / 8 = j.val := by omega
  have h₂ : (8 * j.val + i.val) % 8 = i.val := by omega
  rw [getElem_pack, byte, LittleEndian.toNat_byte]
  simp only [h₁, h₂, Fin.getElem_fin]

namespace Registers

/-- **Registers are read as they were stored.** -/
theorem decode_encode (r : Registers) : decode r.encode = r :=
  (congrArg ofWords (Word.unpack_pack r.words)).trans (ofWords_words r)

/-- **Registers are stored as they were read.** -/
theorem encode_decode (bs : Vector UInt8 272) : (decode bs).encode = bs := by
  have hw : (decode bs).words = Word.unpack (n := 34) bs := words_ofWords _
  rw [encode, hw]
  exact Word.pack_unpack (n := 34) bs

end Registers

namespace FaultCode

/-- Each bit of the code is that of a flag. -/
def Named (c : FaultCode) : Prop := ∀ i, c.bits.toNat.testBit i → ∃ f ∈ flags, f.bits.toNat = 2 ^ i

theorem toNat_bits_truncate (raw : UInt32) : (truncate raw).bits.toNat = raw.toNat % 2 ^ 3 := by
  rw [truncate, UInt32.toNat_and]
  exact Nat.and_two_pow_sub_one_eq_mod raw.toNat 3

/-- The flags are the lowest three bits. -/
theorem named_iff {c : FaultCode} : c.Named ↔ c.bits.toNat < 2 ^ 3 := by
  constructor
  · intro h
    apply Nat.lt_pow_two_of_testBit
    intro i hi
    by_contra hb
    obtain ⟨f, hf, hbits⟩ := h i (by simpa using hb)
    have hhigh : 2 ^ 3 ≤ 2 ^ i := Nat.pow_le_pow_right (by decide) hi
    rw [← hbits] at hhigh
    simp only [flags, List.mem_cons, List.not_mem_nil, or_false] at hf
    rcases hf with rfl | rfl | rfl <;> revert hhigh <;> decide
  · intro h i hi
    have hlow : 2 ^ i < 2 ^ 3 := Nat.lt_of_le_of_lt (Nat.ge_two_pow_of_testBit hi) h
    match i, (Nat.pow_lt_pow_iff_right (by decide)).1 hlow with
    | 0, _ => exact ⟨_, .head _, rfl⟩
    | 1, _ => exact ⟨_, .tail _ (.head _), rfl⟩
    | 2, _ => exact ⟨_, .tail _ (.tail _ (.head _)), rfl⟩

theorem Named.truncate_eq {c : FaultCode} (h : c.Named) : truncate c.bits = c := by
  have ht := toNat_bits_truncate c.bits
  rw [Nat.mod_eq_of_lt (named_iff.1 h)] at ht
  obtain ⟨bits⟩ := c
  exact congrArg FaultCode.mk (UInt32.toNat_inj.1 ht)

end FaultCode

namespace FaultRecord

theorem getElem_words_address (r : FaultRecord) (h : 0 < 36) : r.words[0] = r.address :=
  Vector.getElem_append_left (by decide)

theorem getElem_words_code (r : FaultRecord) (h : 1 < 36) : r.words[1] = r.code.bits.toUInt64 :=
  Vector.getElem_append_left (by decide)

theorem getElem_words_regs (r : FaultRecord) (i : Nat) (h : i < 34) : r.words[i + 2] = r.regs.words[i] :=
  Vector.getElem_append_right (by omega) (by omega)

/-- **The registers in a record are read back.** -/
theorem regs_decode_encode (r : FaultRecord) : (decode r.encode).regs = r.regs := by
  have hw : decode r.encode = ofWords r.words := congrArg ofWords (Word.unpack_pack r.words)
  have hv : (Vector.ofFn fun i : Fin 34 => r.words[i.val + 2]) = r.regs.words := by
    apply Vector.ext
    intro i hi
    rw [Vector.getElem_ofFn]
    exact r.getElem_words_regs i hi
  rw [hw, ofWords]
  exact (congrArg Registers.ofWords hv).trans (Registers.ofWords_words r.regs)

/-- **A record is read back as it was written**, if its code is made of named bits. -/
theorem decode_encode (r : FaultRecord) (hc : FaultCode.truncate r.code.bits = r.code) : decode r.encode = r := by
  have hw : decode r.encode = ofWords r.words := congrArg ofWords (Word.unpack_pack r.words)
  have hcode : codeOfWord r.code.bits.toUInt64 = r.code := by
    rw [codeOfWord, if_pos (by rw [UInt32.toNat_toUInt64]; exact r.code.bits.toNat_lt)]
    rw [UInt32.toUInt32_toUInt64, hc]
  have hregs := r.regs_decode_encode
  rw [hw] at hregs ⊢
  have hparts : ofWords r.words = ⟨r.words[0], codeOfWord r.words[1], (ofWords r.words).regs⟩ := rfl
  rw [hparts, hregs, r.getElem_words_address (by decide), r.getElem_words_code (by decide), hcode]

/-! ## Bytes that are no record's -/

/-- The word in the place of the code: the bytes from eight to fifteen. -/
def codeWord (bs : Vector UInt8 288) : Word := Word.ofBytes fun i => bs[8 + i.val]

variable (bs bs' : Vector UInt8 288)

theorem codeWord_eq_unpack (h : 1 < 36) : codeWord bs = (Word.unpack (n := 36) bs)[1] :=
  (Word.getElem_unpack (n := 36) bs 1 h).symm

/-- The word in the place of the code is the same just when its bytes are. -/
theorem codeWord_eq_iff :
    codeWord bs = codeWord bs' ↔ ∀ (i : Nat) (h : i < 288), 8 ≤ i → i < 16 → bs[i] = bs'[i] := by
  constructor
  · intro h i hi hlow hhigh
    have hb := Word.byte_ofBytes (fun i : Fin 8 => bs[8 + i.val]) ⟨i - 8, by omega⟩
    have hb' := Word.byte_ofBytes (fun i : Fin 8 => bs'[8 + i.val]) ⟨i - 8, by omega⟩
    have he : 8 + (i - 8) = i := by omega
    simp only [he] at hb hb'
    rw [← hb, ← hb']
    exact congrArg (Word.byte · (i - 8)) h
  · intro h
    refine congrArg Word.ofBytes (funext fun i => ?_)
    exact h (8 + i.val) (by omega) (by omega) (by omega)

/-- Only the code of a record is not stored as it was read. -/
theorem getElem_words_ofWords (ws : Vector Word 36) (j : Nat) (h : j < 36) (hj : j ≠ 1) :
    (ofWords ws).words[j] = ws[j] := by
  match j, hj with
  | 0, _ => exact getElem_words_address _ h
  | j + 2, _ =>
    rw [getElem_words_regs _ j (by omega)]
    show (Registers.ofWords _).words[j] = _
    simp only [Registers.words_ofWords, Vector.getElem_ofFn]

theorem getElem_encode_decode {i : Nat} (h : i < 288) (hi : ¬ (8 ≤ i ∧ i < 16)) : (decode bs).encode[i] = bs[i] := by
  have hw := getElem_words_ofWords (Word.unpack (n := 36) bs) (i / 8) (by omega) (by omega)
  have hpack := Word.getElem_pack (n := 36) (decode bs).words i h
  have hback := Word.getElem_pack (n := 36) (Word.unpack bs) i h
  have hid : (Word.pack (Word.unpack (n := 36) bs))[i] = bs[i] := by simp only [Word.pack_unpack]
  exact hpack.trans ((congrArg (Word.byte · (i % 8)) hw).trans (hback.symm.trans hid))

theorem codeWord_encode (r : FaultRecord) : codeWord r.encode = r.code.bits.toUInt64 := by
  have hid : Word.unpack (n := 36) r.encode = r.words := Word.unpack_pack r.words
  rw [codeWord_eq_unpack _ (by decide)]
  simp only [hid, getElem_words_code]

theorem toNat_bits_codeOfWord (w : Word) :
    (codeOfWord w).bits.toNat = if w.toNat < 2 ^ 32 then w.toNat % 2 ^ 3 else 0 := by
  rw [codeOfWord, FaultCode.toNat_bits_truncate]
  show (if w.toNat < 2 ^ 32 then w.toUInt32 else 0).toNat % 2 ^ 3 = _
  split
  · rw [UInt64.toNat_toUInt32]
    omega
  · rfl

/-- **What becomes of the word in the place of the code**: its lowest three bits are left, and none if it is wider than a
code. -/
theorem toNat_codeWord_encode_decode : (codeWord (decode bs).encode).toNat =
    if (codeWord bs).toNat < 2 ^ 32 then (codeWord bs).toNat % 2 ^ 3 else 0 := by
  have hcode : (decode bs).code = codeOfWord (codeWord bs) := by
    rw [codeWord_eq_unpack _ (by decide)]
    rfl
  rw [codeWord_encode, hcode, UInt32.toNat_toUInt64, toNat_bits_codeOfWord]

/-- The word in the place of the code is left as it is just when it has no other bits than the lowest three. -/
theorem codeWord_encode_decode_eq_iff : codeWord (decode bs).encode = codeWord bs ↔ codeWord bs ≤ 7 := by
  have hw := toNat_codeWord_encode_decode bs
  have hle : codeWord bs ≤ 7 ↔ (codeWord bs).toNat ≤ 7 := UInt64.le_iff_toNat_le
  rw [← UInt64.toNat_inj, hle, hw]
  split <;> omega

end FaultRecord

open FaultRecord (codeWord)

/-- **Register files and fault records go through memory without loss**, but for a code with bits that have no name. -/
theorem stored_without_loss :
    (∀ r : Registers, Registers.decode r.encode = r) ∧
    (∀ bs : Vector UInt8 272, (Registers.decode bs).encode = bs) ∧
    (∀ (r : Registers) (j : Fin 34) (i : Fin 8), r.encode[8 * j.val + i.val].toNat = r.words[j].toNat / 256 ^ i.val % 256) ∧
    (∀ r : FaultRecord, r.code.Named → FaultRecord.decode r.encode = r) ∧
    (∀ (r : FaultRecord) (j : Fin 36) (i : Fin 8),
      r.encode[8 * j.val + i.val].toNat = r.words[j].toNat / 256 ^ i.val % 256) ∧
    ∀ bs : Vector UInt8 288,
      (∀ (i : Nat) (h : i < 288), ¬ (8 ≤ i ∧ i < 16) → (FaultRecord.decode bs).encode[i] = bs[i]) ∧
      ((∀ (i : Nat) (h : i < 288), 8 ≤ i → i < 16 → (FaultRecord.decode bs).encode[i] = bs[i]) ↔ codeWord bs ≤ 7) ∧
      codeWord (FaultRecord.decode bs).encode = if (codeWord bs).toNat < 2 ^ 32 then codeWord bs &&& 7 else 0 := by
  refine ⟨Registers.decode_encode, Registers.encode_decode, fun r j i => Word.toNat_getElem_pack r.words j i _,
    fun r hc => r.decode_encode hc.truncate_eq, fun r j i => Word.toNat_getElem_pack r.words j i _, fun bs => ⟨?_, ?_, ?_⟩⟩
  · intro i h hi
    exact FaultRecord.getElem_encode_decode bs h hi
  · rw [← FaultRecord.codeWord_eq_iff]
    exact FaultRecord.codeWord_encode_decode_eq_iff bs
  · apply UInt64.toNat_inj.1
    rw [FaultRecord.toNat_codeWord_encode_decode]
    split
    · rw [UInt64.toNat_and]
      exact (Nat.and_two_pow_sub_one_eq_mod (codeWord bs).toNat 3).symm
    · rfl

/-- A record of a write to a present page is read back, and of bytes that are no record's the code is lost. -/
theorem stored_without_loss_nines :
    let r : FaultRecord := ⟨0x10000000, .present ||| .write ||| .user, .fresh⟩
    let bs : Vector UInt8 288 := Vector.replicate 288 9
    r.code.Named ∧ FaultRecord.decode r.encode = r ∧ (FaultRecord.decode bs).encode[16] = bs[16] ∧
      ¬ (codeWord bs).toNat < 2 ^ 32 ∧ codeWord (FaultRecord.decode bs).encode = 0 := by
  intro r bs
  obtain ⟨-, -, -, hrecord, -, hbytes⟩ := stored_without_loss
  obtain ⟨hrest, -, hcode⟩ := hbytes bs
  have hr : r.code.Named := FaultCode.named_iff.2 (by decide)
  have hw : ¬ (codeWord bs).toNat < 2 ^ 32 := by decide +kernel
  rw [if_neg hw] at hcode
  exact ⟨hr, hrecord r hr, hrest 16 (by decide) (by decide), hw, hcode⟩

end Exokernel
