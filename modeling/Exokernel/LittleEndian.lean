/-!
# Little-endian numbers

In memory a number is a run of bytes, the lowest first.  Main statements: `byte_decode` and `decode_bytes`, by which
a number and its bytes determine each other.
-/
namespace Exokernel.LittleEndian

/-- Byte `i` of a number. -/
def byte (v : Nat) : Nat → UInt8
  | 0 => v.toUInt8
  | i + 1 => byte (v / 256) i

/-- The number whose digits to the base 256 are the bytes. -/
def decode : List UInt8 → Nat
  | [] => 0
  | b :: bs => b.toNat + 256 * decode bs

/-- How many numbers `n` bytes can hold. -/
def span : Nat → Nat
  | 0 => 1
  | n + 1 => 256 * span n

theorem toNat_byte_zero (v : Nat) : (byte v 0).toNat = v % 256 := by simp [byte]

theorem decode_lt : ∀ bs : List UInt8, decode bs < span bs.length
  | [] => Nat.one_pos
  | b :: bs => by
    have := decode_lt bs
    have := b.toNat_lt
    simp only [decode, List.length_cons, span]
    omega

/-- **The bytes of a number are those that it was made of.** -/
theorem byte_decode : ∀ (bs : List UInt8) (i : Nat) (h : i < bs.length), byte (decode bs) i = bs[i]
  | b :: bs, 0, _ => by
    have := b.toNat_lt
    apply UInt8.toNat_inj.1
    simp only [toNat_byte_zero, decode, List.getElem_cons_zero]
    omega
  | b :: bs, i + 1, h => by
    have := b.toNat_lt
    have e : decode (b :: bs) / 256 = decode bs := by simp only [decode]; omega
    rw [byte, e, List.getElem_cons_succ]
    exact byte_decode bs i (by simpa using h)

/-- **The lowest `n` bytes of a number make up its remainder** by the number of numbers that they can hold. -/
theorem decode_bytes (n v : Nat) : decode (List.ofFn fun i : Fin n => byte v i.val) = v % span n := by
  induction n generalizing v with
  | zero => simp [decode, span, Nat.mod_one]
  | succ n ih =>
    have e : (fun i : Fin n => byte v i.succ.val) = fun i : Fin n => byte (v / 256) i.val := rfl
    rw [List.ofFn_succ, decode, e, ih, span, Nat.mod_mul, Fin.val_zero, toNat_byte_zero]

end Exokernel.LittleEndian
