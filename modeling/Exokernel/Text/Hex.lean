/-!
# Hexadecimal text

Numbers in this library are shown in lowercase hexadecimal in three widths: bare digits, digits filled up to a
width, and an address, which is `0x` and at least eight digits.
-/
namespace Exokernel.Hex

/-- The digits of a number, without leading zeros; zero is `0`. -/
def digits (n : Nat) : String := String.ofList (Nat.toDigits 16 n)

/-- The digits of a number, filled with zeros on the left to at least `width`. -/
def padded (width n : Nat) : String :=
  let ds := Nat.toDigits 16 n
  String.ofList (List.replicate (width - ds.length) '0' ++ ds)

/-- A number with its `0x`, no filling. -/
def short (n : Nat) : String := "0x" ++ digits n

/-- **An address is `0x` and at least eight digits.** -/
def address (n : Nat) : String := "0x" ++ padded 8 n

end Exokernel.Hex
