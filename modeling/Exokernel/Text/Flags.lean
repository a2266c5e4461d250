import Exokernel.Text.Hex
/-!
# The text of a set of flags

A flag has a name and one or more bits, and two flags may share bits.  A value is described by walking the flags in
their order: a flag is named if the value has all its bits and one of them has not been named yet.  Bits that no flag
names come last, as a number.
-/
namespace Exokernel

/-- A named, nonempty set of bits. -/
structure Flag where
  name : String
  bits : UInt32

namespace Flag

/-- The parts of the description of `value`, of which the bits `rest` are still unnamed. -/
def parts (value : UInt32) : List Flag → UInt32 → List String
  | [], rest => if rest == 0 then [] else [Hex.short rest.toNat]
  | f :: fs, rest =>
    if value &&& f.bits == f.bits && rest &&& f.bits != 0 then
      f.name :: parts value fs (rest &&& ~~~f.bits)
    else parts value fs rest

/-- **A value in words**: the names of its flags joined by bars, in parentheses after the name of its type. -/
def describe (type : String) (flags : List Flag) (value : UInt32) : String :=
  let inside := match parts value flags value with
    | [] => "0x0"
    | ps => String.intercalate " | " ps
  type ++ "(" ++ inside ++ ")"

end Flag
end Exokernel
