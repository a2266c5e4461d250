/-!
# Quoted text

A quoted text stands between quotation marks; a quotation mark or a backslash in it has a backslash before it, the
usual control characters have their names, and the other ones are written as their numbers.
-/
namespace Exokernel.Quoted

/-- A control character without a name. -/
def encodeControl (c : Char) : List Char := ['\\', 'u', '\x7b'] ++ Nat.toDigits 16 c.toNat ++ ['\x7d']

def encodeChar : Char → List Char
  | '"' => ['\\', '"']
  | '\\' => ['\\', '\\']
  | '\n' => ['\\', 'n']
  | '\r' => ['\\', 'r']
  | '\t' => ['\\', 't']
  | '\x00' => ['\\', '0']
  | c => if c.toNat < 0x20 ∨ c.toNat = 0x7f then encodeControl c else [c]

/-- The text in quotation marks. -/
def encode (s : String) : String := "\"" ++ String.ofList (s.toList.flatMap encodeChar) ++ "\""

end Exokernel.Quoted
