import PolyFront.Text.ExtendingMark
import PolyFront.Text.Unprintable

/-!
# Quoted text

Characters between quotes, where the quote itself, backslashes and characters that
could not be read on their own are written as escapes.
-/

namespace PolyFront

namespace Quoted

/-- The hexadecimal code point in braces. -/
def escapeCode (c : Char) : List Char :=
  "\\u\x7b".toList ++ Nat.toDigits 16 c.toNat ++ ['\x7d']

/-- One character between quotes of the given kind. -/
def encodeChar (quote c : Char) : List Char :=
  if c = '\x00' then ['\\', '0']
  else if c = '\t' then ['\\', 't']
  else if c = '\r' then ['\\', 'r']
  else if c = '\n' then ['\\', 'n']
  else if c = '\\' || c = quote then ['\\', c]
  else if 0x20 ≤ c.toNat && c.toNat < 0x7f then [c]
  else if ExtendingMark.holds c || Unprintable.holds c then escapeCode c
  else [c]

/-- Text between quotes of the given kind. -/
def encode (quote : Char) (text : List Char) : String :=
  String.ofList (quote :: text.flatMap (encodeChar quote) ++ [quote])

end Quoted

end PolyFront
