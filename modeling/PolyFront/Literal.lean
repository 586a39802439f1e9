import PolyFront.Number.Shortest
import PolyFront.Text.Quoted
import PolyFront.Ty.BuiltIn

/-!
# Literals

Literal values.  Floating point literals are their bit patterns, so that equality
tells apart the two zeros and does not depend on what is a number.
-/

namespace PolyFront

inductive Literal where
  | boolean (value : Bool)
  | char (value : Char)
  | string (value : String)
  | int (value : Int32)
  | long (value : Int64)
  | float (bits : UInt32)
  | double (bits : UInt64)
deriving DecidableEq, Repr, Inhabited

namespace Literal

def type : Literal → BuiltIn
  | .boolean _ => .boolean
  | .char _ => .char
  | .string _ => .string
  | .int _ => .int
  | .long _ => .long
  | .float _ => .float
  | .double _ => .double

def boolean? : Literal → Option Bool
  | .boolean value => some value
  | _ => none

/-- How the literal is written: long and float literals have a suffix. -/
def render : Literal → String
  | .boolean value => if value then "true" else "false"
  | .char value => Quoted.encode '\'' [value]
  | .string value => Quoted.encode '"' value.toList
  | .int value => toString value.toInt
  | .long value => toString value.toInt ++ "L"
  | .float bits => Decimal.renderBits .single bits.toNat ++ "F"
  | .double bits => Decimal.renderBits .double bits.toNat

end Literal

end PolyFront
