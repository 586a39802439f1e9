import PolyFront.Literal
import PolyFront.Name.Basic

/-!
# The lattice of constants

What is known about the value of a name: nothing, one literal, one constructor, or
that it is no constant.  A constructor with unknown fields lies below the same
constructor without fields.
-/

namespace PolyFront

inductive Lattice where
  /-- Nothing is known yet, or no value is ever produced. -/
  | unassigned
  | constant (value : Literal)
  /-- Built by the constructor, with unknown fields. -/
  | known (constructor : ConstructorName)
  /-- Always the constructor without fields. -/
  | constantConstructor (constructor : ConstructorName)
  | nonConstant
deriving DecidableEq, Repr, Inhabited

inductive Comparison where
  | less
  | equal
  | greater
  | incomparable
deriving DecidableEq, Repr, Inhabited

namespace Comparison

def sign? : Comparison → Option Int
  | .less => some (-1)
  | .equal => some 0
  | .greater => some 1
  | .incomparable => none

def flip : Comparison → Comparison
  | .less => .greater
  | .greater => .less
  | other => other

end Comparison

namespace Lattice

def compare (left right : Lattice) : Comparison :=
  if left = right then .equal
  else
    match left, right with
    | .unassigned, _ => .less
    | _, .nonConstant => .less
    | _, .unassigned => .greater
    | .nonConstant, _ => .greater
    | .known a, .constantConstructor b => if a = b then .less else .incomparable
    | .constantConstructor a, .known b => if a = b then .greater else .incomparable
    | _, _ => .incomparable

/-- The least value above both. -/
def join (left right : Lattice) : Lattice :=
  match left.compare right with
  | .incomparable => .nonConstant
  | .less => right
  | .equal => left
  | .greater => left

def constant? : Lattice → Option Literal
  | .constant value => some value
  | _ => none

/-- The constructor that builds every value, if there is one. -/
def constructor? : Lattice → Option ConstructorName
  | .known name => some name
  | .constantConstructor name => some name
  | _ => none

end Lattice

end PolyFront
