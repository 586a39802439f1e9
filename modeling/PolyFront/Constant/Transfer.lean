import PolyFront.Constant.Fold
import PolyFront.Lowered.Basic

/-!
# Operators and patterns on the lattice

What is known about the result of an operator, and which cases can be taken, when only
so much is known about the operands and the scrutinee.
-/

namespace PolyFront

namespace Lattice

def unary (op : UnaryOp) : Lattice → Lattice
  | .constant value => Fold.unary op value
  | .unassigned => .unassigned
  | _ => .nonConstant

/-- A left operand `false` decides `&&` and a left operand `true` decides `||`. Otherwise
both operands have to be constant for the result to be. -/
def binary (left : Lattice) (op : BinaryOp) (right : Lattice) : Lattice :=
  match left, op, right with
  | .constant (.boolean false), .booleanAnd, _ => .constant (.boolean false)
  | .constant (.boolean true), .booleanOr, _ => .constant (.boolean true)
  | .constant left, op, .constant right => Fold.binary left op right
  | .unassigned, _, _ => .unassigned
  | _, _, .unassigned => .unassigned
  | _, _, _ => .nonConstant

end Lattice

/-- Whether a pattern matches a value of which only so much is known. -/
inductive Matching where
  | always
  | maybe
  | never
deriving DecidableEq, Repr

namespace Lowered

/-- Patterns that match every value. -/
def Pattern.isIrrefutable : Pattern → Bool
  | .id _ => true
  | .alias _ pattern => pattern.isIrrefutable
  | .literal _ => false
  | .constructor _ _ => false

def Pattern.matching (scrutinee : Lattice) : Pattern → Matching
  | .id _ => .always
  | .alias _ pattern => pattern.matching scrutinee
  | .literal value =>
    match scrutinee with
    | .constant known => if known = value then .always else .never
    | _ => .maybe
  | .constructor name fields =>
    match scrutinee.constructor? with
    | some known =>
      if known = name then
        if fields.all fun field => field.pattern.isIrrefutable then .always else .maybe
      else .never
    | none => .maybe

/-- The items whose pattern may match a scrutinee, in order. The list stops at the first
one that is sure to match. -/
def candidates {β : Type} (pattern : β → Pattern) (scrutinee : Lattice) :
    List β → List (β × Matching)
  | [] => []
  | item :: rest =>
    match (pattern item).matching scrutinee with
    | .never => candidates pattern scrutinee rest
    | .maybe => (item, .maybe) :: candidates pattern scrutinee rest
    | .always => [(item, .always)]

end Lowered

end PolyFront
