import PolyFront.Constant.Lattice
import PolyFront.Number.Arithmetic
import PolyFront.Operator

/-!
# Folding operators

Operators on literal operands.  Integer arithmetic wraps and shift amounts are taken
modulo the width.  An integer division by zero never produces a value; operands of the
wrong type are not folded.
-/

namespace PolyFront

namespace Fold

/-- A power by repeated squaring. -/
def power {α : Type} [Mul α] [OfNat α 1] (base : α) (exponent : Nat) : α :=
  if exponent = 0 then 1
  else
    let rest := power (base * base) (exponent / 2)
    if exponent % 2 = 1 then base * rest else rest
termination_by exponent
decreasing_by omega

/-- An operation of each numeric type. Integer operations may have no result. -/
structure Arithmetic where
  int : Int32 → Int32 → Option Int32
  long : Int64 → Int64 → Option Int64
  float : Nat → Nat → Nat
  double : Nat → Nat → Nat

namespace Arithmetic

def multiply : Arithmetic where
  int l r := some (l * r)
  long l r := some (l * r)
  float l r := BinaryFormat.single.propagate l r (liftSingle (· * ·))
  double l r := BinaryFormat.double.propagate l r (liftDouble (· * ·))

/-- The quotient is rounded towards zero. -/
def divide : Arithmetic where
  int l r := if r = 0 then none else some (l / r)
  long l r := if r = 0 then none else some (l / r)
  float l r := BinaryFormat.single.propagate l r (liftSingle (· / ·))
  double l r := BinaryFormat.double.propagate l r (liftDouble (· / ·))

/-- The remainder has the sign of the left operand. -/
def modulus : Arithmetic where
  int l r := if r = 0 then none else some (l % r)
  long l r := if r = 0 then none else some (l % r)
  float := BinaryFormat.single.remainder
  double := BinaryFormat.double.remainder

def add : Arithmetic where
  int l r := some (l + r)
  long l r := some (l + r)
  float l r := BinaryFormat.single.propagate l r (liftSingle (· + ·))
  double l r := BinaryFormat.double.propagate l r (liftDouble (· + ·))

def subtract : Arithmetic where
  int l r := some (l - r)
  long l r := some (l - r)
  float l r := BinaryFormat.single.propagate l r (liftSingle (· - ·))
  double l r := BinaryFormat.double.propagate l r (liftDouble (· - ·))

/-- Both operands have the same numeric type. -/
def fold (ops : Arithmetic) : Literal → Literal → Lattice
  | .int l, .int r => ((ops.int l r).map fun v => Lattice.constant (.int v)).getD .unassigned
  | .long l, .long r =>
    ((ops.long l r).map fun v => Lattice.constant (.long v)).getD .unassigned
  | .float l, .float r => .constant (.float (ops.float l.toNat r.toNat).toUInt32)
  | .double l, .double r => .constant (.double (ops.double l.toNat r.toNat).toUInt64)
  | _, _ => .nonConstant

end Arithmetic

/-- The exponent of an integer power is a number of 32 bits without sign. -/
def exponent? (value : Int) : Option Nat :=
  if 0 ≤ value && value < 4294967296 then some value.toNat else none

def foldPower : Literal → Literal → Lattice
  | .int l, .int r =>
    ((exponent? r.toInt).map fun n => Lattice.constant (.int (power l n))).getD .nonConstant
  | .long l, .long r =>
    ((exponent? r.toInt).map fun n => Lattice.constant (.long (power l n))).getD .nonConstant
  | .float l, .float r =>
    .constant (.float
      (powerBits .single (liftSingle Float32.pow) l.toNat r.toNat).toUInt32)
  | .double l, .double r =>
    .constant (.double (powerBits .double (liftDouble Float.pow) l.toNat r.toNat).toUInt64)
  | _, _ => .nonConstant

/-- The shifted value may be an `Int` or a `Long`; the amount is an `Int`. -/
def foldShift (int : Int32 → Int32 → Int32) (long : Int64 → Int64 → Int64) :
    Literal → Literal → Lattice
  | .int l, .int r => .constant (.int (int l r))
  | .long l, .int r => .constant (.long (long l r.toInt64))
  | _, _ => .nonConstant

def foldBitwise (int : Int32 → Int32 → Int32) (long : Int64 → Int64 → Int64)
    (boolean : Bool → Bool → Bool) : Literal → Literal → Lattice
  | .int l, .int r => .constant (.int (int l r))
  | .long l, .long r => .constant (.long (long l r))
  | .boolean l, .boolean r => .constant (.boolean (boolean l r))
  | _, _ => .nonConstant

/-- A comparison of each numeric type. -/
def foldComparison (int : Int → Int → Bool) (float : Float32 → Float32 → Bool)
    (double : Float → Float → Bool) : Literal → Literal → Lattice
  | .int l, .int r => .constant (.boolean (int l.toInt r.toInt))
  | .long l, .long r => .constant (.boolean (int l.toInt r.toInt))
  | .float l, .float r => .constant (.boolean (float (Float32.ofBits l) (Float32.ofBits r)))
  | .double l, .double r => .constant (.boolean (double (Float.ofBits l) (Float.ofBits r)))
  | _, _ => .nonConstant

def foldBoolean (boolean : Bool → Bool → Bool) : Literal → Literal → Lattice
  | .boolean l, .boolean r => .constant (.boolean (boolean l r))
  | _, _ => .nonConstant

/-- The value of a unary operator on a literal. -/
def unary : UnaryOp → Literal → Lattice
  | .negate, .int v => .constant (.int (-v))
  | .negate, .long v => .constant (.long (-v))
  | .negate, .float v => .constant (.float (BinaryFormat.single.negate v.toNat).toUInt32)
  | .negate, .double v => .constant (.double (BinaryFormat.double.negate v.toNat).toUInt64)
  | .booleanNot, .boolean v => .constant (.boolean (!v))
  | .bitwiseNot, .int v => .constant (.int (~~~v))
  | .bitwiseNot, .long v => .constant (.long (~~~v))
  | _, _ => .nonConstant

/-- The value of a binary operator on two literals. -/
def binary (left : Literal) (op : BinaryOp) (right : Literal) : Lattice :=
  match op with
  | .power => foldPower left right
  | .multiply => Arithmetic.multiply.fold left right
  | .divide => Arithmetic.divide.fold left right
  | .modulus => Arithmetic.modulus.fold left right
  | .add => Arithmetic.add.fold left right
  | .subtract => Arithmetic.subtract.fold left right
  | .shiftLeft => foldShift (· <<< ·) (· <<< ·) left right
  | .shiftRight => foldShift (· >>> ·) (· >>> ·) left right
  | .unsignedShiftRight =>
    foldShift (fun l r => (l.toUInt32 >>> r.toUInt32).toInt32)
      (fun l r => (l.toUInt64 >>> r.toUInt64).toInt64) left right
  | .bitwiseAnd => foldBitwise (· &&& ·) (· &&& ·) (· && ·) left right
  | .bitwiseOr => foldBitwise (· ||| ·) (· ||| ·) (· || ·) left right
  | .bitwiseXor => foldBitwise (· ^^^ ·) (· ^^^ ·) xor left right
  | .lessThan => foldComparison (· < ·) (· < ·) (· < ·) left right
  | .lessThanEqual => foldComparison (· ≤ ·) (· ≤ ·) (· ≤ ·) left right
  | .greaterThan => foldComparison (· > ·) (· > ·) (· > ·) left right
  | .greaterThanEqual => foldComparison (· ≥ ·) (· ≥ ·) (· ≥ ·) left right
  | .equal => .constant (.boolean (left == right))
  | .notEqual => .constant (.boolean (left != right))
  | .booleanAnd => foldBoolean (· && ·) left right
  | .booleanOr => foldBoolean (· || ·) left right

end Fold

end PolyFront
