/-!
# Operators

The binary and unary operators and their texts.
-/

namespace PolyFront

inductive BinaryOp where
  | power
  | multiply
  | divide
  | modulus
  | add
  | subtract
  | shiftLeft
  | shiftRight
  | unsignedShiftRight
  | bitwiseAnd
  | bitwiseOr
  | bitwiseXor
  | lessThan
  | lessThanEqual
  | greaterThan
  | greaterThanEqual
  | equal
  | notEqual
  | booleanAnd
  | booleanOr
deriving DecidableEq, Repr, Inhabited

namespace BinaryOp

def all : List BinaryOp :=
  [.power, .multiply, .divide, .modulus, .add, .subtract, .shiftLeft, .shiftRight,
    .unsignedShiftRight, .bitwiseAnd, .bitwiseOr, .bitwiseXor, .lessThan, .lessThanEqual,
    .greaterThan, .greaterThanEqual, .equal, .notEqual, .booleanAnd, .booleanOr]

def render : BinaryOp → String
  | .power => "**"
  | .multiply => "*"
  | .divide => "/"
  | .modulus => "%"
  | .add => "+"
  | .subtract => "-"
  | .shiftLeft => "<<"
  | .shiftRight => ">>"
  | .unsignedShiftRight => ">>>"
  | .bitwiseAnd => "&"
  | .bitwiseOr => "|"
  | .bitwiseXor => "^"
  | .lessThan => "<"
  | .lessThanEqual => "<="
  | .greaterThan => ">"
  | .greaterThanEqual => ">="
  | .equal => "=="
  | .notEqual => "!="
  | .booleanAnd => "&&"
  | .booleanOr => "||"

/-- The operator of the given text. -/
def ofText? (text : String) : Option BinaryOp := all.find? fun op => op.render == text

end BinaryOp

inductive UnaryOp where
  | negate
  | booleanNot
  | bitwiseNot
deriving DecidableEq, Repr, Inhabited

namespace UnaryOp

def all : List UnaryOp := [.negate, .booleanNot, .bitwiseNot]

def render : UnaryOp → String
  | .negate => "-"
  | .booleanNot => "!"
  | .bitwiseNot => "~"

/-- The operator of the given text. -/
def ofText? (text : String) : Option UnaryOp := all.find? fun op => op.render == text

end UnaryOp

end PolyFront
