import PolyFront.Checking.Ascription

/-!
# Types of values

What is known about the types of names and operators, and how a mismatch is reported.
A name that was never given a type gets a fresh one.
-/

namespace PolyFront

/-- How a binary operator relates its operands. -/
inductive OperandRule where
  /-- Both operands share a type that the operator accepts. -/
  | shared (operand : Operand)
  /-- An integral value is shifted by an `Int`. -/
  | shift
  /-- Either operand may be a subtype of the other. -/
  | equality
deriving DecidableEq, Repr

def BinaryOp.operandRule : BinaryOp → OperandRule
  | .power | .multiply | .divide | .modulus | .add | .subtract => .shared .numeric
  | .shiftLeft | .shiftRight | .unsignedShiftRight => .shift
  | .bitwiseAnd | .bitwiseOr | .bitwiseXor => .shared .integralOrBoolean
  | .lessThan | .lessThanEqual | .greaterThan | .greaterThanEqual => .shared .numeric
  | .equal | .notEqual => .equality
  | .booleanAnd | .booleanOr => .shared .boolean

/-- Operators that give a `Boolean` instead of a value of their operand type. -/
def BinaryOp.isPredicate : BinaryOp → Bool
  | .lessThan | .lessThanEqual | .greaterThan | .greaterThanEqual => true
  | .equal | .notEqual | .booleanAnd | .booleanOr => true
  | _ => false

def UnaryOp.operand : UnaryOp → Operand
  | .negate => .numeric
  | .booleanNot => .boolean
  | .bitwiseNot => .integral

namespace Check

/-- A fresh type of values. -/
def freshType : Check Ty := Solve.freshType .type

/-- Report a mismatch in terms of what is known by now. -/
def reportMismatch (range : Range) (expected actual : Ty) : Check Unit := do
  let expected ← Solve.substituteType expected
  let actual ← Solve.substituteType actual
  report range (TypeError.mismatch expected actual).message

/-- Report an operand that an operator does not accept. -/
def reportOperand (range : Range) (expected : Operand) (actual : Ty) : Check Unit := do
  let actual ← Solve.substituteType actual
  report range (TypeError.mismatchedOperand expected actual).message

/-- Require that a value of the actual type can be used where the expected one is. -/
def requireUsable (range : Range) (expected actual : Ty) : Check Unit := do
  if !(← Solve.checkSubType actual expected) then reportMismatch range expected actual

/-- Require that what is written takes every value of the expected type. -/
def requireAccepting (range : Range) (expected written : Ty) : Check Unit := do
  if !(← Solve.checkSubType expected written) then reportMismatch range expected written

/-- Whether an operand of the given type is accepted. The candidates are tried in order. -/
def acceptsOperand (operand : Operand) (type : Ty) : Check Bool :=
  operand.candidates.anyM fun candidate =>
    (Solve.checkSubType type (.builtIn candidate) : Check Bool)

/-- The type that a value binding was given. -/
def boundType? (key : String) : Check (Option Ty) := do
  pure (((← get).store.stack.value? key).bind fun here => here.info.classifier.type?)

/-- The type of a resolved name. -/
def typeOfName (name : Name) : Check Ty := do
  if name.isNameless then freshType
  else
    match ← boundType? name.canonical with
    | some type => Solve.substituteType type
    | none => freshType

/-- Solve the placeholder that a declaration was given before it was checked. -/
def settlePlaceholder (key : String) (type : Ty) : Check Unit := do
  match ← boundType? key with
  | none => pure ()
  | some bound =>
    let type ← Solve.substituteType type
    match ← Solve.substituteType bound with
    | .unsolved id _ =>
      if !type.occurs id then
        modify fun s => { s with store := s.store.solveTypeOf key type }
    | _ => pure ()

/-- Bind a value under its local text. A declaration is bound under its canonical text too. -/
def bindValue (text : String) (here : Located Attributes) : Check Unit := do
  if here.info.name.declaration?.isSome then
    let key := here.info.name.canonical
    match here.info.classifier.type? with
    | some type => settlePlaceholder key type
    | none => pure ()
    Solve.putValue key here
  Solve.putValue text here

/-- A written type, and the type it stands for. A type that is left out is unknown. -/
def ascriptionOrFresh (node : Option (TypeNode Name)) :
    Check (Option (TypeNode Attributes) × Ty) := do
  match node with
  | some node =>
    let (node, type) ← ascription node
    pure (some node, type)
  | none => pure (none, ← freshType)

/-- Bind a parameter whose type is not known from the outside. -/
def inferParam (param : Param Name) : Check (Param Attributes) := do
  let (node, type) ← ascriptionOrFresh param.ascription
  let here := typed param.here type
  Solve.putValue param.name here
  pure ⟨here, param.name, node⟩

/-- Bind a parameter that is given values of the expected type. -/
def checkParam (param : Param Name) (expected : Ty) : Check (Param Attributes) := do
  let (node, type) ← match param.ascription with
    | some node => do
      let (node, type) ← ascription node
      requireAccepting param.here.range expected type
      pure (some node, type)
    | none => pure (none, expected)
  let here := typed param.here type
  Solve.putValue param.name here
  pure ⟨here, param.name, node⟩

def inferReference (node : Reference Name) : Check (Reference Attributes) := do
  pure ⟨typed node.here (← typeOfName node.here.info), node.id⟩

end Check

end PolyFront
