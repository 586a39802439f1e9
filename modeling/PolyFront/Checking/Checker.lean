import PolyFront.Checking.Subtype
import PolyFront.Source.Log
import PolyFront.Tree.Traverse

/-!
# The state of checking

Checking works on a store of solutions and reports to a log.  An error never stops a
check: it carries on with whatever kinds and types it has.
-/

namespace PolyFront

structure Checker where
  /-- The source that diagnostics are about. -/
  uri : String
  log : Log
  store : Store

/-- Nothing checked yet. -/
def Checker.start (uri : String) : Checker := ⟨uri, Log.empty, Store.start⟩

abbrev Check (α : Type) : Type := Run Checker α

/-- Work on the store. -/
instance : MonadLift (EStateM Fault Store) (EStateM Fault Checker) where
  monadLift run := Run.within Checker.store (fun store s => { s with store := store }) run

inductive KindError where
  | mismatch (expected actual : Kind)
  | mismatchedApplication (expected actual : Kind)
deriving Repr

def KindError.message : KindError → String
  | .mismatch expected actual =>
    "Mismatched kind! Expected: " ++ expected.render ++ ", Actual: " ++ actual.render
  | .mismatchedApplication expected actual =>
    "Mismatched type application! Expected: " ++ expected.render ++ ", Actual: " ++
      actual.render

/-- What an operator accepts. -/
inductive Operand where
  | numeric
  | integral
  | int
  | boolean
  | integralOrBoolean
deriving DecidableEq, Repr

namespace Operand

def render : Operand → String
  | .numeric => "A numeric type"
  | .integral => "An integral type"
  | .int => "Int"
  | .boolean => "Boolean"
  | .integralOrBoolean => "An integral or boolean type"

/-- An operand is accepted when it is a subtype of any of these. -/
def candidates : Operand → List BuiltIn
  | .numeric => [.long, .double]
  | .integral => [.long]
  | .int => [.int]
  | .boolean => [.boolean]
  | .integralOrBoolean => [.long, .boolean]

end Operand

inductive TypeError where
  | mismatch (expected actual : Ty)
  | mismatchedOperand (expected : Operand) (actual : Ty)
  | mismatchedOperands (left right : Ty)
  | mismatchedApplication (expected actual : Ty)
  /-- The type of a declaration still mentions the unknowns. -/
  | ambiguous (name : String) (type : Ty) (unknowns : List String)
deriving Repr

def TypeError.message : TypeError → String
  | .mismatch expected actual =>
    "Mismatched type! Expected: " ++ expected.render ++ ", Actual: " ++ actual.render
  | .mismatchedOperand expected actual =>
    "Mismatched operand type! Expected: " ++ expected.render ++ ", Actual: " ++ actual.render
  | .mismatchedOperands left right =>
    "Mismatched operand types! Left: " ++ left.render ++ ", Right: " ++ right.render
  | .mismatchedApplication expected actual =>
    "Mismatched application! Expected: " ++ expected.render ++ ", Actual: " ++ actual.render
  | .ambiguous name type unknowns =>
    "Couldn't infer a unique type for " ++ name ++ "! Found: " ++ type.render ++ ", where " ++
      ", ".intercalate unknowns ++
      (if 1 < unknowns.length then " are unsolved variables." else " is an unsolved variable.")

namespace Check

/-- Report an error about a range of the source. -/
def report (range : Range) (message : String) : Check Unit :=
  modify fun s => { s with log := s.log.reportError s.uri range message [] }

/-- Check something with a fresh frame on top of the stack. -/
def withScope {α : Type} (kind : ScopeKind) (body : Check α) : Check α := do
  Solve.pushScope kind
  let result ← body
  let _ ← Solve.popScope kind.tag
  pure result

/-- The kind that a type node carries. -/
def kindOf (here : Located Attributes) : Check Kind :=
  match here.info.classifier with
  | .ofKind kind => pure kind
  | classifier => throw (.expectedKind classifier)

/-- The type that a value node carries. -/
def typeOf (here : Located Attributes) : Check Ty :=
  match here.info.classifier with
  | .ofType type => pure type
  | classifier => throw (.expectedType classifier)

/-- A node with its kind. -/
def kinded (here : Located Name) (kind : Kind) : Located Attributes :=
  ⟨here.range, ⟨here.info, .ofKind kind⟩⟩

/-- A node with its type. -/
def typed (here : Located Name) (type : Ty) : Located Attributes :=
  ⟨here.range, ⟨here.info, .ofType type⟩⟩

end Check

end PolyFront
