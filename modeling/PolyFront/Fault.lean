import PolyFront.Scope.Frame
import PolyFront.Ty.Basic

/-!
# Faults

A fault is a broken invariant of the library itself.  Problems of the checked program
are diagnostics and never faults.  Operations that can fault keep the state they had
reached, so that what was reported before a fault is not lost.
-/

namespace PolyFront

inductive Fault where
  /-- Something was bound while no frame was on the stack. -/
  | noScope
  /-- A frame was popped from an empty stack. -/
  | emptyStack (expected : ScopeTag)
  /-- The popped frame belongs to another construct. -/
  | mismatchedScope (found expected : ScopeTag)
  | notBinding
  | notData
  | notConstructor
  | unknownBuiltIn (name : String)
  | notType (name : Name)
  | expectedKind (found : Classifier)
  | expectedType (found : Classifier)
  /-- A declaration was resolved outside of a namespace. -/
  | noNamespace
  /-- No frame of the construct is there to bind a local name in. -/
  | noBinder (tag : ScopeTag) (name : String)
  /-- A declaration was taken from beyond the end of a namespace. -/
  | noDeclaration (count index : Nat)
deriving Repr, Inhabited

def Fault.message : Fault → String
  | .noScope => "no scope has been pushed"
  | .emptyStack expected =>
    "tried to pop a " ++ expected.label ++ " scope from an empty stack"
  | .mismatchedScope found expected =>
    "popped a " ++ found.label ++ " scope, expected " ++ expected.label
  | .notBinding => "is not a top-level let"
  | .notData => "is not a data declaration"
  | .notConstructor => "is not a constructor"
  | .unknownBuiltIn name => name ++ " is not a built-in type"
  | .notType name => name.canonical ++ " does not name a type"
  | .expectedKind found =>
    "type annotation has sort " ++ found.render ++ " instead of a kind"
  | .expectedType found => "value has sort " ++ found.render ++ " instead of a type"
  | .noNamespace => "declaration renamed outside of a namespace"
  | .noBinder tag name => "no " ++ tag.label ++ " scope to bind '" ++ name ++ "' in"
  | .noDeclaration count index =>
    "index out of bounds: the len is " ++ toString count ++ " but the index is " ++
      toString index

/-- A computation that changes a state and may fault. -/
abbrev Run (σ α : Type) : Type := EStateM Fault σ α

namespace Run

variable {σ τ α : Type}

/-- Run on a part of a larger state. -/
def within (part : σ → τ) (update : τ → σ → σ) (run : Run τ α) : Run σ α := fun state =>
  match run (part state) with
  | .ok result inner => .ok result (update inner state)
  | .error fault inner => .error fault (update inner state)

end Run

end PolyFront
