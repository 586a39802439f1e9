import PolyFront.Checking.Values

/-!
# Types of patterns

A pattern is checked against the type of the value it matches.  The names it introduces
are bound in the innermost frame.
-/

namespace PolyFront

namespace Check

/-- A constructor's type with fresh types for all its parameters, and those types by the
names of the parameters. -/
def instantiateConstructor (type : Ty) : Check (Ty × Table String Ty) := do
  match type with
  | .quantified binders body _ =>
    let assignment ← Solve.freshBinders (fun _ => true) binders
    pure (body.instantiate assignment, assignment)
  | type => pure (type, Table.empty)

/-- The type of the values that a constructor pattern matches, and the types of the
constructor's parameters by name. -/
def matchConstructor (here : Located Name) (expected : Ty) : Check (Ty × Table String Ty) := do
  let (type, assignment) ← instantiateConstructor (← typeOfName here.info)
  let matched := match type.function? with
    | some (_, result) => result
    | none => type
  requireUsable here.range expected matched
  pure (matched, assignment)

/-- The type of a field of the constructor that a pattern names. -/
def fieldType (owner : Name) (field : String) (assignment : Table String Ty) : Check Ty := do
  let stack := (← get).store.stack
  let bound := match owner with
    | .constructor name => stack.field? name field
    | _ => none
  match bound.bind fun here => here.info.classifier.type? with
  | some type => pure (type.instantiate assignment)
  | none => freshType

mutual
def checkPattern : Pattern Name → Ty → Check (Pattern Attributes)
  | .id here name, expected => do
    let here := typed here expected
    Solve.putValue name here
    pure (.id here name)
  | .alias here name inner, expected => do
    let inner ← checkPattern inner expected
    let here := typed here expected
    Solve.putValue name here
    pure (.alias here name inner)
  | .literal here value, expected => do
    requireUsable here.range expected (.builtIn value.type)
    pure (.literal (typed here expected) value)
  | .constructor here id fields, expected => do
    let (matched, assignment) ← matchConstructor here expected
    let fields ← checkFieldPatterns here.info assignment fields
    pure (.constructor (typed here matched) id fields)
def checkFieldPattern (owner : Name) (assignment : Table String Ty) :
    FieldPattern Name → Check (FieldPattern Attributes)
  | ⟨here, field, inner⟩ => do
    let here := typed here (← fieldType owner field assignment)
    checkOptionalPattern here field inner
/-- Without a pattern of its own, the field's value is bound to the field's name. -/
def checkOptionalPattern (here : Located Attributes) (field : String) :
    Option (Pattern Name) → Check (FieldPattern Attributes)
  | none => do
    Solve.putValue field here
    pure ⟨here, field, none⟩
  | some inner => do
    let inner ← checkPattern inner (← typeOf here)
    pure ⟨here, field, some inner⟩
def checkFieldPatterns (owner : Name) (assignment : Table String Ty) :
    List (FieldPattern Name) → Check (List (FieldPattern Attributes))
  | [] => pure []
  | field :: rest => do
    let field ← checkFieldPattern owner assignment field
    pure (field :: (← checkFieldPatterns owner assignment rest))
end

end Check

end PolyFront
