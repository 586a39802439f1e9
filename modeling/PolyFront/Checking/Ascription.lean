import PolyFront.Checking.Kinds

/-!
# Written types as types

A written type is read as a type once its kinds are known.  References that were never
resolved become fresh unsolved types.
-/

namespace PolyFront

namespace Check

/-- The type that a resolved name stands for. -/
def typeOfTypeName (name : Name) (kind : Kind) : Check Ty :=
  match name with
  | .builtIn name =>
    match BuiltIn.ofName? name with
    | some type => pure (.builtIn type)
    | none => throw (.unknownBuiltIn name)
  | .data name => pure (.constructor name kind)
  | .constructor name => pure (.constructor name.name kind)
  | .typeVar quantifier name => pure (.var quantifier name kind)
  | .nameless => Solve.freshType kind
  | name => throw (.notType name)

def typeOfVarNode (node : TypeVarNode Attributes) : Check Ty := do
  typeOfTypeName node.here.info.name (← kindOf node.here)

mutual
/-- Read a written type as a type. -/
def toType : TypeNode Attributes → Check Ty
  | .quantified here binders body => do
    let binders ← binders.mapM typeOfVarNode
    let body ← toType body
    pure (.quantified binders body (← kindOf here))
  | .function _ args result => do
    let args ← toTypes args
    pure (Ty.function args (← toType result))
  | .apply here head args => do
    let head ← toType head
    let args ← toTypes args
    pure (.apply head args (← kindOf here))
  | .reference here _ => do typeOfTypeName here.info.name (← kindOf here)
  | .var node => typeOfVarNode node
def toTypes : List (TypeNode Attributes) → Check (List Ty)
  | [] => pure []
  | node :: rest => do
    let type ← toType node
    pure (type :: (← toTypes rest))
end

/-- Check a written type and read it as a type. -/
def ascription (node : TypeNode Name) : Check (TypeNode Attributes × Ty) := do
  let node ← properTypeNode node
  pure (node, ← toType node)

end Check

end PolyFront
