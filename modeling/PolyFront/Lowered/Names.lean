import PolyFront.Lowered.Basic

/-!
# Names in lowered code

The names that lowered code refers to, those it binds, and those it leaves free.
-/

namespace PolyFront.Lowered

mutual
/-- The names that a successful match binds, from left to right. -/
def Pattern.boundNames : Pattern → List Name
  | .id name => [name]
  | .alias name pattern => name :: pattern.boundNames
  | .literal _ => []
  | .constructor _ fields => FieldPattern.boundNamesList fields
def FieldPattern.boundNames : FieldPattern → List Name
  | ⟨_, pattern⟩ => pattern.boundNames
def FieldPattern.boundNamesList : List FieldPattern → List Name
  | [] => []
  | field :: rest => field.boundNames ++ FieldPattern.boundNamesList rest
end

mutual
/-- The names referred to, in order and with repetitions. -/
def Value.references : Value → List Name
  | .literal _ => []
  | .reference name _ => [name]
  | .lambda _ body => body.references
  | .box value => value.references
  | .unbox value => value.references
def Value.referencesList : List Value → List Name
  | [] => []
  | value :: rest => value.references ++ Value.referencesList rest
/-- The names referred to, in order and with repetitions. -/
def Expr.references : Expr → List Name
  | .value value => value.references
  | .apply _ function args => function.references ++ Value.referencesList args
  | .unary _ operand => operand.references
  | .binary left _ right => left.references ++ right.references
  | .conditional condition consequent alternative =>
    condition.references ++ consequent.references ++ alternative.references
  | .cases scrutinee cases => scrutinee.references ++ Case.referencesList cases
  | .block bindings result => Binding.referencesList bindings ++ result.references
def Case.references : Case → List Name
  | ⟨_, body⟩ => body.references
def Case.referencesList : List Case → List Name
  | [] => []
  | case :: rest => case.references ++ Case.referencesList rest
def Binding.references : Binding → List Name
  | .assign _ _ body => body.references
  | .join _ _ _ body => body.references
def Binding.referencesList : List Binding → List Name
  | [] => []
  | binding :: rest => binding.references ++ Binding.referencesList rest
end

mutual
/-- The names bound anywhere inside, with repetitions. -/
def Value.boundNames : Value → List Name
  | .literal _ => []
  | .reference _ _ => []
  | .lambda params body => params.map Param.name ++ body.boundNames
  | .box value => value.boundNames
  | .unbox value => value.boundNames
def Value.boundNamesList : List Value → List Name
  | [] => []
  | value :: rest => value.boundNames ++ Value.boundNamesList rest
/-- The names bound anywhere inside, with repetitions. -/
def Expr.boundNames : Expr → List Name
  | .value value => value.boundNames
  | .apply _ function args => function.boundNames ++ Value.boundNamesList args
  | .unary _ operand => operand.boundNames
  | .binary left _ right => left.boundNames ++ right.boundNames
  | .conditional condition consequent alternative =>
    condition.boundNames ++ consequent.boundNames ++ alternative.boundNames
  | .cases scrutinee cases => scrutinee.boundNames ++ Case.boundNamesList cases
  | .block bindings result => Binding.boundNamesList bindings ++ result.boundNames
def Case.boundNames : Case → List Name
  | ⟨pattern, body⟩ => pattern.boundNames ++ body.boundNames
def Case.boundNamesList : List Case → List Name
  | [] => []
  | case :: rest => case.boundNames ++ Case.boundNamesList rest
def Binding.boundNames : Binding → List Name
  | .assign name _ body => name :: body.boundNames
  | .join name _ params body => name :: (params.map Param.name ++ body.boundNames)
def Binding.boundNamesList : List Binding → List Name
  | [] => []
  | binding :: rest => binding.boundNames ++ Binding.boundNamesList rest
end

/-- The names referred to but not bound inside, in the order of their first occurrence. -/
def Definition.freeVariables (definition : Definition) : List Name :=
  let bound := definition.body.boundNames
  (definition.body.references.filter fun name => !bound.contains name).eraseDups

end PolyFront.Lowered
