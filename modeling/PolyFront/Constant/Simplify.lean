import PolyFront.Constant.Worklist

/-!
# Simplification

References to constants become literals, operators and branches that are decided by
constants are replaced by their result, and bindings that nothing refers to any more are
dropped.
-/

namespace PolyFront

namespace Analysis

variable (known : Analysis)

def isConstant (name : Name) : Bool :=
  match known.values.get? name with
  | some (.constant _) => true
  | _ => false

/-- The result of a call by name that is known to be constant. -/
def constantCall? (type : Ty) : Lowered.Value → Option Lowered.Expr
  | .reference name _ =>
    if known.functionParams.contains name then
      match known.values.get? name with
      | some (.constant value) => some (.value (.literal value))
      | some (.constantConstructor constructor) =>
        some (.apply type (.reference (.constructor constructor) type) [])
      | _ => none
    else none
  | _ => none

/-- A constant binding, every reference to which is replaced. -/
def isInlined : Lowered.Binding → Bool
  | .assign name type _ =>
    !type.isFunctional && !known.functionParams.contains name && known.isConstant name
  | .join _ _ _ _ => false

/-- The one case that is sure to be taken, if all names it binds are replaced. -/
def selectedCase? (scrutinee : Lattice) (cases : List Lowered.Case) : Option Lowered.Case :=
  match Lowered.candidates Lowered.Case.pattern scrutinee cases with
  | [(case, .always)] =>
    if case.pattern.boundNames.all known.isConstant then some case else none
  | _ => none

mutual
def simplifyValue : Lowered.Value → Lowered.Value
  | .literal value => .literal value
  | .reference name type =>
    match known.values.get? name with
    | some (.constant value) =>
      if type.isFunctional then .reference name type else .literal value
    | _ => .reference name type
  | .lambda params body => .lambda params (simplifyExpr body)
  | .box value => .box (simplifyValue value)
  | .unbox value => .unbox (simplifyValue value)
def simplifyValues : List Lowered.Value → List Lowered.Value
  | [] => []
  | value :: rest => simplifyValue value :: simplifyValues rest
def simplifyExpr : Lowered.Expr → Lowered.Expr
  | .value value => .value (simplifyValue value)
  | .apply type function args =>
    match known.constantCall? type function with
    | some result => result
    | none => .apply type (simplifyValue function) (simplifyValues args)
  | .unary op operand =>
    match Lattice.unary op (known.valueOf operand) with
    | .constant value => .value (.literal value)
    | _ => .unary op (simplifyValue operand)
  | .binary left op right =>
    match Lattice.binary (known.valueOf left) op (known.valueOf right) with
    | .constant value => .value (.literal value)
    | _ => .binary (simplifyValue left) op (simplifyValue right)
  | .conditional condition consequent alternative =>
    match known.valueOf condition with
    | .constant (.boolean true) => simplifyExpr consequent
    | .constant (.boolean false) => simplifyExpr alternative
    | _ => .conditional (simplifyValue condition) (simplifyExpr consequent)
        (simplifyExpr alternative)
  | .cases scrutinee cases =>
    let simplified := simplifyCases cases
    match known.selectedCase? (known.valueOf scrutinee) simplified with
    | some case => case.body
    | none => .cases (simplifyValue scrutinee) simplified
  | .block bindings result =>
    match simplifyBindings bindings with
    | [] => simplifyExpr result
    | simplified => .block simplified (simplifyExpr result)
def simplifyCase : Lowered.Case → Lowered.Case
  | ⟨pattern, body⟩ => ⟨pattern, simplifyExpr body⟩
def simplifyCases : List Lowered.Case → List Lowered.Case
  | [] => []
  | case :: rest => simplifyCase case :: simplifyCases rest
def simplifyBinding : Lowered.Binding → Lowered.Binding
  | .assign name type body => .assign name type (simplifyExpr body)
  | .join name type params body => .join name type params (simplifyExpr body)
/-- The bindings that are kept. -/
def simplifyBindings : List Lowered.Binding → List Lowered.Binding
  | [] => []
  | binding :: rest =>
    if known.isInlined binding then simplifyBindings rest
    else simplifyBinding binding :: simplifyBindings rest
end

def simplifyDeclaration : Lowered.Declaration → Lowered.Declaration
  | .data d => .data d
  | .definition d => .definition { d with body := known.simplifyExpr d.body }

end Analysis

/-- Analyse a namespace, then simplify it by what is known. -/
def Analyse.optimise (ns : Lowered.Namespace) : Run Analysis Lowered.Namespace := do
  declarations ns.declarations
  pure { ns with declarations := ns.declarations.map (← get).simplifyDeclaration }

end PolyFront
