import PolyFront.Checking.Patterns

/-!
# Types of expressions

The type of an expression is inferred, or checked against an expected type.  Every node
of the result carries its type.  Where a quantified type is expected, its universal
binders stay rigid for the duration of the check.
-/

namespace PolyFront

/-- The two ways to find the types of an expression. -/
structure Judgement where
  /-- The root of the result carries the inferred type. -/
  infer : Check (Expr Attributes)
  /-- A type that cannot be used as the expected one is reported. -/
  check : Ty → Check (Expr Attributes)

namespace Check

/-- Substitute the types of all nodes. -/
def substituteExpr (node : Expr Attributes) : Check (Expr Attributes) :=
  node.traverse fun attributes => (Solve.substitute attributes : Check Attributes)

/-- Check under at most the given number of quantifiers. -/
def underQuantifiersWithin (check : Ty → Check (Expr Attributes)) :
    Nat → Ty → Check (Expr Attributes)
  | 0, expected => do check (← Solve.substituteType expected)
  | fuel + 1, expected => do
    match ← Solve.substituteType expected with
    | .quantified binders body _ =>
      withScope .instantiateType do
        let body ← Solve.instantiateBinders .sup binders body
        substituteExpr (← underQuantifiersWithin check fuel body)
    | expected => check expected

/-- Check against the body of the expected type, under all of its quantifiers. What is
checked under a quantifier is substituted before the variables of its frame go. -/
def underQuantifiers (check : Ty → Check (Expr Attributes)) (expected : Ty) :
    Check (Expr Attributes) := do
  underQuantifiersWithin check (← Solve.typeFuel [expected]) expected

end Check

namespace Judgement

open Check

/-- Infer, then require that the type can be used where the expected one is. -/
def subsume (range : Range) (infer : Check (Expr Attributes)) (expected : Ty) :
    Check (Expr Attributes) := do
  let node ← infer
  requireUsable range expected (← typeOf node.here)
  pure node

/-- An expression with a way of its own to be checked against types without quantifiers. -/
def ofRules (infer : Check (Expr Attributes)) (check : Ty → Check (Expr Attributes)) :
    Judgement where
  infer := infer
  check := underQuantifiers check

/-- An expression that is checked by inferring its type. -/
def ofInference (range : Range) (infer : Check (Expr Attributes)) : Judgement :=
  ofRules infer (subsume range infer)

/-- A value without an ascription is inferred, then bound. An ascription is bound before the
value is checked at the top level, where a value may refer to itself, and after it
elsewhere. -/
def binding (here : Located Name) (name : String) (node : Option (TypeNode Name))
    (value : Judgement) : Check (Binding Attributes) := do
  match node with
  | some node =>
    let isTopLevel := here.info.declaration?.isSome
    let (node, expected) ← ascription node
    let here := typed here expected
    if isTopLevel then bindValue name here
    let value ← value.check expected
    if !isTopLevel then bindValue name here
    pure ⟨here, name, some node, value⟩
  | none =>
    let value ← value.infer
    let here := typed here (← typeOf value.here)
    bindValue name here
    pure ⟨here, name, none, value⟩

/-- A block has the type of its result. A block without a result has type `Unit`. -/
def block (here : Located Name) (bindings : List (Check (Binding Attributes)))
    (result : Option Judgement) : Judgement :=
  ofRules
    (withScope .block do
      let bindings ← bindings.mapM id
      match result with
      | some result =>
        let result ← result.infer
        pure (.block (typed here (← typeOf result.here)) bindings (some result))
      | none => pure (.block (typed here (.builtIn .unit)) bindings none))
    (fun expected => withScope .block do
      let bindings ← bindings.mapM id
      match result with
      | some result =>
        let result ← result.check expected
        pure (.block (typed here expected) bindings (some result))
      | none =>
        requireUsable here.range expected (.builtIn .unit)
        pure (.block (typed here expected) bindings none))

def conditional (here : Located Name) (condition consequent alternative : Judgement) :
    Judgement :=
  ofRules
    (do
      let condition ← condition.check (.builtIn .boolean)
      let type ← freshType
      let consequent ← consequent.check type
      let alternative ← alternative.check type
      pure (.conditional (typed here type) condition consequent alternative))
    (fun expected => do
      let condition ← condition.check (.builtIn .boolean)
      let consequent ← consequent.check expected
      let alternative ← alternative.check expected
      pure (.conditional (typed here expected) condition consequent alternative))

def inferLambda (here : Located Name) (params : List (Param Name)) (body : Judgement) :
    Check (Expr Attributes) :=
  withScope .lambda do
    let params ← params.mapM inferParam
    let body ← body.infer
    let type := Ty.function (← params.mapM fun param => typeOf param.here) (← typeOf body.here)
    pure (.lambda (typed here type) params body)

/-- A lambda takes the types of its parameters and of its body from an expected function
type of its arity. -/
def lambda (here : Located Name) (params : List (Param Name)) (body : Judgement) : Judgement :=
  ofRules (inferLambda here params body) fun expected => do
    let inferred := subsume here.range (inferLambda here params body) expected
    match expected.function? with
    | some (args, result) =>
      if args.length = params.length then
        withScope .lambda do
          let params ← (params.zip args).mapM fun (param, type) => checkParam param type
          let body ← body.check result
          pure (.lambda (typed here expected) params body)
      else inferred
    | none => inferred

/-- A case matches values of the first type and gives a value of the second. -/
def case (here : Located Name) (pattern : Pattern Name) (body : Judgement)
    (scrutinee expected : Ty) : Check (Case Attributes) :=
  withScope .case do
    let pattern ← checkPattern pattern scrutinee
    let body ← body.check expected
    pure ⟨typed here expected, pattern, body⟩

def cases (here : Located Name) (scrutinee : Judgement)
    (cases : List (Ty → Ty → Check (Case Attributes))) : Judgement :=
  ofRules
    (do
      let scrutinee ← scrutinee.infer
      let matched ← typeOf scrutinee.here
      let type ← freshType
      let cases ← cases.mapM fun case => case matched type
      pure (.cases (typed here type) scrutinee cases))
    (fun expected => do
      let scrutinee ← scrutinee.infer
      let matched ← typeOf scrutinee.here
      let cases ← cases.mapM fun case => case matched expected
      pure (.cases (typed here expected) scrutinee cases))

/-- The types of the arguments and of the result when a function of the given type is
applied. -/
def applied (range : Range) (arity : Nat) (function : Ty) : Check (List Ty × Ty) := do
  let unknown : Check (List Ty × Ty) := do
    let params ← (List.replicate arity ()).mapM fun _ => freshType
    let result ← freshType
    let expected := Ty.function params result
    let solved ← if function.isUnsolved then
        (Solve.checkSubType function expected : Check Bool)
      else pure false
    if !solved then
      report range (TypeError.mismatchedApplication expected function).message
    pure (params, result)
  match function.function? with
  | some (params, result) => if params.length = arity then pure (params, result) else unknown
  | none => unknown

def apply (here : Located Name) (function : Judgement) (args : List Judgement) : Judgement :=
  ofInference here.range do
    let function ← function.infer
    let functionType ← Solve.instantiatePolymorphic (← typeOf function.here)
    let (params, result) ← applied here.range args.length functionType
    let args ← (args.zip params).mapM fun (arg, type) => arg.check type
    pure (.apply (typed here result) function args)

/-- A selected function is applied to its first argument only. -/
def select (here : Located Name) (receiver : Judgement) (selection : Reference Name) :
    Judgement :=
  ofInference here.range do
    let selection ← inferReference selection
    let selected ← Solve.instantiatePolymorphic (← typeOf selection.here)
    match selected.function? with
    | some (first :: rest, result) =>
      let receiver ← receiver.check first
      pure (.select (typed here (Ty.function rest result)) receiver selection)
    | _ =>
      let receiver ← receiver.infer
      pure (.select (typed here (← freshType)) receiver selection)

def reference (node : Reference Name) : Judgement :=
  ofInference node.here.range do pure (.reference (← inferReference node))

/-- The right operand, and the type that both operands share. -/
def sharedOperands (operand : Operand) (left : Expr Attributes) (right : Judgement) :
    Check (Expr Attributes × Ty) := do
  let leftType ← typeOf left.here
  if ← acceptsOperand operand leftType then
    pure (← right.check leftType, leftType)
  else
    reportOperand left.here.range operand leftType
    let right ← right.infer
    let rightType ← typeOf right.here
    if ← acceptsOperand operand rightType then
      pure (right, rightType)
    else
      reportOperand right.here.range operand rightType
      pure (right, ← freshType)

/-- The number of places to shift by, and the type of what is shifted. -/
def shiftOperands (left : Expr Attributes) (right : Judgement) :
    Check (Expr Attributes × Ty) := do
  let leftType ← typeOf left.here
  let accepted ← acceptsOperand .integral leftType
  if !accepted then reportOperand left.here.range .integral leftType
  let right ← right.infer
  let rightType ← typeOf right.here
  if !(← acceptsOperand .int rightType) then reportOperand right.here.range .int rightType
  pure (right, ← if accepted then pure leftType else freshType)

/-- The right operand, and the type of the left one. -/
def equalityOperands (range : Range) (left : Expr Attributes) (right : Judgement) :
    Check (Expr Attributes × Ty) := do
  let leftType ← typeOf left.here
  let right ← right.infer
  let rightType ← typeOf right.here
  if !(← Solve.checkSubType leftType rightType) then
    if !(← Solve.checkSubType rightType leftType) then
      let left ← Solve.substituteType leftType
      let right ← Solve.substituteType rightType
      report range (TypeError.mismatchedOperands left right).message
  pure (right, leftType)

def binary (here : Located Name) (op : BinaryOp) (left right : Judgement) : Judgement :=
  ofInference here.range do
    let left ← left.infer
    let (right, operand) ← match op.operandRule with
      | .shared operand => sharedOperands operand left right
      | .shift => shiftOperands left right
      | .equality => equalityOperands here.range left right
    let type := if op.isPredicate then .builtIn .boolean else operand
    pure (.binary (typed here type) op left right)

def unary (here : Located Name) (op : UnaryOp) (operand : Judgement) : Judgement :=
  ofInference here.range do
    let operand ← operand.infer
    let operandType ← typeOf operand.here
    let accepted ← acceptsOperand op.operand operandType
    if !accepted then reportOperand operand.here.range op.operand operandType
    let type ← match op with
      | .booleanNot => pure (.builtIn .boolean)
      | _ => if accepted then pure operandType else freshType
    pure (.unary (typed here type) op operand)

/-- A literal takes on any type that its own can be used as. -/
def literal (here : Located Name) (value : Literal) : Judgement :=
  ofRules
    (pure (.literal (typed here (.builtIn value.type)) value))
    (fun expected => do
      requireUsable here.range expected (.builtIn value.type)
      pure (.literal (typed here expected) value))

end Judgement

mutual
/-- The judgement of an expression from those of its parts. -/
def Expr.judge : Expr Name → Judgement
  | .block here bindings result =>
    .block here (Binding.judgeList bindings) (Expr.judgeOption result)
  | .conditional here condition consequent alternative =>
    .conditional here condition.judge consequent.judge alternative.judge
  | .lambda here params body => .lambda here params body.judge
  | .cases here scrutinee cases => .cases here scrutinee.judge (Case.judgeList cases)
  | .apply here function args => .apply here function.judge (Expr.judgeList args)
  | .select here receiver selection => .select here receiver.judge selection
  | .reference node => .reference node
  | .binary here op left right => .binary here op left.judge right.judge
  | .unary here op operand => .unary here op operand.judge
  | .literal here value => .literal here value
def Expr.judgeOption : Option (Expr Name) → Option Judgement
  | none => none
  | some expr => some expr.judge
def Expr.judgeList : List (Expr Name) → List Judgement
  | [] => []
  | expr :: rest => expr.judge :: Expr.judgeList rest
def Binding.judge : Binding Name → Check (Binding Attributes)
  | ⟨here, name, node, value⟩ => Judgement.binding here name node value.judge
def Binding.judgeList : List (Binding Name) → List (Check (Binding Attributes))
  | [] => []
  | binding :: rest => binding.judge :: Binding.judgeList rest
def Case.judge : Case Name → Ty → Ty → Check (Case Attributes)
  | ⟨here, pattern, body⟩ => Judgement.case here pattern body.judge
def Case.judgeList : List (Case Name) → List (Ty → Ty → Check (Case Attributes))
  | [] => []
  | case :: rest => case.judge :: Case.judgeList rest
end

namespace Check

def inferExpr (node : Expr Name) : Check (Expr Attributes) := node.judge.infer

def checkExpr (node : Expr Name) (expected : Ty) : Check (Expr Attributes) :=
  node.judge.check expected

end Check

end PolyFront
