import PolyFront.Tree.Basic

/-!
# Traversals

Replacing the annotation of every node of a tree from left to right, each node before
those below it.  Ranges, names and the shape of the tree stay as they are.
-/

namespace PolyFront

variable {m : Type → Type} [Monad m] {α β : Type}

def Located.traverse (f : α → m β) (here : Located α) : m (Located β) := do
  pure ⟨here.range, ← f here.info⟩

/-- Apply an effect to what an option holds. -/
def traverseOption {γ δ : Type} (f : γ → m δ) : Option γ → m (Option δ)
  | none => pure none
  | some item => do pure (some (← f item))

def TypeVarNode.traverse (f : α → m β) (var : TypeVarNode α) : m (TypeVarNode β) := do
  pure ⟨← var.here.traverse f, var.quantifier, var.name⟩

mutual
def TypeNode.traverse (f : α → m β) : TypeNode α → m (TypeNode β)
  | .quantified here binders body => do
    let here ← here.traverse f
    let binders ← binders.mapM (TypeVarNode.traverse f)
    pure (.quantified here binders (← body.traverse f))
  | .function here args result => do
    let here ← here.traverse f
    let args ← TypeNode.traverseList f args
    pure (.function here args (← result.traverse f))
  | .apply here head args => do
    let here ← here.traverse f
    let head ← head.traverse f
    pure (.apply here head (← TypeNode.traverseList f args))
  | .reference here id => do pure (.reference (← here.traverse f) id)
  | .var node => do pure (.var (← node.traverse f))
def TypeNode.traverseList (f : α → m β) : List (TypeNode α) → m (List (TypeNode β))
  | [] => pure []
  | node :: rest => do
    let node ← node.traverse f
    pure (node :: (← TypeNode.traverseList f rest))
end

def Param.traverse (f : α → m β) (param : Param α) : m (Param β) := do
  let here ← param.here.traverse f
  pure ⟨here, param.name, ← traverseOption (TypeNode.traverse f) param.ascription⟩

def Reference.traverse (f : α → m β) (node : Reference α) : m (Reference β) := do
  pure ⟨← node.here.traverse f, node.id⟩

mutual
def Pattern.traverse (f : α → m β) : Pattern α → m (Pattern β)
  | .alias here name pattern => do
    let here ← here.traverse f
    pure (.alias here name (← pattern.traverse f))
  | .constructor here id fields => do
    let here ← here.traverse f
    pure (.constructor here id (← FieldPattern.traverseList f fields))
  | .id here name => do pure (.id (← here.traverse f) name)
  | .literal here value => do pure (.literal (← here.traverse f) value)
def FieldPattern.traverse (f : α → m β) : FieldPattern α → m (FieldPattern β)
  | ⟨here, field, pattern⟩ => do
    let here ← here.traverse f
    pure ⟨here, field, ← Pattern.traverseOption f pattern⟩
def FieldPattern.traverseList (f : α → m β) : List (FieldPattern α) → m (List (FieldPattern β))
  | [] => pure []
  | field :: rest => do
    let field ← field.traverse f
    pure (field :: (← FieldPattern.traverseList f rest))
def Pattern.traverseOption (f : α → m β) : Option (Pattern α) → m (Option (Pattern β))
  | none => pure none
  | some pattern => do pure (some (← pattern.traverse f))
end

mutual
def Expr.traverse (f : α → m β) : Expr α → m (Expr β)
  | .block here bindings result => do
    let here ← here.traverse f
    let bindings ← Binding.traverseList f bindings
    pure (.block here bindings (← Expr.traverseOption f result))
  | .conditional here condition consequent alternative => do
    let here ← here.traverse f
    let condition ← condition.traverse f
    let consequent ← consequent.traverse f
    pure (.conditional here condition consequent (← alternative.traverse f))
  | .lambda here params body => do
    let here ← here.traverse f
    let params ← params.mapM (Param.traverse f)
    pure (.lambda here params (← body.traverse f))
  | .cases here scrutinee cases => do
    let here ← here.traverse f
    let scrutinee ← scrutinee.traverse f
    pure (.cases here scrutinee (← Case.traverseList f cases))
  | .apply here function args => do
    let here ← here.traverse f
    let function ← function.traverse f
    pure (.apply here function (← Expr.traverseList f args))
  | .select here receiver selection => do
    let here ← here.traverse f
    let receiver ← receiver.traverse f
    pure (.select here receiver (← selection.traverse f))
  | .reference node => do pure (.reference (← node.traverse f))
  | .binary here op left right => do
    let here ← here.traverse f
    let left ← left.traverse f
    pure (.binary here op left (← right.traverse f))
  | .unary here op operand => do
    let here ← here.traverse f
    pure (.unary here op (← operand.traverse f))
  | .literal here value => do pure (.literal (← here.traverse f) value)
def Expr.traverseOption (f : α → m β) : Option (Expr α) → m (Option (Expr β))
  | none => pure none
  | some expr => do pure (some (← expr.traverse f))
def Expr.traverseList (f : α → m β) : List (Expr α) → m (List (Expr β))
  | [] => pure []
  | expr :: rest => do
    let expr ← expr.traverse f
    pure (expr :: (← Expr.traverseList f rest))
def Binding.traverse (f : α → m β) : Binding α → m (Binding β)
  | ⟨here, name, ascription, value⟩ => do
    let here ← here.traverse f
    let ascription ← PolyFront.traverseOption (TypeNode.traverse f) ascription
    pure ⟨here, name, ascription, ← value.traverse f⟩
def Binding.traverseList (f : α → m β) : List (Binding α) → m (List (Binding β))
  | [] => pure []
  | binding :: rest => do
    let binding ← binding.traverse f
    pure (binding :: (← Binding.traverseList f rest))
def Case.traverse (f : α → m β) : Case α → m (Case β)
  | ⟨here, pattern, body⟩ => do
    let here ← here.traverse f
    let pattern ← pattern.traverse f
    pure ⟨here, pattern, ← body.traverse f⟩
def Case.traverseList (f : α → m β) : List (Case α) → m (List (Case β))
  | [] => pure []
  | case :: rest => do
    let case ← case.traverse f
    pure (case :: (← Case.traverseList f rest))
end

def ConstructorParam.traverse (f : α → m β) (param : ConstructorParam α) :
    m (ConstructorParam β) := do
  let here ← param.here.traverse f
  pure ⟨here, param.name, ← param.ascription.traverse f⟩

def Constructor.traverse (f : α → m β) (constructor : Constructor α) : m (Constructor β) := do
  let here ← constructor.here.traverse f
  let params ← constructor.params.mapM (ConstructorParam.traverse f)
  pure ⟨here, constructor.name, params,
    ← traverseOption (TypeNode.traverse f) constructor.result⟩

def Data.traverse (f : α → m β) (data : Data α) : m (Data β) := do
  let here ← data.here.traverse f
  let typeParams ← data.typeParams.mapM (TypeVarNode.traverse f)
  pure ⟨here, data.name, typeParams, ← data.constructors.mapM (Constructor.traverse f)⟩

def FunctionBinding.traverse (f : α → m β) (binding : FunctionBinding α) :
    m (FunctionBinding β) := do
  let here ← binding.here.traverse f
  let typeParams ← binding.typeParams.mapM (TypeVarNode.traverse f)
  let params ← binding.params.mapM (Param.traverse f)
  let result ← traverseOption (TypeNode.traverse f) binding.result
  pure ⟨here, binding.name, typeParams, params, result, ← binding.body.traverse f⟩

def Declaration.traverse (f : α → m β) : Declaration α → m (Declaration β)
  | .data d => do pure (.data (← d.traverse f))
  | .binding d => do pure (.binding (← d.traverse f))
  | .function d => do pure (.function (← d.traverse f))

end PolyFront
