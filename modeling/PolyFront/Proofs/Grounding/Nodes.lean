import PolyFront.Tree.Traverse
import Mathlib.Tactic

/-!
# What the nodes of a tree carry

The annotations of a tree in the order in which a traversal visits them.  A traversal replaces them
one after another, so that what is known of a walk along the list is known of the traversal.
-/

namespace PolyFront

variable {α : Type}

mutual
def TypeNode.infos : TypeNode α → List α
  | .quantified here binders body =>
    here.info :: (binders.map (fun var => var.here.info) ++ body.infos)
  | .function here args result => here.info :: (TypeNode.infosList args ++ result.infos)
  | .apply here head args => here.info :: (head.infos ++ TypeNode.infosList args)
  | .reference here _ => [here.info]
  | .var node => [node.here.info]
def TypeNode.infosList : List (TypeNode α) → List α
  | [] => []
  | node :: rest => node.infos ++ TypeNode.infosList rest
end

/-- What is carried by what an option holds. -/
def infosOption {γ : Type} (infos : γ → List α) : Option γ → List α
  | none => []
  | some item => infos item

def Param.infos (param : Param α) : List α :=
  param.here.info :: infosOption TypeNode.infos param.ascription

mutual
def Pattern.infos : Pattern α → List α
  | .alias here _ pattern => here.info :: pattern.infos
  | .constructor here _ fields => here.info :: FieldPattern.infosList fields
  | .id here _ => [here.info]
  | .literal here _ => [here.info]
def FieldPattern.infos : FieldPattern α → List α
  | ⟨here, _, pattern⟩ => here.info :: Pattern.infosOption pattern
def FieldPattern.infosList : List (FieldPattern α) → List α
  | [] => []
  | field :: rest => field.infos ++ FieldPattern.infosList rest
def Pattern.infosOption : Option (Pattern α) → List α
  | none => []
  | some pattern => pattern.infos
end

mutual
def Expr.infos : Expr α → List α
  | .block here bindings result =>
    here.info :: (Binding.infosList bindings ++ Expr.infosOption result)
  | .conditional here condition consequent alternative =>
    here.info :: (condition.infos ++ (consequent.infos ++ alternative.infos))
  | .lambda here params body => here.info :: (params.flatMap Param.infos ++ body.infos)
  | .cases here scrutinee cases => here.info :: (scrutinee.infos ++ Case.infosList cases)
  | .apply here function args => here.info :: (function.infos ++ Expr.infosList args)
  | .select here receiver selection => here.info :: (receiver.infos ++ [selection.here.info])
  | .reference node => [node.here.info]
  | .binary here _ left right => here.info :: (left.infos ++ right.infos)
  | .unary here _ operand => here.info :: operand.infos
  | .literal here _ => [here.info]
def Expr.infosOption : Option (Expr α) → List α
  | none => []
  | some expr => expr.infos
def Expr.infosList : List (Expr α) → List α
  | [] => []
  | expr :: rest => expr.infos ++ Expr.infosList rest
def Binding.infos : Binding α → List α
  | ⟨here, _, ascription, value⟩ =>
    here.info :: (PolyFront.infosOption TypeNode.infos ascription ++ value.infos)
def Binding.infosList : List (Binding α) → List α
  | [] => []
  | binding :: rest => binding.infos ++ Binding.infosList rest
def Case.infos : Case α → List α
  | ⟨here, pattern, body⟩ => here.info :: (pattern.infos ++ body.infos)
def Case.infosList : List (Case α) → List α
  | [] => []
  | case :: rest => case.infos ++ Case.infosList rest
end

def ConstructorParam.infos (param : ConstructorParam α) : List α :=
  param.here.info :: param.ascription.infos

def Constructor.infos (node : Constructor α) : List α :=
  node.here.info :: (node.params.flatMap ConstructorParam.infos ++
    infosOption TypeNode.infos node.result)

def Data.infos (node : Data α) : List α :=
  node.here.info :: (node.typeParams.map (fun var => var.here.info) ++
    node.constructors.flatMap Constructor.infos)

def FunctionBinding.infos (node : FunctionBinding α) : List α :=
  node.here.info :: (node.typeParams.map (fun var => var.here.info) ++
    (node.params.flatMap Param.infos ++ (infosOption TypeNode.infos node.result ++
      node.body.infos)))

def Declaration.infos : Declaration α → List α
  | .data d => d.infos
  | .binding d => d.infos
  | .function d => d.infos

def Namespace.infos (ns : Namespace α) : List α :=
  ns.here.info :: ns.declarations.flatMap Declaration.infos

/-! ## Traversals -/

section Traverse

variable {m : Type → Type} [Monad m] [LawfulMonad m] {β : Type} (f : α → m β)

theorem infos_mapM {γ δ : Type} {g : γ → m δ} {infos : γ → List α} {infos' : δ → List β}
    (h : ∀ item, infos' <$> g item = (infos item).mapM f) (items : List γ) :
    (fun items => items.flatMap infos') <$> items.mapM g = (items.flatMap infos).mapM f := by
  induction items with
  | nil => simp
  | cons item rest ih =>
    simp only [List.mapM_cons, List.flatMap_cons, List.mapM_append, ← h, ← ih, map_bind,
      bind_map_left, map_pure]

theorem infosOption_traverse {γ δ : Type} {g : γ → m δ} {infos : γ → List α}
    {infos' : δ → List β} (h : ∀ item, infos' <$> g item = (infos item).mapM f)
    (item : Option γ) :
    infosOption infos' <$> traverseOption g item = (infosOption infos item).mapM f := by
  cases item with
  | none => simp [traverseOption, infosOption]
  | some item =>
    simp only [traverseOption, infosOption, ← h, map_bind, map_pure]
    rw [map_eq_pure_bind]

theorem typeVars_traverse (vars : List (TypeVarNode α)) :
    (fun vars => vars.map fun var => var.here.info) <$> vars.mapM (TypeVarNode.traverse f) =
      (vars.map fun var => var.here.info).mapM f := by
  induction vars with
  | nil => simp
  | cons var rest ih =>
    simp only [List.mapM_cons, List.map_cons, ← ih, map_bind, bind_map_left, map_pure,
      TypeVarNode.traverse, Located.traverse, bind_assoc, pure_bind]

mutual
theorem TypeNode.infos_traverse : ∀ node : TypeNode α,
    TypeNode.infos <$> node.traverse f = node.infos.mapM f
  | .quantified here binders body => by
    simp only [TypeNode.traverse, TypeNode.infos, List.mapM_cons, List.mapM_append,
      ← TypeNode.infos_traverse body, ← typeVars_traverse, Located.traverse, map_bind,
      bind_map_left, map_pure, bind_assoc, pure_bind]
  | .function here args result => by
    simp only [TypeNode.traverse, TypeNode.infos, List.mapM_cons, List.mapM_append,
      ← TypeNode.infos_traverse result, ← TypeNode.infosList_traverse args, Located.traverse,
      map_bind, bind_map_left, map_pure, bind_assoc, pure_bind]
  | .apply here head args => by
    simp only [TypeNode.traverse, TypeNode.infos, List.mapM_cons, List.mapM_append,
      ← TypeNode.infos_traverse head, ← TypeNode.infosList_traverse args, Located.traverse,
      map_bind, bind_map_left, map_pure, bind_assoc, pure_bind]
  | .reference here id => by
    simp only [TypeNode.traverse, TypeNode.infos, List.mapM_cons, List.mapM_nil, Located.traverse,
      map_bind, map_pure, bind_assoc, pure_bind]
  | .var node => by
    simp only [TypeNode.traverse, TypeVarNode.traverse, TypeNode.infos, List.mapM_cons,
      List.mapM_nil, Located.traverse, map_bind, map_pure, bind_assoc, pure_bind]
theorem TypeNode.infosList_traverse : ∀ nodes : List (TypeNode α),
    TypeNode.infosList <$> TypeNode.traverseList f nodes = (TypeNode.infosList nodes).mapM f
  | [] => by simp [TypeNode.traverseList, TypeNode.infosList]
  | node :: rest => by
    simp only [TypeNode.traverseList, TypeNode.infosList, List.mapM_append,
      ← TypeNode.infos_traverse node, ← TypeNode.infosList_traverse rest, map_bind, bind_map_left,
      map_pure]
end

theorem Param.infos_traverse (param : Param α) :
    Param.infos <$> param.traverse f = param.infos.mapM f := by
  simp only [Param.traverse, Param.infos, List.mapM_cons, Located.traverse,
    ← infosOption_traverse f (TypeNode.infos_traverse f), map_bind, bind_map_left, map_pure,
    bind_assoc, pure_bind]

mutual
theorem Pattern.infos_traverse : ∀ node : Pattern α,
    Pattern.infos <$> node.traverse f = node.infos.mapM f
  | .alias here name pattern => by
    simp only [Pattern.traverse, Pattern.infos, List.mapM_cons, Located.traverse,
      ← Pattern.infos_traverse pattern, map_bind, bind_map_left, map_pure, bind_assoc, pure_bind]
  | .constructor here id fields => by
    simp only [Pattern.traverse, Pattern.infos, List.mapM_cons, Located.traverse,
      ← FieldPattern.infosList_traverse fields, map_bind, bind_map_left, map_pure, bind_assoc,
      pure_bind]
  | .id here name => by
    simp only [Pattern.traverse, Pattern.infos, List.mapM_cons, List.mapM_nil, Located.traverse,
      map_bind, map_pure, bind_assoc, pure_bind]
  | .literal here value => by
    simp only [Pattern.traverse, Pattern.infos, List.mapM_cons, List.mapM_nil, Located.traverse,
      map_bind, map_pure, bind_assoc, pure_bind]
theorem FieldPattern.infos_traverse : ∀ node : FieldPattern α,
    FieldPattern.infos <$> node.traverse f = node.infos.mapM f
  | ⟨here, field, pattern⟩ => by
    simp only [FieldPattern.traverse, FieldPattern.infos, List.mapM_cons, Located.traverse,
      ← Pattern.infosOption_traverse pattern, map_bind, bind_map_left, map_pure, bind_assoc,
      pure_bind]
theorem FieldPattern.infosList_traverse : ∀ nodes : List (FieldPattern α),
    FieldPattern.infosList <$> FieldPattern.traverseList f nodes =
      (FieldPattern.infosList nodes).mapM f
  | [] => by simp [FieldPattern.traverseList, FieldPattern.infosList]
  | field :: rest => by
    simp only [FieldPattern.traverseList, FieldPattern.infosList, List.mapM_append,
      ← FieldPattern.infos_traverse field, ← FieldPattern.infosList_traverse rest, map_bind,
      bind_map_left, map_pure]
theorem Pattern.infosOption_traverse : ∀ node : Option (Pattern α),
    Pattern.infosOption <$> Pattern.traverseOption f node = (Pattern.infosOption node).mapM f
  | none => by simp [Pattern.traverseOption, Pattern.infosOption]
  | some pattern => by
    simp only [Pattern.traverseOption, Pattern.infosOption, ← Pattern.infos_traverse pattern,
      map_bind, map_pure]
    rw [map_eq_pure_bind]
end

mutual
theorem Expr.infos_traverse : ∀ node : Expr α,
    Expr.infos <$> node.traverse f = node.infos.mapM f
  | .block here bindings result => by
    simp only [Expr.traverse, Expr.infos, List.mapM_cons, List.mapM_append, Located.traverse,
      ← Binding.infosList_traverse bindings, ← Expr.infosOption_traverse result, map_bind,
      bind_map_left, map_pure, bind_assoc, pure_bind]
  | .conditional here condition consequent alternative => by
    simp only [Expr.traverse, Expr.infos, List.mapM_cons, List.mapM_append, Located.traverse,
      ← Expr.infos_traverse condition, ← Expr.infos_traverse consequent,
      ← Expr.infos_traverse alternative, map_bind, bind_map_left, map_pure, bind_assoc, pure_bind]
  | .lambda here params body => by
    simp only [Expr.traverse, Expr.infos, List.mapM_cons, List.mapM_append, Located.traverse,
      ← infos_mapM f (Param.infos_traverse f), ← Expr.infos_traverse body, map_bind, bind_map_left,
      map_pure, bind_assoc, pure_bind]
  | .cases here scrutinee cases => by
    simp only [Expr.traverse, Expr.infos, List.mapM_cons, List.mapM_append, Located.traverse,
      ← Expr.infos_traverse scrutinee, ← Case.infosList_traverse cases, map_bind, bind_map_left,
      map_pure, bind_assoc, pure_bind]
  | .apply here function args => by
    simp only [Expr.traverse, Expr.infos, List.mapM_cons, List.mapM_append, Located.traverse,
      ← Expr.infos_traverse function, ← Expr.infosList_traverse args, map_bind, bind_map_left,
      map_pure, bind_assoc, pure_bind]
  | .select here receiver selection => by
    simp only [Expr.traverse, Expr.infos, List.mapM_cons, List.mapM_append, List.mapM_nil,
      Located.traverse, Reference.traverse, ← Expr.infos_traverse receiver, map_bind, bind_map_left,
      map_pure, bind_assoc, pure_bind]
  | .reference node => by
    simp only [Expr.traverse, Reference.traverse, Expr.infos, List.mapM_cons, List.mapM_nil,
      Located.traverse, map_bind, map_pure, bind_assoc, pure_bind]
  | .binary here op left right => by
    simp only [Expr.traverse, Expr.infos, List.mapM_cons, List.mapM_append, Located.traverse,
      ← Expr.infos_traverse left, ← Expr.infos_traverse right, map_bind, bind_map_left, map_pure,
      bind_assoc, pure_bind]
  | .unary here op operand => by
    simp only [Expr.traverse, Expr.infos, List.mapM_cons, Located.traverse,
      ← Expr.infos_traverse operand, map_bind, bind_map_left, map_pure, bind_assoc, pure_bind]
  | .literal here value => by
    simp only [Expr.traverse, Expr.infos, List.mapM_cons, List.mapM_nil, Located.traverse, map_bind,
      map_pure, bind_assoc, pure_bind]
theorem Expr.infosOption_traverse : ∀ node : Option (Expr α),
    Expr.infosOption <$> Expr.traverseOption f node = (Expr.infosOption node).mapM f
  | none => by simp [Expr.traverseOption, Expr.infosOption]
  | some expr => by
    simp only [Expr.traverseOption, Expr.infosOption, ← Expr.infos_traverse expr, map_bind,
      map_pure]
    rw [map_eq_pure_bind]
theorem Expr.infosList_traverse : ∀ nodes : List (Expr α),
    Expr.infosList <$> Expr.traverseList f nodes = (Expr.infosList nodes).mapM f
  | [] => by simp [Expr.traverseList, Expr.infosList]
  | expr :: rest => by
    simp only [Expr.traverseList, Expr.infosList, List.mapM_append, ← Expr.infos_traverse expr,
      ← Expr.infosList_traverse rest, map_bind, bind_map_left, map_pure]
theorem Binding.infos_traverse : ∀ node : Binding α,
    Binding.infos <$> node.traverse f = node.infos.mapM f
  | ⟨here, name, ascription, value⟩ => by
    simp only [Binding.traverse, Binding.infos, List.mapM_cons, List.mapM_append, Located.traverse,
      ← PolyFront.infosOption_traverse f (TypeNode.infos_traverse f), ← Expr.infos_traverse value,
      map_bind, bind_map_left, map_pure, bind_assoc, pure_bind]
theorem Binding.infosList_traverse : ∀ nodes : List (Binding α),
    Binding.infosList <$> Binding.traverseList f nodes = (Binding.infosList nodes).mapM f
  | [] => by simp [Binding.traverseList, Binding.infosList]
  | binding :: rest => by
    simp only [Binding.traverseList, Binding.infosList, List.mapM_append,
      ← Binding.infos_traverse binding, ← Binding.infosList_traverse rest, map_bind, bind_map_left,
      map_pure]
theorem Case.infos_traverse : ∀ node : Case α,
    Case.infos <$> node.traverse f = node.infos.mapM f
  | ⟨here, pattern, body⟩ => by
    simp only [Case.traverse, Case.infos, List.mapM_cons, List.mapM_append, Located.traverse,
      ← Pattern.infos_traverse f pattern, ← Expr.infos_traverse body, map_bind, bind_map_left,
      map_pure, bind_assoc, pure_bind]
theorem Case.infosList_traverse : ∀ nodes : List (Case α),
    Case.infosList <$> Case.traverseList f nodes = (Case.infosList nodes).mapM f
  | [] => by simp [Case.traverseList, Case.infosList]
  | case :: rest => by
    simp only [Case.traverseList, Case.infosList, List.mapM_append, ← Case.infos_traverse case,
      ← Case.infosList_traverse rest, map_bind, bind_map_left, map_pure]
end

theorem ConstructorParam.infos_traverse (param : ConstructorParam α) :
    ConstructorParam.infos <$> param.traverse f = param.infos.mapM f := by
  simp only [ConstructorParam.traverse, ConstructorParam.infos, List.mapM_cons, Located.traverse,
    ← TypeNode.infos_traverse f param.ascription, map_bind, bind_map_left, map_pure, bind_assoc,
    pure_bind]

theorem Constructor.infos_traverse (node : Constructor α) :
    Constructor.infos <$> node.traverse f = node.infos.mapM f := by
  simp only [Constructor.traverse, Constructor.infos, List.mapM_cons, List.mapM_append,
    Located.traverse, ← infos_mapM f (ConstructorParam.infos_traverse f),
    ← infosOption_traverse f (TypeNode.infos_traverse f), map_bind, bind_map_left, map_pure,
    bind_assoc, pure_bind]

theorem Data.infos_traverse (node : Data α) :
    Data.infos <$> node.traverse f = node.infos.mapM f := by
  simp only [Data.traverse, Data.infos, List.mapM_cons, List.mapM_append, Located.traverse,
    ← typeVars_traverse f, ← infos_mapM f (Constructor.infos_traverse f), map_bind, bind_map_left,
    map_pure, bind_assoc, pure_bind]

theorem FunctionBinding.infos_traverse (node : FunctionBinding α) :
    FunctionBinding.infos <$> node.traverse f = node.infos.mapM f := by
  simp only [FunctionBinding.traverse, FunctionBinding.infos, List.mapM_cons, List.mapM_append,
    Located.traverse, ← typeVars_traverse f, ← infos_mapM f (Param.infos_traverse f),
    ← infosOption_traverse f (TypeNode.infos_traverse f), ← Expr.infos_traverse f node.body,
    map_bind, bind_map_left, map_pure, bind_assoc, pure_bind]

theorem Declaration.infos_traverse (node : Declaration α) :
    Declaration.infos <$> node.traverse f = node.infos.mapM f := by
  cases node with
  | data d =>
    simp only [Declaration.traverse, Declaration.infos, ← Data.infos_traverse f d, map_bind,
      map_pure]
    rw [map_eq_pure_bind]
  | binding d =>
    simp only [Declaration.traverse, Declaration.infos, ← Binding.infos_traverse f d, map_bind,
      map_pure]
    rw [map_eq_pure_bind]
  | function d =>
    simp only [Declaration.traverse, Declaration.infos, ← FunctionBinding.infos_traverse f d,
      map_bind, map_pure]
    rw [map_eq_pure_bind]

end Traverse

end PolyFront
