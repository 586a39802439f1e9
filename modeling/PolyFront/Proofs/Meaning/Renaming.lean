import PolyFront.Constant.Transfer
import PolyFront.Proofs.Meaning.Binders

/-!
# Renaming of lowered code

A renaming replaces every name in a piece of code, where it is bound and where it is referred to.
The names of renamed code are the renamed names of the code, and its patterns match the same.
-/

namespace PolyFront.Lowered

section Rename

variable (ρ : Name → Name)

def Param.rename (param : Param) : Param := { param with name := ρ param.name }

mutual
def Pattern.rename : Pattern → Pattern
  | .id name => .id (ρ name)
  | .alias name pattern => .alias (ρ name) pattern.rename
  | .literal value => .literal value
  | .constructor name fields => .constructor name (FieldPattern.renameList fields)
def FieldPattern.rename : FieldPattern → FieldPattern
  | ⟨name, pattern⟩ => ⟨name, pattern.rename⟩
def FieldPattern.renameList : List FieldPattern → List FieldPattern
  | [] => []
  | field :: rest => field.rename :: FieldPattern.renameList rest
end

mutual
def Value.rename : Value → Value
  | .literal value => .literal value
  | .reference name type => .reference (ρ name) type
  | .lambda params body => .lambda (params.map (Param.rename ρ)) body.rename
  | .box value => .box value.rename
  | .unbox value => .unbox value.rename
def Value.renameList : List Value → List Value
  | [] => []
  | value :: rest => value.rename :: Value.renameList rest
def Expr.rename : Expr → Expr
  | .value value => .value value.rename
  | .apply type function args => .apply type function.rename (Value.renameList args)
  | .unary op operand => .unary op operand.rename
  | .binary left op right => .binary left.rename op right.rename
  | .conditional condition consequent alternative =>
    .conditional condition.rename consequent.rename alternative.rename
  | .cases scrutinee cases => .cases scrutinee.rename (Case.renameList cases)
  | .block bindings result => .block (Binding.renameList bindings) result.rename
def Case.rename : Case → Case
  | ⟨pattern, body⟩ => ⟨pattern.rename ρ, body.rename⟩
def Case.renameList : List Case → List Case
  | [] => []
  | case :: rest => case.rename :: Case.renameList rest
def Binding.rename : Binding → Binding
  | .assign name type body => .assign (ρ name) type body.rename
  | .join name type params body => .join (ρ name) type (params.map (Param.rename ρ)) body.rename
def Binding.renameList : List Binding → List Binding
  | [] => []
  | binding :: rest => binding.rename :: Binding.renameList rest
end

/-- The names of definitions are kept. -/
def Definition.rename (d : Definition) : Definition := { d with body := d.body.rename ρ }

def Declaration.rename : Declaration → Declaration
  | .data d => .data d
  | .definition d => .definition (d.rename ρ)

end Rename

/-- The names inside of every definition are renamed in a way of its own. -/
def Namespace.renameEach (ρ : QualifiedName → Name → Name) (ns : Namespace) : Namespace :=
  { ns with declarations := ns.declarations.map fun
      | .data d => .data d
      | .definition d => .definition (d.rename (ρ d.name)) }

/-! ## Lists -/

section Lists

variable (ρ : Name → Name)

theorem FieldPattern.renameList_eq (fields : List FieldPattern) :
    FieldPattern.renameList ρ fields = fields.map (FieldPattern.rename ρ) := by
  induction fields with
  | nil => rfl
  | cons field rest ih => rw [FieldPattern.renameList, ih, List.map_cons]

theorem Value.renameList_eq (values : List Value) :
    Value.renameList ρ values = values.map (Value.rename ρ) := by
  induction values with
  | nil => rfl
  | cons value rest ih => rw [Value.renameList, ih, List.map_cons]

theorem Case.renameList_eq (cases : List Case) :
    Case.renameList ρ cases = cases.map (Case.rename ρ) := by
  induction cases with
  | nil => rfl
  | cons case rest ih => rw [Case.renameList, ih, List.map_cons]

theorem Binding.renameList_eq (bindings : List Binding) :
    Binding.renameList ρ bindings = bindings.map (Binding.rename ρ) := by
  induction bindings with
  | nil => rfl
  | cons binding rest ih => rw [Binding.renameList, ih, List.map_cons]

theorem Param.map_name_rename (params : List Param) :
    (params.map (Param.rename ρ)).map Param.name = (params.map Param.name).map ρ := by
  rw [List.map_map, List.map_map]
  rfl

end Lists

/-! ## Functions -/

section Functions

variable (ρ : Name → Name)

theorem Expr.params?_rename (expr : Expr) :
    (expr.rename ρ).params? = expr.params?.map (List.map (Param.rename ρ)) := by
  cases expr with
  | value value => cases value <;> rfl
  | _ => rfl

theorem Expr.inner_rename (expr : Expr) : (expr.rename ρ).inner = expr.inner.rename ρ := by
  cases expr with
  | value value => cases value <;> rfl
  | _ => rfl

theorem Binding.params?_rename (binding : Binding) :
    (binding.rename ρ).params? = binding.params?.map (List.map (Param.rename ρ)) := by
  cases binding with
  | assign name type body => exact body.params?_rename ρ
  | join name type params body => rfl

theorem Binding.inner_rename (binding : Binding) :
    (binding.rename ρ).inner = binding.inner.rename ρ := by
  cases binding with
  | assign name type body => exact body.inner_rename ρ
  | join name type params body => rfl

theorem Binding.name_rename (binding : Binding) : (binding.rename ρ).name = ρ binding.name := by
  cases binding <;> rfl

theorem Binding.paramNames_rename (binding : Binding) :
    (binding.rename ρ).paramNames = binding.paramNames.map ρ := by
  rw [paramNames, params?_rename, paramNames]
  cases binding.params? with
  | none => rfl
  | some params => exact Param.map_name_rename ρ params

end Functions

/-! ## Names -/

section Names

variable (ρ : Name → Name)

mutual
theorem Pattern.boundNames_rename : ∀ pattern : Pattern,
    (pattern.rename ρ).boundNames = pattern.boundNames.map ρ
  | .id _ => rfl
  | .alias name pattern => by
    rw [Pattern.rename, Pattern.boundNames, Pattern.boundNames_rename pattern, Pattern.boundNames,
      List.map_cons]
  | .literal _ => rfl
  | .constructor _ fields => FieldPattern.boundNamesList_rename fields
theorem FieldPattern.boundNames_rename : ∀ field : FieldPattern,
    (field.rename ρ).boundNames = field.boundNames.map ρ
  | ⟨_, pattern⟩ => Pattern.boundNames_rename pattern
theorem FieldPattern.boundNamesList_rename : ∀ fields : List FieldPattern,
    FieldPattern.boundNamesList (FieldPattern.renameList ρ fields) =
      (FieldPattern.boundNamesList fields).map ρ
  | [] => rfl
  | field :: rest => by
    rw [FieldPattern.renameList, FieldPattern.boundNamesList, FieldPattern.boundNames_rename field,
      FieldPattern.boundNamesList_rename rest, FieldPattern.boundNamesList, List.map_append]
end

theorem flatMap_rename {α : Type} {items : List α} {rename : α → α} {names : α → List Name}
    (h : ∀ item ∈ items, names (rename item) = (names item).map ρ) :
    (items.map rename).flatMap names = (items.flatMap names).map ρ := by
  rw [List.flatMap_map, List.map_flatMap]
  exact List.flatMap_congr h

/-- Renamed code binds the renamed names. -/
theorem boundNames_rename :
    (∀ value : Value, (value.rename ρ).boundNames = value.boundNames.map ρ) ∧
      ∀ expr : Expr, (expr.rename ρ).boundNames = expr.boundNames.map ρ := by
  refine induct ?_ ?_ ?_ ?_ ?_ ?_ ?_ ?_ ?_ ?_ ?_ ?_
  · exact fun value => rfl
  · exact fun name type => rfl
  · intro params body ih
    rw [Value.rename, Value.boundNames, Param.map_name_rename, ih, Value.boundNames,
      List.map_append]
  · exact fun value ih => ih
  · exact fun value ih => ih
  · exact fun value ih => ih
  · intro type function args ihFunction _ ihArgs
    rw [Expr.rename, Expr.boundNames, ihFunction, Value.renameList_eq, Value.boundNamesList_eq,
      flatMap_rename ρ ihArgs, Expr.boundNames, List.map_append, Value.boundNamesList_eq]
  · exact fun op operand ih => ih
  · intro left op right ihLeft ihRight
    rw [Expr.rename, Expr.boundNames, ihLeft, ihRight, Expr.boundNames, List.map_append]
  · intro condition consequent alternative ihCondition ihConsequent ihAlternative
    rw [Expr.rename, Expr.boundNames, ihCondition, ihConsequent, ihAlternative, Expr.boundNames,
      List.map_append, List.map_append]
  · intro scrutinee cases ihScrutinee ihCases
    rw [Expr.rename, Expr.boundNames, ihScrutinee, Case.renameList_eq, Case.boundNamesList_eq,
      flatMap_rename ρ fun case hcase => ?_, Expr.boundNames, List.map_append,
      Case.boundNamesList_eq]
    have hbody := ihCases case hcase
    obtain ⟨pattern, body⟩ := case
    rw [Case.rename, Case.boundNames, Pattern.boundNames_rename, hbody, Case.boundNames,
      List.map_append]
  · intro bindings result ihBindings ihResult
    rw [Expr.rename, Expr.boundNames, ihResult, Binding.renameList_eq, Binding.boundNamesList_eq,
      flatMap_rename ρ fun binding hbinding => ?_, Expr.boundNames, List.map_append,
      Binding.boundNamesList_eq]
    rw [Binding.boundNames_eq, binding.name_rename, binding.paramNames_rename,
      binding.inner_rename, ihBindings binding hbinding, Binding.boundNames_eq, List.map_cons,
      List.map_append]

/-- Renamed code refers to the renamed names. -/
theorem references_rename :
    (∀ value : Value, (value.rename ρ).references = value.references.map ρ) ∧
      ∀ expr : Expr, (expr.rename ρ).references = expr.references.map ρ := by
  refine induct ?_ ?_ ?_ ?_ ?_ ?_ ?_ ?_ ?_ ?_ ?_ ?_
  · exact fun value => rfl
  · exact fun name type => rfl
  · exact fun params body ih => ih
  · exact fun value ih => ih
  · exact fun value ih => ih
  · exact fun value ih => ih
  · intro type function args ihFunction _ ihArgs
    rw [Expr.rename, Expr.references, ihFunction, Value.renameList_eq, Value.referencesList_eq,
      flatMap_rename ρ ihArgs, Expr.references, List.map_append, Value.referencesList_eq]
  · exact fun op operand ih => ih
  · intro left op right ihLeft ihRight
    rw [Expr.rename, Expr.references, ihLeft, ihRight, Expr.references, List.map_append]
  · intro condition consequent alternative ihCondition ihConsequent ihAlternative
    rw [Expr.rename, Expr.references, ihCondition, ihConsequent, ihAlternative, Expr.references,
      List.map_append, List.map_append]
  · intro scrutinee cases ihScrutinee ihCases
    rw [Expr.rename, Expr.references, ihScrutinee, Case.renameList_eq, Case.referencesList_eq,
      flatMap_rename ρ fun case hcase => ?_, Expr.references, List.map_append,
      Case.referencesList_eq]
    have hbody := ihCases case hcase
    obtain ⟨pattern, body⟩ := case
    exact hbody
  · intro bindings result ihBindings ihResult
    rw [Expr.rename, Expr.references, ihResult, Binding.renameList_eq, Binding.referencesList_eq,
      flatMap_rename ρ fun binding hbinding => ?_, Expr.references, List.map_append,
      Binding.referencesList_eq]
    rw [Binding.references_eq, binding.inner_rename, ihBindings binding hbinding,
      Binding.references_eq]

variable {ρ} (hρ : Function.Injective ρ)
include hρ

theorem contains_map (names : List Name) (name : Name) :
    (names.map ρ).contains (ρ name) = names.contains name := by
  rw [Bool.eq_iff_iff, List.contains_iff_mem, List.contains_iff_mem]
  exact List.mem_map_of_injective hρ

theorem eraseDups_map (names : List Name) : (names.map ρ).eraseDups = names.eraseDups.map ρ := by
  induction hlength : names.length using Nat.strongRecOn generalizing names with
  | ind length ih =>
    cases names with
    | nil => rfl
    | cons name rest =>
      have hfilter : (rest.map ρ).filter (fun other => !(other == ρ name)) =
          (rest.filter fun other => !(other == name)).map ρ := by
        rw [List.filter_map]
        congr 1
        refine List.filter_congr fun other _ => ?_
        simp [hρ.eq_iff]
      have hlt : (rest.filter fun other => !(other == name)).length < length := by
        rw [← hlength]
        exact Nat.lt_succ_of_le (List.length_filter_le _ _)
      rw [List.map_cons, List.eraseDups_cons, hfilter, ih _ hlt _ rfl, List.eraseDups_cons,
        List.map_cons]

theorem Definition.freeVariables_rename (d : Definition) :
    (d.rename ρ).freeVariables = d.freeVariables.map ρ := by
  rw [freeVariables, freeVariables, ← eraseDups_map hρ, Definition.rename]
  simp only
  rw [(references_rename ρ).2, (boundNames_rename ρ).2, List.filter_map]
  congr 2
  refine List.filter_congr fun name _ => ?_
  rw [Function.comp_apply, contains_map hρ]

end Names

/-! ## Patterns -/

section Patterns

variable (ρ : Name → Name)

theorem Pattern.isIrrefutable_rename (pattern : Pattern) :
    (pattern.rename ρ).isIrrefutable = pattern.isIrrefutable := by
  fun_induction Pattern.isIrrefutable pattern with
  | case1 name => rfl
  | case2 name inner ih => exact ih
  | case3 value => rfl
  | case4 name fields => rfl

theorem FieldPattern.all_isIrrefutable_rename (fields : List FieldPattern) :
    ((FieldPattern.renameList ρ fields).all fun field => field.pattern.isIrrefutable) =
      fields.all fun field => field.pattern.isIrrefutable := by
  rw [renameList_eq, List.all_map]
  congr 1
  funext field
  obtain ⟨name, pattern⟩ := field
  exact pattern.isIrrefutable_rename ρ

/-- A renamed pattern matches the same. -/
theorem Pattern.matching_rename (scrutinee : Lattice) :
    ∀ pattern : Pattern, (pattern.rename ρ).matching scrutinee = pattern.matching scrutinee
  | .id _ => rfl
  | .alias _ inner => inner.matching_rename scrutinee
  | .literal _ => rfl
  | .constructor name fields => by
    rw [Pattern.rename, Pattern.matching, Pattern.matching,
      FieldPattern.all_isIrrefutable_rename]

theorem Case.matching_rename (scrutinee : Lattice) (case : Case) :
    (case.rename ρ).pattern.matching scrutinee = case.pattern.matching scrutinee := by
  obtain ⟨pattern, body⟩ := case
  exact pattern.matching_rename ρ scrutinee

end Patterns

end PolyFront.Lowered
