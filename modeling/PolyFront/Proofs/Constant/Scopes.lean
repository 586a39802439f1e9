import PolyFront.Proofs.Constant.Constructors
import PolyFront.Proofs.Constant.Preserved
import PolyFront.Proofs.Meaning.Free

/-!
# Simplified code stays in scope

Simplification drops a binding or enters a case without its pattern only when all names bound there
are known to be constants, and it replaces every reference to a constant but those at function
types.  So no reference is left to a name whose binder is gone, as long as no such name is referred
to at a function type.  The only references that are added are those to constructors, which stand
for the result of a call, and these are declared.
-/

namespace PolyFront.Lowered

/-! ## Free names before and after -/

/-- All references to the name are replaced, in code with the given uses of names. -/
def Gone (known : Analysis) (uses : List Use) (name : Name) : Prop :=
  known.isConstant name = true ∧ .function name ∉ uses

/-- The free names of code before and after its simplification, as functions of the visible names.
What is free afterwards was free before, or belongs to a declared constructor, when at least all
names but those that are gone are still visible. -/
def Shrinks (known : Analysis) (declared : List ConstructorName) (uses : List Use)
    (before after : List Name → List Name) : Prop :=
  ∀ visible visible' : List Name, (∀ name ∈ visible, name ∈ visible' ∨ Gone known uses name) →
    ∀ name ∈ after visible', name ∈ before visible ∨ ∃ c ∈ declared, name = .constructor c

section Shrinks

variable {known : Analysis} {declared : List ConstructorName} {uses : List Use}
  {before before' after after' : List Name → List Name}

theorem Shrinks.of_none (h : ∀ visible, after visible = []) :
    Shrinks known declared uses before after := by
  intro visible visible' _ name hname
  rw [h] at hname
  cases hname

theorem Shrinks.append (h : Shrinks known declared uses before after)
    (h' : Shrinks known declared uses before' after') :
    Shrinks known declared uses (fun visible => before visible ++ before' visible)
      fun visible => after visible ++ after' visible := by
  intro visible visible' hvisible name hname
  rcases List.mem_append.1 hname with hname | hname
  · exact (h visible visible' hvisible name hname).imp_left (List.mem_append_left _)
  · exact (h' visible visible' hvisible name hname).imp_left (List.mem_append_right _)

theorem Shrinks.mono (h : Shrinks known declared uses before after)
    (hsubset : ∀ visible, before visible ⊆ before' visible) :
    Shrinks known declared uses before' after := by
  intro visible visible' hvisible name hname
  exact (h visible visible' hvisible name hname).imp_left fun hfree => hsubset visible hfree

/-- Names are bound before, and those that are not gone are bound afterwards as well. -/
theorem Shrinks.under (h : Shrinks known declared uses before after) {names names' : List Name}
    (hnames : ∀ name ∈ names, name ∈ names' ∨ Gone known uses name) :
    Shrinks known declared uses (fun visible => before (names ++ visible))
      fun visible => after (names' ++ visible) := by
  intro visible visible' hvisible
  refine h _ _ fun name hname => ?_
  rcases List.mem_append.1 hname with hname | hname
  · exact (hnames name hname).imp_left (List.mem_append_left _)
  · exact (hvisible name hname).imp_left (List.mem_append_right _)

theorem Shrinks.params (h : Shrinks known declared uses before after) (names : List Name) :
    Shrinks known declared uses (fun visible => before (names ++ visible))
      fun visible => after (names ++ visible) :=
  h.under fun _ hname => .inl hname

theorem Shrinks.flatMap {α : Type} {items : List α} {simplify : α → α}
    {free : List Name → α → List Name}
    (h : ∀ item ∈ items, Shrinks known declared uses (fun visible => free visible item)
      fun visible => free visible (simplify item)) :
    Shrinks known declared uses (fun visible => items.flatMap (free visible))
      fun visible => (items.map simplify).flatMap (free visible) := by
  intro visible visible' hvisible name hname
  rw [List.mem_flatMap] at hname ⊢
  obtain ⟨_, hitem, hfree⟩ := hname
  obtain ⟨item, hmem, rfl⟩ := List.mem_map.1 hitem
  exact (h item hmem visible visible' hvisible name hfree).imp_left fun hfree => ⟨item, hmem, hfree⟩

end Shrinks

/-! ## Code -/

section Code

variable {known : Analysis} {declared : List ConstructorName} {uses : List Use} {scoping : Scoping}

/-- Simplification of the value leaves no name without a binder. -/
def Value.StaysInScope (known : Analysis) (declared : List ConstructorName) (uses : List Use)
    (scoping : Scoping) (value : Value) : Prop :=
  value.uses ⊆ uses → Shrinks known declared uses (fun visible => value.free scoping visible)
    fun visible => (known.simplifyValue value).free scoping visible

/-- Simplification of the expression leaves no name without a binder. -/
def Expr.StaysInScope (known : Analysis) (declared : List ConstructorName) (uses : List Use)
    (scoping : Scoping) (expr : Expr) : Prop :=
  expr.uses ⊆ uses → Shrinks known declared uses (fun visible => expr.free scoping visible)
    fun visible => (known.simplifyExpr expr).free scoping visible

theorem simplifyValues_eq (values : List Value) :
    known.simplifyValues values = values.map known.simplifyValue := by
  induction values with
  | nil => rfl
  | cons value rest ih => rw [Analysis.simplifyValues, ih, List.map_cons]

/-- A reference that is kept is to a name that is not gone. -/
theorem staysInScope_reference (name : Name) (type : Ty) :
    Value.StaysInScope known declared uses scoping (.reference name type) := by
  intro huses visible visible' hvisible other hother
  refine .inl ?_
  show other ∈ Value.free scoping visible (.reference name type)
  replace hother : other ∈ (known.simplifyValue (.reference name type)).free scoping visible' :=
    hother
  rw [Analysis.simplifyValue] at hother
  have hkept : other ∈ Value.free scoping visible' (.reference name type) ∧
      (known.isConstant name = true → type.isFunctional = true) := by
    unfold Analysis.isConstant
    split at hother
    · rename_i value hvalue
      split at hother
      · rename_i hfunctional
        exact ⟨hother, fun _ => hfunctional⟩
      · cases hother
    · exact ⟨hother, fun hfalse => Bool.noConfusion hfalse⟩
  obtain ⟨hfree, hfunctional⟩ := hkept
  rw [Value.free] at hfree ⊢
  split at hfree
  · cases hfree
  · rename_i hhidden
    obtain rfl := List.mem_singleton.1 hfree
    refine if_neg (fun hmem => ?_) ▸ List.mem_singleton_self other
    obtain ⟨hconstant, hunused⟩ := (hvisible other hmem).resolve_left hhidden
    refine hunused (huses ?_)
    rw [Value.uses, if_pos (hfunctional hconstant)]
    exact List.mem_singleton_self _

/-- A call is replaced by a literal, or by a constructor that is declared. -/
theorem free_constantCall? (hknown : known.Among declared) {type : Ty} {function : Value}
    {result : Expr} (h : known.constantCall? type function = some result) {visible : List Name}
    {name : Name} (hname : name ∈ result.free scoping visible) :
    ∃ c ∈ declared, name = .constructor c := by
  cases function with
  | reference callee functionType =>
    rw [Analysis.constantCall?] at h
    split at h
    · split at h
      · obtain rfl := Option.some.inj h
        cases hname
      · rename_i c hc
        obtain rfl := Option.some.inj h
        rw [Expr.free, Value.freeList, List.append_nil, Value.free] at hname
        split at hname
        · cases hname
        · exact ⟨c, hknown callee _ hc c rfl, List.mem_singleton.1 hname⟩
      · cases h
    · cases h
  | _ => cases h

theorem mem_of_selectedCase? {scrutinee : Lattice} {cases : List Case} {selected : Case}
    (h : known.selectedCase? scrutinee cases = some selected) :
    selected ∈ cases ∧ ∀ name ∈ selected.pattern.boundNames, known.isConstant name = true := by
  rw [Analysis.selectedCase?] at h
  split at h
  · rename_i only hcandidates
    obtain ⟨hconstants, heq⟩ := Option.ite_none_right_eq_some.1 h
    obtain rfl := Option.some.inj heq
    have hmem : (only, Matching.always) ∈ candidates Case.pattern scrutinee cases := by
      rw [hcandidates]
      exact List.mem_singleton_self _
    exact ⟨candidates_subset hmem, List.all_eq_true.1 hconstants⟩
  · cases h

theorem simplifyBinding_free (binding : Binding) (visible : List Name) :
    (known.simplifyBinding binding).free scoping visible =
      (known.simplifyExpr binding.inner).free scoping (binding.paramNames ++ visible) := by
  cases binding with
  | join name type params body => rfl
  | assign name type body =>
    rcases body.function_or_plain with ⟨params, inner, rfl⟩ | ⟨-, hparams, hinner⟩
    · rfl
    · rw [Binding.inner, hinner, Binding.paramNames, Binding.params?, hparams]
      rfl

variable (hseparate : ∀ name, .plain name ∈ uses → .function name ∉ uses)
include hseparate

/-- A name whose binding is dropped is gone. -/
theorem gone_of_isInlined {binding : Binding} (h : known.isInlined binding = true)
    (huses : binding.uses ⊆ uses) : Gone known uses binding.name := by
  cases binding with
  | join name type params body => cases h
  | assign name type body =>
    rw [Analysis.isInlined, Bool.and_eq_true, Bool.and_eq_true, Bool.not_eq_true'] at h
    refine ⟨h.2, hseparate name (huses ?_)⟩
    rw [Binding.uses, h.1.1]
    exact List.mem_cons_self

/-- Every name of a block is still bound in it, or gone. -/
theorem name_simplifyBindings {bindings : List Binding} (huses : Binding.usesList bindings ⊆ uses) :
    ∀ name ∈ bindings.map Binding.name,
      name ∈ (known.simplifyBindings bindings).map Binding.name ∨ Gone known uses name := by
  induction bindings with
  | nil => exact fun name hname => .inl hname
  | cons binding rest ih =>
    rw [Binding.usesList, List.append_subset] at huses
    intro name hname
    rw [Analysis.simplifyBindings]
    rcases List.mem_cons.1 hname with rfl | hname
    · split
      · rename_i hinlined
        exact .inr (gone_of_isInlined hseparate hinlined huses.1)
      · rw [List.map_cons, simplifyBinding_name]
        exact .inl List.mem_cons_self
    · split
      · exact ih huses.2 name hname
      · rw [List.map_cons]
        exact (ih huses.2 name hname).imp_left (List.mem_cons_of_mem _)

theorem shrinks_bindings {bindings : List Binding} (huses : Binding.usesList bindings ⊆ uses)
    (h : ∀ binding ∈ bindings, binding.inner.StaysInScope known declared uses scoping) :
    Shrinks known declared uses (fun visible => Binding.freeList scoping visible bindings)
      fun visible => Binding.freeList scoping visible (known.simplifyBindings bindings) := by
  induction bindings with
  | nil => exact Shrinks.of_none fun _ => rfl
  | cons binding rest ih =>
    rw [Binding.usesList, List.append_subset] at huses
    rw [List.forall_mem_cons] at h
    have hrest := ih huses.2 h.2
    rw [Analysis.simplifyBindings]
    split
    · rename_i hinlined
      -- The own name of the binding is visible in the others before, but not afterwards.
      have hgone : ∀ name ∈ [binding.name], name ∈ [] ∨ Gone known uses name := by
        intro name hname
        obtain rfl := List.mem_singleton.1 hname
        exact .inr (gone_of_isInlined hseparate hinlined huses.1)
      exact (hrest.under hgone).mono fun visible => List.subset_append_right _ _
    · have hinner := h.1 fun _ hmem => huses.1 (binding.inner_uses_subset hmem)
      have hbinding : Shrinks known declared uses (fun visible => binding.free scoping visible)
          fun visible => (known.simplifyBinding binding).free scoping visible := by
        simp only [simplifyBinding_free]
        simp only [Binding.free_eq]
        exact hinner.params binding.paramNames
      simp only [Binding.freeList, simplifyBinding_name]
      exact (hbinding.params [binding.name]).append (hrest.params [binding.name])

theorem staysInScope_block {bindings : List Binding} {result : Expr}
    (hbindings : ∀ binding ∈ bindings, binding.inner.StaysInScope known declared uses scoping)
    (hresult : result.StaysInScope known declared uses scoping) :
    Expr.StaysInScope known declared uses scoping (.block bindings result) := by
  intro huses
  rw [Expr.uses, List.append_subset] at huses
  have hnames : ∀ name ∈ bindings.map Binding.name,
      name ∈ (known.simplifyBindings bindings).map Binding.name ∨ Gone known uses name :=
    name_simplifyBindings hseparate huses.1
  have hall := shrinks_bindings hseparate huses.1 hbindings
  have hlast := (hresult huses.2).under hnames
  rw [Analysis.simplifyExpr]
  split
  · rename_i hempty
    rw [hempty] at hlast
    exact hlast.mono fun visible => List.subset_append_right _ _
  · cases scoping with
    | whole => exact (hall.under hnames).append hlast
    | ordered => exact hall.append hlast

theorem staysInScope_cases {scrutinee : Value} {cases : List Case}
    (hscrutinee : scrutinee.StaysInScope known declared uses scoping)
    (hcases : ∀ case ∈ cases, case.body.StaysInScope known declared uses scoping) :
    Expr.StaysInScope known declared uses scoping (.cases scrutinee cases) := by
  intro huses
  rw [Expr.uses, List.append_subset, Case.usesList_eq] at huses
  have hcase : ∀ case ∈ cases, case.pattern.boundNames.map Use.plain ⊆ uses ∧
      Shrinks known declared uses (fun visible => case.body.free scoping visible)
        fun visible => (known.simplifyExpr case.body).free scoping visible := by
    intro case hmem
    have hown : case.uses ⊆ uses := fun _ huse =>
      huses.2 (List.mem_flatMap.2 ⟨case, hmem, huse⟩)
    obtain ⟨pattern, body⟩ := case
    rw [Case.uses, List.append_subset] at hown
    exact ⟨hown.1, hcases _ hmem hown.2⟩
  rw [Analysis.simplifyExpr]
  cases hselected : known.selectedCase? (known.valueOf scrutinee) (known.simplifyCases cases) with
  | some selected =>
    obtain ⟨hsimplified, hconstants⟩ := mem_of_selectedCase? hselected
    rw [simplifyCases_eq] at hsimplified
    obtain ⟨case, hmem, rfl⟩ := List.mem_map.1 hsimplified
    obtain ⟨hplain, hbody⟩ := hcase case hmem
    have hgone : ∀ name ∈ case.pattern.boundNames, name ∈ [] ∨ Gone known uses name :=
      fun name hname => .inr ⟨hconstants name hname,
        hseparate name (hplain (List.mem_map_of_mem hname))⟩
    obtain ⟨pattern, body⟩ := case
    refine (hbody.under hgone).mono fun visible name hname => ?_
    rw [Expr.free, Case.freeList_eq]
    exact List.mem_append_right _ (List.mem_flatMap.2 ⟨_, hmem, hname⟩)
  | none =>
    simp only [Expr.free, simplifyCases_eq, Case.freeList_eq]
    refine (hscrutinee huses.1).append (Shrinks.flatMap fun case hmem => ?_)
    have hbody := (hcase case hmem).2
    obtain ⟨pattern, body⟩ := case
    exact hbody.params pattern.boundNames

/-- Simplification leaves no name without a binder. -/
theorem staysInScope_all (hknown : known.Among declared) :
    (∀ value : Value, value.StaysInScope known declared uses scoping) ∧
      ∀ expr : Expr, expr.StaysInScope known declared uses scoping := by
  refine induct ?_ ?_ ?_ ?_ ?_ ?_ ?_ ?_ ?_ ?_ ?_ ?_
  · exact fun value _ => Shrinks.of_none fun _ => rfl
  · exact fun name type => staysInScope_reference name type
  · exact fun params body ih huses => (ih huses).params (params.map Param.name)
  · exact fun value ih => ih
  · exact fun value ih => ih
  · exact fun value ih => ih
  · intro type function args ihFunction _ ihArgs huses
    rw [Expr.uses, List.append_subset, Value.usesList_eq] at huses
    cases hresult : known.constantCall? type function with
    | some result =>
      rw [simplifyExpr_replaced hresult]
      exact fun _ _ _ name hname => .inr (free_constantCall? hknown hresult hname)
    | none =>
      rw [simplifyExpr_kept hresult]
      simp only [Expr.free, simplifyValues_eq, Value.freeList_eq]
      refine (ihFunction huses.1).append (Shrinks.flatMap fun arg harg => ?_)
      exact ihArgs arg harg fun _ huse => huses.2 (List.mem_flatMap.2 ⟨arg, harg, huse⟩)
  · intro op operand ih huses
    rw [Analysis.simplifyExpr]
    split
    · exact Shrinks.of_none fun _ => rfl
    · exact ih huses
  · intro left op right ihLeft ihRight huses
    rw [Expr.uses, List.append_subset] at huses
    rw [Analysis.simplifyExpr]
    split
    · exact Shrinks.of_none fun _ => rfl
    · exact (ihLeft huses.1).append (ihRight huses.2)
  · intro condition consequent alternative ihCondition ihConsequent ihAlternative huses
    rw [Expr.uses, List.append_subset, List.append_subset] at huses
    rw [Analysis.simplifyExpr]
    split
    · refine (ihConsequent huses.1.2).mono fun visible name hname => ?_
      exact List.mem_append_left _ (List.mem_append_right _ hname)
    · exact (ihAlternative huses.2).mono fun visible => List.subset_append_right _ _
    · exact ((ihCondition huses.1.1).append (ihConsequent huses.1.2)).append
        (ihAlternative huses.2)
  · exact fun scrutinee cases => staysInScope_cases hseparate
  · exact fun bindings result => staysInScope_block hseparate

end Code

/-! ## Namespaces -/

/-- The optimiser leaves no dangling references.  In a namespace in which no name that is bound by a
pattern, or to a value of another type than a function type, is referred to at a function type,
every name that an optimised definition refers to is bound around the reference, was free in the
definition before, or is a constructor of the namespace, whatever the bindings of a block see of
each other. -/
theorem optimise_inScope {ns : Namespace} (hns : ∀ d ∈ ns.definitions, d.body.IsSeparate) :
    ∃ simplified known, Analyse.optimise ns Analysis.start = .ok simplified known ∧
      List.Forall₂ (fun d d' : Definition => d'.name = d.name ∧ ∀ scoping : Scoping,
          ∀ name ∈ d'.body.free scoping [], name ∈ d.body.free scoping [] ∨
            ∃ c ∈ ns.constructorNames, name = .constructor c)
        ns.definitions simplified.definitions := by
  obtain ⟨known, hrun, hknown⟩ := declarations_among ns
  refine ⟨ns.simplified known, known, ?_, ?_⟩
  · show EStateM.bind (Analyse.declarations ns.declarations) _ Analysis.start = _
    rw [EStateM.bind, hrun]
    rfl
  · rw [Namespace.simplified_definitions, List.forall₂_map_right_iff, List.forall₂_same]
    refine fun d hd => ⟨rfl, fun scoping name hname => ?_⟩
    have hstays : d.body.StaysInScope known ns.constructorNames d.body.uses scoping :=
      (staysInScope_all (hns d hd) hknown).2 d.body
    exact hstays (List.Subset.refl _) [] [] (fun _ hmem => .inl hmem) name hname

/-- A function that gives a constructor without fields, and one that calls it on a constant. -/
def Namespace.folding : Namespace :=
  let int := Ty.builtIn .int
  let ns : NamespaceName := ⟨[], "folding"⟩
  let unit := Ty.constructor ⟨ns, "Unit"⟩ .type
  let done : ConstructorName := ⟨⟨ns, "Unit"⟩, ⟨ns, "Done"⟩⟩
  let finish := Expr.value (.lambda [⟨.bound "x" 0, int⟩]
    (.value (.reference (.constructor done) unit)))
  let call := Expr.apply unit (.reference (.binding ⟨ns, "finish"⟩) (.function [int] unit))
    [.reference (.bound "m" 3) int]
  let body := Expr.block [.assign (.bound "n" 2) int (.binary (.literal (.int 1)) .add
    (.literal (.int 1)))] (.cases (.reference (.bound "n" 2) int) [⟨.id (.bound "m" 3), call⟩])
  ⟨ns, [.data ⟨⟨ns, "Unit"⟩, [⟨done, []⟩]⟩,
    .definition ⟨⟨ns, "finish"⟩, .function [int] unit, finish⟩,
    .definition ⟨⟨ns, "run"⟩, .function [int] unit, .value (.lambda [⟨.bound "y" 1, int⟩] body)⟩]⟩

theorem optimise_inScope_folding : (∀ d ∈ Namespace.folding.definitions, d.body.IsSeparate) ∧
    ∃ simplified known, Analyse.optimise Namespace.folding Analysis.start = .ok simplified known ∧
      List.Forall₂ (fun d d' : Definition => d'.name = d.name ∧ ∀ scoping : Scoping,
          ∀ name ∈ d'.body.free scoping [], name ∈ d.body.free scoping [] ∨
            ∃ c ∈ Namespace.folding.constructorNames, name = .constructor c)
        Namespace.folding.definitions simplified.definitions :=
  ⟨by decide, optimise_inScope (by decide)⟩

end PolyFront.Lowered
