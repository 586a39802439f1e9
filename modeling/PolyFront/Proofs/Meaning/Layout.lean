import PolyFront.Proofs.Meaning.Binders

/-!
# The layout of a namespace

A namespace is well scoped when no name is bound twice and every reference to a local name stands
where the name is visible.  Every part of such a namespace fits it: its binders are what the
namespace says they are, and they are apart from each other and from the names that are visible
around the part.  A namespace is well formed when, besides, names that are bound to functions are
operands at function types only.
-/

namespace PolyFront.Lowered

/-- A key that is bound once has the value that it is bound to. -/
theorem lookup_of_mem {κ ν : Type} [BEq κ] [LawfulBEq κ] {entries : List (κ × ν)}
    (hdistinct : (entries.map Prod.fst).Nodup) {key : κ} {value : ν}
    (hmem : (key, value) ∈ entries) : entries.lookup key = some value := by
  induction entries with
  | nil => cases hmem
  | cons entry rest ih =>
    rw [List.map_cons, List.nodup_cons] at hdistinct
    rcases List.mem_cons.1 hmem with rfl | hmem
    · exact List.lookup_cons_self
    · rw [List.lookup_cons]
      split
      · rename_i heq
        obtain rfl := eq_of_beq heq
        exact (hdistinct.1 (List.mem_map.2 ⟨_, hmem, rfl⟩)).elim
      · exact ih hdistinct.2 hmem

theorem mem_of_lookup {κ ν : Type} [BEq κ] [LawfulBEq κ] {entries : List (κ × ν)} {key : κ}
    {value : ν} (h : entries.lookup key = some value) : (key, value) ∈ entries := by
  induction entries with
  | nil => cases h
  | cons entry rest ih =>
    rw [List.lookup_cons] at h
    split at h
    · rename_i heq
      obtain rfl := eq_of_beq heq
      obtain rfl := Option.some.inj h
      exact List.mem_cons_self
    · exact List.mem_cons_of_mem _ (ih h)

theorem sublist_flatMap_of_mem {α β : Type} {f : α → List β} {items : List α} {item : α}
    (h : item ∈ items) : (f item).Sublist (items.flatMap f) := by
  induction items with
  | nil => cases h
  | cons first rest ih =>
    rw [List.flatMap_cons]
    rcases List.mem_cons.1 h with rfl | h
    · exact List.sublist_append_left _ _
    · exact (ih h).trans (List.sublist_append_right _ _)

theorem Expr.params_mem_binders {expr : Expr} {params : List Param}
    (h : expr.params? = some params) {p : Name} (hp : p ∈ params.map Param.name) :
    (p, none) ∈ expr.binders := by
  rcases expr.function_or_plain with ⟨params', body, rfl⟩ | ⟨-, hnone, -⟩
  · obtain rfl := Option.some.inj h
    rw [Expr.binders, Value.binders]
    exact List.mem_append_left _ (List.mem_map_of_mem hp)
  · rw [hnone] at h
    cases h

namespace Namespace

/-- The names that are bound inside of definitions. -/
def locals (ns : Namespace) : List Name := ns.definitions.flatMap fun d => d.body.boundNames

/-- All names that are bound. -/
def boundNames (ns : Namespace) : List Name :=
  ns.constructors.map (fun constructor => .constructor constructor.name) ++
    (ns.definitions.map (fun d => .binding d.name) ++ ns.locals)

/-- All names that are bound, with the parameters of those that are functions. -/
def binders (ns : Namespace) : List (Name × Option (List Name)) :=
  plainBinders (ns.constructors.map fun constructor => .constructor constructor.name) ++
    (ns.definitions.map (fun d =>
        (.binding d.name, d.body.params?.map fun params => params.map Param.name)) ++
      ns.definitions.flatMap fun d => d.body.binders)

/-- The parameters of the function that a name is bound to. -/
def params? (ns : Namespace) (name : Name) : Option (List Name) :=
  (ns.binders.lookup name).getD none

/-- No name is bound twice, and local names are referred to where they are visible. -/
structure WellScoped (ns : Namespace) : Prop where
  distinct : ns.boundNames.Nodup
  inScope : ∀ d ∈ ns.definitions, d.body.isScoped ns.locals [] = true

/-- The namespace is well scoped, and names that are bound to functions are operands at function
types only. -/
structure WellFormed (ns : Namespace) : Prop extends ns.WellScoped where
  typed : ∀ d ∈ ns.definitions, ∀ name ∈ d.body.plainReferences, ns.params? name = none

instance (ns : Namespace) : Decidable ns.WellScoped :=
  decidable_of_iff (ns.boundNames.Nodup ∧
    ∀ d ∈ ns.definitions, d.body.isScoped ns.locals [] = true)
    ⟨fun h => ⟨h.1, h.2⟩, fun h => ⟨h.distinct, h.inScope⟩⟩

instance (ns : Namespace) : Decidable ns.WellFormed :=
  decidable_of_iff (ns.WellScoped ∧
    ∀ d ∈ ns.definitions, ∀ name ∈ d.body.plainReferences, ns.params? name = none)
    ⟨fun h => ⟨h.1, h.2⟩, fun h => ⟨h.toWellScoped, h.typed⟩⟩

variable {ns : Namespace}

theorem map_fst_binders (ns : Namespace) : ns.binders.map Prod.fst = ns.boundNames := by
  rw [binders, boundNames, List.map_append, List.map_append, map_fst_plainBinders, List.map_map,
    List.map_flatMap, locals]
  simp only [Expr.map_fst_binders]
  rfl

namespace WellScoped

theorem params?_of_mem (h : ns.WellScoped) {name : Name} {params : Option (List Name)}
    (hmem : (name, params) ∈ ns.binders) : ns.params? name = params := by
  rw [params?, lookup_of_mem (by rw [map_fst_binders]; exact h.distinct) hmem]
  rfl

theorem params?_definition (h : ns.WellScoped) {d : Definition} (hd : d ∈ ns.definitions) :
    ns.params? (.binding d.name) = d.body.params?.map fun params => params.map Param.name :=
  h.params?_of_mem (List.mem_append_right _ (List.mem_append_left _
    (List.mem_map_of_mem (f := fun d : Definition => (Name.binding d.name,
      d.body.params?.map fun params => params.map Param.name)) hd)))

end WellScoped

theorem params?_of_not_mem {name : Name} (hname : name ∉ ns.boundNames) :
    ns.params? name = none := by
  rw [params?]
  cases hlookup : ns.binders.lookup name with
  | none => rfl
  | some params =>
    refine (hname ?_).elim
    rw [← map_fst_binders]
    exact List.mem_map_of_mem (f := Prod.fst) (mem_of_lookup hlookup)

theorem mem_locals {d : Definition} (hd : d ∈ ns.definitions) {name : Name}
    (hname : name ∈ d.body.boundNames) : name ∈ ns.locals :=
  List.mem_flatMap.2 ⟨d, hd, hname⟩

theorem mem_boundNames_of_mem_locals {name : Name} (h : name ∈ ns.locals) :
    name ∈ ns.boundNames :=
  List.mem_append_right _ (List.mem_append_right _ h)

/-- A function is bound at the top level or inside of a definition, and so are its parameters. -/
theorem params?_cases {name : Name} {params : List Name} (h : ns.params? name = some params) :
    (∃ d ∈ ns.definitions, name = .binding d.name ∧
        d.body.params?.map (fun params => params.map Param.name) = some params) ∨
      ∃ d ∈ ns.definitions, (name, some params) ∈ d.body.binders := by
  have hlookup : ns.binders.lookup name = some (some params) := by
    rw [params?] at h
    cases hlookup : ns.binders.lookup name with
    | none =>
      rw [hlookup] at h
      cases h
    | some found =>
      rw [hlookup] at h
      exact congrArg some h
  have hmem := mem_of_lookup hlookup
  rw [binders, List.mem_append, List.mem_append, List.mem_map, List.mem_flatMap] at hmem
  rcases hmem with hmem | ⟨d, hd, heq⟩ | ⟨d, hd, hmem⟩
  · exact (not_mem_plainBinders hmem).elim
  · obtain ⟨rfl, hparams⟩ := Prod.mk.inj heq
    exact .inl ⟨d, hd, rfl, hparams⟩
  · exact .inr ⟨d, hd, hmem⟩

theorem mem_boundNames_of_params? {name : Name} {params : List Name}
    (h : ns.params? name = some params) : name ∈ ns.boundNames := by
  refine Classical.not_not.1 fun hname => ?_
  rw [params?_of_not_mem hname] at h
  cases h

/-- Parameters are local names. -/
theorem params_mem_binders {name : Name} {params : List Name}
    (h : ns.params? name = some params) {p : Name} (hp : p ∈ params) :
    ∃ d ∈ ns.definitions, (p, none) ∈ d.body.binders := by
  rcases params?_cases h with ⟨d, hd, -, hparams⟩ | ⟨d, hd, hmem⟩
  · obtain ⟨list, hlist, rfl⟩ := Option.map_eq_some_iff.1 hparams
    exact ⟨d, hd, Expr.params_mem_binders hlist hp⟩
  · exact ⟨d, hd, (params_bound hp).2 d.body hmem⟩

theorem params_mem_locals {name : Name} {params : List Name}
    (h : ns.params? name = some params) {p : Name} (hp : p ∈ params) : p ∈ ns.locals := by
  obtain ⟨d, hd, hmem⟩ := params_mem_binders h hp
  refine mem_locals hd ?_
  rw [← Expr.map_fst_binders]
  exact List.mem_map_of_mem (f := Prod.fst) hmem

/-- Parameters are not bound to functions. -/
theorem WellScoped.params?_param (hns : ns.WellScoped) {name : Name} {params : List Name}
    (h : ns.params? name = some params) {p : Name} (hp : p ∈ params) : ns.params? p = none := by
  obtain ⟨d, hd, hmem⟩ := params_mem_binders h hp
  refine hns.params?_of_mem (List.mem_append_right _ (List.mem_append_right _ ?_))
  exact List.mem_flatMap.2 ⟨d, hd, hmem⟩

/-- A function that is not local is a definition. -/
theorem definition_of_params? {name : Name} {params : List Name}
    (h : ns.params? name = some params) (hlocal : name ∉ ns.locals) :
    ∃ d ∈ ns.definitions, name = .binding d.name ∧
      d.body.params?.map (fun params => params.map Param.name) = some params := by
  rcases params?_cases h with htop | ⟨d, hd, hmem⟩
  · exact htop
  · refine (hlocal (mem_locals hd ?_)).elim
    rw [← Expr.map_fst_binders]
    exact List.mem_map_of_mem (f := Prod.fst) hmem

end Namespace

/-! ## Parts -/

/-- A part of a namespace, given by its binders and whether it is well scoped, fits the namespace
where the given names are visible. -/
structure Fits (ns : Namespace) (visible : List Name) (binders : List (Name × Option (List Name)))
    (isScoped : Bool) : Prop where
  roles : ∀ binder ∈ binders, ns.params? binder.1 = binder.2
  inScope : isScoped = true
  distinct : (binders.map Prod.fst).Nodup
  apart : ∀ name ∈ visible, name ∉ binders.map Prod.fst
  locals : ∀ name ∈ binders.map Prod.fst, name ∈ ns.locals

section Parts

variable (ns : Namespace) (visible : List Name)

def Value.Fits (value : Value) : Prop :=
  Lowered.Fits ns visible value.binders (value.isScoped ns.locals visible)

def Value.FitsList (values : List Value) : Prop :=
  Lowered.Fits ns visible (Value.bindersList values) (Value.isScopedList ns.locals visible values)

def Expr.Fits (expr : Expr) : Prop :=
  Lowered.Fits ns visible expr.binders (expr.isScoped ns.locals visible)

def Case.Fits (case : Case) : Prop :=
  Lowered.Fits ns visible case.binders (case.isScoped ns.locals visible)

def Case.FitsList (cases : List Case) : Prop :=
  Lowered.Fits ns visible (Case.bindersList cases) (Case.isScopedList ns.locals visible cases)

end Parts

section Fits

variable {ns : Namespace} {visible : List Name}
  {binders binders' : List (Name × Option (List Name))} {inScope inScope' : Bool}

/-- A part of a part, with more names visible. -/
theorem Fits.part (h : Fits ns visible binders inScope) (front : List Name)
    (hbinders : binders'.Sublist binders) (hscoped : inScope' = true)
    (hfront : ∀ name ∈ front, name ∉ binders'.map Prod.fst) :
    Fits ns (front ++ visible) binders' inScope' where
  roles binder hbinder := h.roles binder (hbinders.subset hbinder)
  inScope := hscoped
  distinct := h.distinct.sublist (hbinders.map Prod.fst)
  apart name hname := by
    rcases List.mem_append.1 hname with hname | hname
    · exact hfront name hname
    · exact fun hmem => h.apart name hname ((hbinders.map Prod.fst).subset hmem)
  locals name hname := h.locals name ((hbinders.map Prod.fst).subset hname)

theorem Fits.same (h : Fits ns visible binders inScope) (hbinders : binders'.Sublist binders)
    (hscoped : inScope' = true) : Fits ns visible binders' inScope' :=
  h.part [] hbinders hscoped fun _ hname => (List.not_mem_nil hname).elim

/-- Names that are bound in front of a part are apart from its binders. -/
theorem Fits.under {front : List Name}
    (h : Fits ns visible (plainBinders front ++ binders) inScope)
    (hscoped : inScope' = true) : Fits ns (front ++ visible) binders inScope' := by
  refine h.part front (List.sublist_append_right _ _) hscoped ?_
  intro name hname
  have hdistinct := h.distinct
  rw [List.map_append, map_fst_plainBinders] at hdistinct
  exact fun hmem => (List.nodup_append.1 hdistinct).2.2 name hname name hmem rfl

theorem Fits.params?_front {front : List Name}
    (h : Fits ns visible (plainBinders front ++ binders) inScope) {name : Name}
    (hname : name ∈ front) : ns.params? name = none :=
  h.roles (name, none) (List.mem_append_left _ (List.mem_map_of_mem hname))

theorem disjoint_of_nodup {left right : List (Name × Option (List Name))}
    (h : ((left ++ right).map Prod.fst).Nodup) :
    ∀ name ∈ left.map Prod.fst, name ∉ right.map Prod.fst := by
  intro name hleft hright
  rw [List.map_append] at h
  exact (List.nodup_append.1 h).2.2 name hleft name hright rfl

end Fits

/-! ## Parts of values -/

section Parts

variable {ns : Namespace} {visible : List Name}

theorem Value.references_cases {value : Value} (h : value.Fits ns visible) :
    ∀ name ∈ ns.locals, name ∈ value.references →
      name ∈ visible ∨ name ∈ value.binders.map Prod.fst := by
  intro name hlocal hname
  rw [Value.map_fst_binders]
  exact (references_of_isScoped hlocal).1 value visible h.inScope hname

theorem Expr.references_cases {expr : Expr} (h : expr.Fits ns visible) :
    ∀ name ∈ ns.locals, name ∈ expr.references →
      name ∈ visible ∨ name ∈ expr.binders.map Prod.fst := by
  intro name hlocal hname
  rw [Expr.map_fst_binders]
  exact (references_of_isScoped hlocal).2 expr visible h.inScope hname

theorem Value.Fits.lambda {params : List Param} {body : Expr}
    (h : (Value.lambda params body).Fits ns visible) :
    body.Fits ns (params.map Param.name ++ visible) ∧
      ∀ p ∈ params.map Param.name, ns.params? p = none :=
  ⟨Lowered.Fits.under h h.inScope, fun _ hp => Lowered.Fits.params?_front h hp⟩

theorem Value.FitsList.cons {value : Value} {rest : List Value}
    (h : Value.FitsList ns visible (value :: rest)) :
    value.Fits ns visible ∧ Value.FitsList ns visible rest ∧
      ∀ name ∈ value.binders.map Prod.fst, name ∉ (Value.bindersList rest).map Prod.fst := by
  have hscoped := h.inScope
  rw [Value.isScopedList, Bool.and_eq_true] at hscoped
  exact ⟨h.same (List.sublist_append_left _ _) hscoped.1,
    h.same (List.sublist_append_right _ _) hscoped.2,
    disjoint_of_nodup h.distinct⟩

/-! ## Parts of expressions -/

theorem Expr.Fits.args {type : Ty} {function : Value} {args : List Value}
    (h : (Expr.apply type function args).Fits ns visible) : Value.FitsList ns visible args := by
  have hscoped := h.inScope
  rw [Expr.isScoped, Bool.and_eq_true] at hscoped
  exact h.same (List.sublist_append_right _ _) hscoped.2

theorem Expr.Fits.function {type : Ty} {function : Value} {args : List Value}
    (h : (Expr.apply type function args).Fits ns visible) : function.Fits ns visible := by
  have hscoped := h.inScope
  rw [Expr.isScoped, Bool.and_eq_true] at hscoped
  exact h.same (List.sublist_append_left _ _) hscoped.1

theorem Expr.Fits.function_args {type : Ty} {function : Value} {args : List Value}
    (h : (Expr.apply type function args).Fits ns visible) :
    ∀ name ∈ (Value.bindersList args).map Prod.fst, name ∉ function.binders.map Prod.fst :=
  fun name hname hmem => disjoint_of_nodup h.distinct name hmem hname

theorem Expr.Fits.binary {left right : Value} {op : BinaryOp}
    (h : (Expr.binary left op right).Fits ns visible) :
    left.Fits ns visible ∧ right.Fits ns visible ∧
      ∀ name ∈ left.binders.map Prod.fst, name ∉ right.binders.map Prod.fst := by
  have hscoped := h.inScope
  rw [Expr.isScoped, Bool.and_eq_true] at hscoped
  exact ⟨h.same (List.sublist_append_left _ _) hscoped.1,
    h.same (List.sublist_append_right _ _) hscoped.2,
    disjoint_of_nodup h.distinct⟩

theorem Expr.Fits.conditional {condition : Value} {consequent alternative : Expr}
    (h : (Expr.conditional condition consequent alternative).Fits ns visible) :
    condition.Fits ns visible ∧ consequent.Fits ns visible ∧ alternative.Fits ns visible ∧
      (∀ name ∈ condition.binders.map Prod.fst, name ∉ consequent.binders.map Prod.fst) ∧
      ∀ name ∈ (condition.binders ++ consequent.binders).map Prod.fst,
        name ∉ alternative.binders.map Prod.fst := by
  have hscoped := h.inScope
  rw [Expr.isScoped, Bool.and_eq_true, Bool.and_eq_true] at hscoped
  have hdistinct := h.distinct
  rw [Expr.binders, List.map_append] at hdistinct
  refine ⟨h.same ?_ hscoped.1.1, h.same ?_ hscoped.1.2, h.same ?_ hscoped.2,
    disjoint_of_nodup (List.nodup_append.1 hdistinct).1, disjoint_of_nodup h.distinct⟩
  · exact (List.sublist_append_left _ _).trans (List.sublist_append_left _ _)
  · exact (List.sublist_append_right _ _).trans (List.sublist_append_left _ _)
  · exact List.sublist_append_right _ _

theorem Expr.Fits.cases {scrutinee : Value} {cases : List Case}
    (h : (Expr.cases scrutinee cases).Fits ns visible) :
    scrutinee.Fits ns visible ∧ Case.FitsList ns visible cases ∧
      ∀ name ∈ scrutinee.binders.map Prod.fst, name ∉ (Case.bindersList cases).map Prod.fst := by
  have hscoped := h.inScope
  rw [Expr.isScoped, Bool.and_eq_true] at hscoped
  exact ⟨h.same (List.sublist_append_left _ _) hscoped.1,
    h.same (List.sublist_append_right _ _) hscoped.2,
    disjoint_of_nodup h.distinct⟩

theorem Case.FitsList.cons {case : Case} {rest : List Case}
    (h : Case.FitsList ns visible (case :: rest)) :
    case.Fits ns visible ∧ Case.FitsList ns visible rest ∧
      ∀ name ∈ case.binders.map Prod.fst, name ∉ (Case.bindersList rest).map Prod.fst := by
  have hscoped := h.inScope
  rw [Case.isScopedList, Bool.and_eq_true] at hscoped
  exact ⟨h.same (List.sublist_append_left _ _) hscoped.1,
    h.same (List.sublist_append_right _ _) hscoped.2,
    disjoint_of_nodup h.distinct⟩

theorem Case.Fits.body {case : Case} (h : case.Fits ns visible) :
    case.body.Fits ns (case.pattern.boundNames ++ visible) ∧
      ∀ p ∈ case.pattern.boundNames, ns.params? p = none := by
  obtain ⟨pattern, body⟩ := case
  exact ⟨Lowered.Fits.under h h.inScope, fun _ hp => Lowered.Fits.params?_front h hp⟩

theorem sublist_bindersList {binding : Binding} {bindings : List Binding}
    (h : binding ∈ bindings) : binding.binders.Sublist (Binding.bindersList bindings) := by
  rw [Binding.bindersList_eq]
  exact sublist_flatMap_of_mem h

/-- The names that a block binds are apart from the binders inside of its bindings. -/
theorem names_apart {bindings : List Binding}
    (h : ((Binding.bindersList bindings).map Prod.fst).Nodup) {binding other : Binding}
    (hbinding : binding ∈ bindings) (hother : other ∈ bindings) {name : Name}
    (hname : name ∈ binding.paramNames ++ binding.inner.boundNames) : name ≠ other.name := by
  have hfst : ∀ binding : Binding, binding.binders.map Prod.fst =
      binding.name :: (binding.paramNames ++ binding.inner.boundNames) := by
    intro binding
    rw [Binding.binders_eq, List.map_cons, List.map_append, map_fst_plainBinders,
      Expr.map_fst_binders]
  induction bindings with
  | nil => cases hbinding
  | cons first rest ih =>
    rw [Binding.bindersList] at h
    have hdisjoint := disjoint_of_nodup h
    rw [List.map_append, List.nodup_append] at h
    have hmem : ∀ {b : Binding}, b ∈ rest → ∀ {n : Name}, n ∈ b.binders.map Prod.fst →
        n ∈ (Binding.bindersList rest).map Prod.fst := fun hb _ hn =>
      ((sublist_bindersList hb).map Prod.fst).subset hn
    have hown : name ∈ binding.binders.map Prod.fst := by
      rw [hfst]
      exact List.mem_cons_of_mem _ hname
    have hotherOwn : other.name ∈ other.binders.map Prod.fst := by
      rw [hfst]
      exact List.mem_cons_self
    rcases List.mem_cons.1 hbinding with rfl | hrest
    · rcases List.mem_cons.1 hother with rfl | hother
      · rintro rfl
        have hfirst := h.1
        rw [hfst, List.nodup_cons] at hfirst
        exact hfirst.1 hname
      · rintro rfl
        exact hdisjoint _ hown (hmem hother hotherOwn)
    · rcases List.mem_cons.1 hother with rfl | hother
      · rintro rfl
        exact hdisjoint _ hotherOwn (hmem hrest hown)
      · exact ih h.2.1 hrest hother

theorem Expr.Fits.block {bindings : List Binding} {result : Expr}
    (h : (Expr.block bindings result).Fits ns visible) :
    (∀ binding ∈ bindings,
      binding.inner.Fits ns (binding.paramNames ++ (bindings.map Binding.name ++ visible)) ∧
        ns.params? binding.name = binding.params?.map (·.map Param.name) ∧
        ∀ p ∈ binding.paramNames, ns.params? p = none) ∧
      result.Fits ns (bindings.map Binding.name ++ visible) := by
  have hscoped := h.inScope
  rw [Expr.isScoped, Bool.and_eq_true, Binding.isScopedList_eq, List.all_eq_true] at hscoped
  have hdistinct := h.distinct
  rw [Expr.binders, List.map_append] at hdistinct
  refine ⟨fun binding hbinding => ?_, ?_⟩
  · have hsub : binding.binders.Sublist (Expr.block bindings result).binders :=
      (sublist_bindersList hbinding).trans (List.sublist_append_left _ _)
    have hroles : ∀ binder ∈ binding.binders, ns.params? binder.1 = binder.2 := fun binder hb =>
      h.roles binder (hsub.subset hb)
    rw [Binding.binders_eq] at hsub hroles
    have hinner := hscoped.1 binding hbinding
    rw [Binding.isScoped_eq] at hinner
    refine ⟨?_, hroles _ List.mem_cons_self, fun p hp => ?_⟩
    · rw [← List.append_assoc]
      refine h.part _ ?_ (by rw [List.append_assoc]; exact hinner) ?_
      · exact ((List.sublist_append_right _ _).trans (List.sublist_cons_self _ _)).trans hsub
      · intro name hname hmem
        rw [Expr.map_fst_binders] at hmem
        rcases List.mem_append.1 hname with hname | hname
        · have hown := h.distinct.sublist (hsub.map Prod.fst)
          rw [List.map_cons, List.map_append, map_fst_plainBinders, Expr.map_fst_binders,
            List.nodup_cons, List.nodup_append] at hown
          exact hown.2.2.2 name hname name hmem rfl
        · obtain ⟨other, hother, rfl⟩ := List.mem_map.1 hname
          exact names_apart (List.nodup_append.1 hdistinct).1 hbinding hother
            (List.mem_append_right _ hmem) rfl
    · exact hroles (p, none) (List.mem_cons_of_mem _ (List.mem_append_left _
        (List.mem_map_of_mem hp)))
  · refine h.part _ (List.sublist_append_right _ _) hscoped.2 ?_
    intro name hname
    obtain ⟨binding, hbinding, rfl⟩ := List.mem_map.1 hname
    refine disjoint_of_nodup h.distinct _ ?_
    refine ((sublist_bindersList hbinding).map Prod.fst).subset ?_
    rw [Binding.binders_eq]
    exact List.mem_cons_self

end Parts

/-! ## Definitions -/

/-- The body of a definition fits, with its parameters visible. -/
theorem Namespace.WellScoped.fits {ns : Namespace} (h : ns.WellScoped) {d : Definition}
    (hd : d ∈ ns.definitions) :
    d.body.inner.Fits ns ((d.body.params?.getD []).map Param.name) := by
  have hsub : d.body.binders.Sublist ns.binders := by
    refine List.Sublist.trans ?_ (List.sublist_append_right _ _)
    refine List.Sublist.trans ?_ (List.sublist_append_right _ _)
    exact sublist_flatMap_of_mem (f := fun d : Definition => d.body.binders) hd
  have hbody : d.body.Fits ns [] := by
    refine ⟨fun binder hbinder => h.params?_of_mem (hsub.subset hbinder), h.inScope d hd, ?_,
      fun _ hname => (List.not_mem_nil hname).elim, fun name hname => ?_⟩
    · have hdistinct := h.distinct
      rw [← Namespace.map_fst_binders] at hdistinct
      exact hdistinct.sublist (hsub.map Prod.fst)
    · rw [Expr.map_fst_binders] at hname
      exact Namespace.mem_locals hd hname
  rcases d.body.function_or_plain with ⟨params, body, heq⟩ | ⟨-, hparams, hinner⟩
  · rw [heq] at hbody ⊢
    have hlambda : (Value.lambda params body).Fits ns [] := hbody
    have hfits := hlambda.lambda.1
    rw [List.append_nil] at hfits
    exact hfits
  · rw [hparams, hinner]
    exact hbody

end PolyFront.Lowered
