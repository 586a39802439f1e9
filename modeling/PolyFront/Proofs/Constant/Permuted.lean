import PolyFront.Proofs.Constant.Within

/-!
# The order of declarations

A namespace stays well scoped when its declarations are put in another order, and the analysis of
either order starts below what the analysis of the other one ends with.  When both orders end in
a state under which the code is steady, each of the two analyses stays below the other one, so
that both know the same.  Neither part of steadiness can be left out: there are namespaces that
are analysed with different results in different orders.
-/

namespace PolyFront

namespace Lowered

/-! ## Permuted namespaces -/

theorem all_eq_all {α : Type} {p q : α → Bool} {items : List α}
    (h : ∀ item ∈ items, p item = q item) : items.all p = items.all q := by
  rw [Bool.eq_iff_iff, List.all_eq_true, List.all_eq_true]
  exact forall₂_congr fun item hitem => by rw [h item hitem]

section Scopes

variable {locals locals' : List Name}

/-- Code stays in scope when the same names are local. -/
theorem isScoped_congr (h : ∀ name, locals.contains name = locals'.contains name) :
    (∀ (value : Value) visible, value.isScoped locals visible = value.isScoped locals' visible) ∧
      ∀ (expr : Expr) visible, expr.isScoped locals visible = expr.isScoped locals' visible := by
  refine induct ?_ ?_ ?_ ?_ ?_ ?_ ?_ ?_ ?_ ?_ ?_ ?_
  · exact fun _ _ => rfl
  · intro name type visible
    rw [Value.isScoped, Value.isScoped, h]
  · exact fun params body ih visible => ih _
  · exact fun value ih => ih
  · exact fun value ih => ih
  · exact fun value ih => ih
  · intro type function args ihFunction _ ihArgs visible
    rw [Expr.isScoped, Expr.isScoped, ihFunction, Value.isScopedList_eq, Value.isScopedList_eq,
      all_eq_all fun arg harg => ihArgs arg harg visible]
  · exact fun op operand ih => ih
  · intro left op right ihLeft ihRight visible
    rw [Expr.isScoped, Expr.isScoped, ihLeft, ihRight]
  · intro condition consequent alternative ihCondition ihConsequent ihAlternative visible
    rw [Expr.isScoped, Expr.isScoped, ihCondition, ihConsequent, ihAlternative]
  · intro scrutinee cases ihScrutinee ihCases visible
    rw [Expr.isScoped, Expr.isScoped, ihScrutinee, Case.isScopedList_eq, Case.isScopedList_eq,
      all_eq_all fun case hcase => ?_]
    obtain ⟨pattern, body⟩ := case
    exact ihCases _ hcase _
  · intro bindings result ihBindings ihResult visible
    rw [Expr.isScoped, Expr.isScoped, ihResult, Binding.isScopedList_eq, Binding.isScopedList_eq,
      all_eq_all fun binding hbinding => ?_]
    rw [Binding.isScoped_eq, Binding.isScoped_eq, ihBindings binding hbinding]

end Scopes

section Permuted

variable {ns ns' : Namespace}

theorem Namespace.definitions_perm (h : ns.declarations.Perm ns'.declarations) :
    ns.definitions.Perm ns'.definitions :=
  h.flatMap_right _

theorem Namespace.constructors_perm (h : ns.declarations.Perm ns'.declarations) :
    ns.constructors.Perm ns'.constructors :=
  h.flatMap_right _

theorem Namespace.locals_perm (h : ns.declarations.Perm ns'.declarations) :
    ns.locals.Perm ns'.locals :=
  (definitions_perm h).flatMap_right _

theorem Namespace.boundNames_perm (h : ns.declarations.Perm ns'.declarations) :
    ns.boundNames.Perm ns'.boundNames :=
  ((constructors_perm h).map _).append (((definitions_perm h).map _).append (locals_perm h))

/-- Whether a namespace is well scoped does not depend on the order of its declarations. -/
theorem Namespace.WellScoped.perm (hns : ns.WellScoped)
    (h : ns.declarations.Perm ns'.declarations) : ns'.WellScoped where
  distinct := (boundNames_perm h).nodup_iff.1 hns.distinct
  inScope d hd := by
    rw [← (isScoped_congr fun name => ?_).2]
    · exact hns.inScope d ((definitions_perm h).mem_iff.2 hd)
    · rw [Bool.eq_iff_iff, List.contains_iff_mem, List.contains_iff_mem]
      exact (locals_perm h).mem_iff

end Permuted

/-! ## One order below the other -/

section Orders

variable {ns ns' : Namespace} {known low : Analysis}

theorem Constructor.known_ne_unassigned (c : Constructor) : c.known ≠ .unassigned := by
  unfold Constructor.known
  split <;> exact nofun

/-- The analysis of another order starts below the solution. -/
theorem Solved.within_scheduled (hns : ns.WellScoped) (h : Solved ns known)
    (hperm : ns.declarations.Perm ns'.declarations)
    (hlow : Scheduled ns' ns'.definitions low) : Within ns known low where
  grows name entry hentry := by
    rcases hlow.values name entry hentry with ⟨c, hc, rfl, rfl⟩ | ⟨d, hd, hp, rfl⟩
    · have hlookup := h.constructors c ((Namespace.constructors_perm hperm).mem_iff.2 hc)
      rw [Analysis.lookup] at hlookup
      cases hvalue : known.values.get? (.constructor c.name) with
      | none =>
        rw [hvalue] at hlookup
        exact (c.known_ne_unassigned hlookup.symm).elim
      | some value =>
        rw [hvalue] at hlookup
        exact ⟨value, hvalue, .inr (.inl hlookup.symm)⟩
    · obtain ⟨params, hparams, hmem⟩ := Definition.params?_of_mem hp
      have hd := (Namespace.definitions_perm hperm).mem_iff.2 hd
      exact Analysis.holds_of_lookup ((h.covered d hd).params params hparams name hmem).2
  functions name params hparams := by
    obtain ⟨d, hd, rfl⟩ := hlow.functions name params hparams
    rw [hlow.recorded d hd] at hparams
    rw [(h.covered d ((Namespace.definitions_perm hperm).mem_iff.2 hd)).name, hparams]
  recorded name hname hlocal := by
    obtain ⟨params, hparams⟩ := Option.ne_none_iff_exists'.1 hname
    obtain ⟨d, hd, rfl, hfunction⟩ :=
      Namespace.definition_of_params? (h.proper.functions name params hparams) hlocal
    rw [hlow.recorded d ((Namespace.definitions_perm hperm).mem_iff.1 hd), hfunction]
    exact Option.some_ne_none _
  bound name := by
    rw [((hlow.proper (hns.perm hperm)).bound name)]
    exact (Namespace.boundNames_perm hperm).mem_iff.symm

/-- The analysis of a definition stays below the solution. -/
theorem Solved.within_definition (h : Solved ns known) (hsteady : ns.Steady known)
    {d : Definition} (hd : d ∈ ns.definitions) (hlow : Within ns known low) :
    Within ns known (Analyse.definition (.binding d.name) d low).2 := by
  obtain ⟨result, hcovered, hholds⟩ := (h.covered d hd).inner
  obtain ⟨hmid, hbelow⟩ := (lands_all h.proper).2 d.body.inner (hsteady d hd) result hcovered
    low hlow
  have hafter := hmid.record (hholds.mono hbelow)
  generalize hresult : Analyse.record (.binding d.name) (Analyse.expr d.body.inner low).1
    (Analyse.expr d.body.inner low).2 = pair
  rw [show Analysis.record _ _ _ = pair from hresult] at hafter
  rcases definition_cases _ d low hresult with ⟨-, heq⟩ | ⟨-, heq⟩
  · rw [heq]
    exact hafter.withWorklist _
  · rw [heq]
    exact hafter

/-- Whatever is taken from the worklist of the other order, its analysis stays below the
solution. -/
theorem Solved.within_step (h : Solved ns known) (hsteady : ns.Steady known)
    (hperm : ns.declarations.Perm ns'.declarations) (hprepared : Prepared ns' low) {name : Name}
    {after : Analysis} (hrun : Analyse.scheduled ns'.declarations name low = .ok () after)
    (hlow : Within ns known low) : Within ns known after := by
  rw [Analyse.scheduled_apply] at hrun
  cases hindex : low.positions.get? name with
  | none =>
    rw [hindex] at hrun
    have heq : low = after := (EStateM.Result.ok.inj hrun).2
    exact heq ▸ hlow
  | some index =>
    obtain ⟨d, hd, rfl, hdeclaration⟩ := hprepared.positions name index hindex
    rw [hindex] at hrun
    simp only [hdeclaration] at hrun
    have heq : (Analyse.definition (.binding d.name) d low).2 = after :=
      (EStateM.Result.ok.inj hrun).2
    rw [← heq]
    exact h.within_definition hsteady ((Namespace.definitions_perm hperm).mem_iff.2 hd) hlow

/-- The analysis of another order ends below the solution. -/
theorem Solved.within_drains (h : Solved ns known) (hsteady : ns.Steady known)
    (hperm : ns.declarations.Perm ns'.declarations) (hns' : ns'.WellScoped) {last : Analysis}
    (hdrains : Drains ns'.declarations low last) (hprepared : Prepared ns' low)
    (hpending : Pending ns' low) (hlow : Within ns known low) : Within ns known last := by
  induction hdrains with
  | empty _ => exact hlow
  | next hworklist hrun _ _ ih =>
    obtain ⟨hmid, hmidPending⟩ := hprepared.scheduled hns' hworklist hpending hrun
    exact ih hmid hmidPending (h.within_step hsteady hperm (hprepared.withWorklist _) hrun
      (hlow.withWorklist _))

/-- A solution of a namespace in one order is above the analysis in the other one. -/
theorem Solved.grows_permuted (hns : ns.WellScoped) (h : Solved ns known)
    (hsteady : ns.Steady known) (hperm : ns.declarations.Perm ns'.declarations)
    {last : Analysis}
    (hrun : Analyse.declarations ns'.declarations Analysis.start = .ok () last) :
    last.Grows known := by
  have hns' := hns.perm hperm
  obtain ⟨last', hrun', -, hdrains⟩ := declarations_drained ns'.declarations
  obtain rfl : last' = last := (EStateM.Result.ok.inj (hrun'.symm.trans hrun)).2
  have hscheduled := scheduled_all hns'
  exact (h.within_drains hsteady hperm hns' hdrains (hscheduled.prepared hns')
    (fun d hd => .inl (hscheduled.worklist d hd)) (h.within_scheduled hns hperm hscheduled)).grows

/-- A namespace is analysed in every order of its declarations.  When the code is steady under
what two orders find out, they find out the same about every name. -/
theorem analysis_permuted (hns : ns.WellScoped)
    (hperm : ns.declarations.Perm ns'.declarations) :
    ∃ known known',
      Analyse.declarations ns.declarations Analysis.start = .ok () known ∧
      Analyse.declarations ns'.declarations Analysis.start = .ok () known' ∧
      (ns.Steady known → ns'.Steady known' →
        ∀ name, known'.lookup name = known.lookup name) := by
  obtain ⟨known, hrun, hsolved⟩ := declarations_solved hns
  obtain ⟨known', hrun', hsolved'⟩ := declarations_solved (hns.perm hperm)
  refine ⟨known, known', hrun, hrun', fun hsteady hsteady' name => ?_⟩
  have hbelow := hsolved.grows_permuted hns hsteady hperm hrun'
  have habove := hsolved'.grows_permuted (hns.perm hperm) hsteady' hperm.symm hrun
  exact (hbelow.below name).atMost.antisymm (habove.below name).atMost

end Orders

/-! ## Where the order matters -/

/-- The namespace with the declaration at a place put first. -/
def Namespace.moveToFront (ns : Namespace) (index : Nat) : Namespace :=
  { ns with
    declarations := ns.declarations[index]?.toList ++ ns.declarations.eraseIdx index }

/-- What the analysis of a namespace finds out about a name. -/
def Analyse.found? (ns : Namespace) (name : Name) : Option Lattice :=
  match Analyse.declarations ns.declarations Analysis.start with
  | .ok _ known => some (known.lookup name)
  | .error _ _ => none

/-- The code of a namespace is steady under what its analysis finds out. -/
def Analyse.findsSteady (ns : Namespace) : Bool :=
  match Analyse.declarations ns.declarations Analysis.start with
  | .ok _ known => ns.definitions.all fun d => d.body.inner.isSteady ns known
  | .error _ _ => false

theorem Analyse.steady_of_findsSteady {ns : Namespace} {known : Analysis}
    (h : Analyse.findsSteady ns = true)
    (hrun : Analyse.declarations ns.declarations Analysis.start = .ok () known) :
    ns.Steady known := by
  rw [findsSteady, hrun] at h
  exact List.all_eq_true.1 h

theorem Analyse.lookup_of_found? {ns : Namespace} {name : Name} {value : Lattice}
    (h : Analyse.found? ns name = some value) :
    ∃ known, Analyse.declarations ns.declarations Analysis.start = .ok () known ∧
      known.lookup name = value := by
  unfold found? at h
  split at h
  · exact ⟨_, ‹_›, Option.some.inj h⟩
  · cases h

/-- A connective whose left operand is `false` as long as nothing is known about `other`. -/
def Namespace.connective (right : Expr) : Namespace :=
  let boolean := Ty.builtIn .boolean
  let ns : NamespaceName := ⟨[], "connective"⟩
  let name (text : String) : QualifiedName := ⟨ns, text⟩
  let reference (text : String) : Value := .reference (.binding (name text)) boolean
  let given : Value := .reference (.binding ⟨⟨[], "outside"⟩, "given"⟩) boolean
  ⟨ns, [.definition ⟨name "left", boolean, .conditional given
      (.value (.literal (.boolean false))) (.value (reference "other"))⟩,
    .definition ⟨name "both", boolean, .binary (reference "left") .booleanAnd (reference "right")⟩,
    .definition ⟨name "other", boolean, .value (.literal (.boolean true))⟩,
    .definition ⟨name "right", boolean, right⟩]⟩

/-- A local function is called with a second argument before it is bound. -/
def Namespace.surplus : Namespace :=
  let int := Ty.builtIn .int
  let boolean := Ty.builtIn .boolean
  let function := Ty.function [int] int
  let ns : NamespaceName := ⟨[], "surplus"⟩
  let chosen : QualifiedName := ⟨ns, "chosen"⟩
  let lambda (param : Name) (body : Expr) : Value := .lambda [⟨param, int⟩] body
  let identity (param : Name) : Value := lambda param (.value (.reference param int))
  let call (name : Name) (args : List Value) : Expr := .apply int (.reference name function) args
  let g := Name.bound "g" 0
  let f := Name.bound "f" 2
  ⟨ns, [.definition ⟨⟨ns, "sum"⟩, int, .block
      [.assign g function (.value (lambda (.bound "z" 1)
          (.conditional (.reference (.binding chosen) boolean)
            (call f [.literal (.int 1), identity (.bound "y" 4)]) (.value (.literal (.int 0)))))),
        .assign f function (.value (identity (.bound "x" 3)))]
      (call g [.literal (.int 5)])⟩,
    .definition ⟨chosen, boolean, .value (.literal (.boolean true))⟩]⟩

theorem Namespace.perm_moveToFront (ns : Namespace) (index : Nat) :
    ns.declarations.Perm (ns.moveToFront index).declarations := by
  rw [moveToFront]
  cases h : ns.declarations[index]? with
  | none =>
    rw [List.eraseIdx_of_length_le (List.getElem?_eq_none_iff.1 h)]
    exact .refl _
  | some declaration =>
    obtain ⟨hlt, rfl⟩ := List.getElem?_eq_some_iff.1 h
    exact (List.getElem_cons_eraseIdx_perm hlt).symm

/-- The order of declarations makes a difference to what is known about a name. -/
def OrderMatters (ns ns' : Namespace) (name : Name) : Prop :=
  ns.WellScoped ∧ ns.declarations.Perm ns'.declarations ∧ ∃ known known',
    Analyse.declarations ns.declarations Analysis.start = .ok () known ∧
    Analyse.declarations ns'.declarations Analysis.start = .ok () known' ∧
    known.lookup name ≠ known'.lookup name

theorem orderMatters_of_found? {ns ns' : Namespace} {name : Name} {value value' : Lattice}
    (hns : ns.WellScoped) (hperm : ns.declarations.Perm ns'.declarations)
    (h : Analyse.found? ns name = some value) (h' : Analyse.found? ns' name = some value')
    (hne : value ≠ value') : OrderMatters ns ns' name := by
  obtain ⟨known, hrun, rfl⟩ := Analyse.lookup_of_found? h
  obtain ⟨known', hrun', rfl⟩ := Analyse.lookup_of_found? h'
  exact ⟨hns, hperm, known, known', hrun, hrun', hne⟩

/-- A definition that refers to itself only never has a value. -/
def Namespace.waiting : Namespace :=
  Namespace.connective (.value (.reference (.binding ⟨⟨[], "connective"⟩, "right"⟩)
    (.builtIn .boolean)))

/-- The connective is `false` when its left operand was `false` first, and has no value otherwise.
The parameter of a surplus argument may be anything when the argument was looked at. -/
theorem exists_orderMatters :
    OrderMatters Namespace.waiting (Namespace.waiting.moveToFront 2)
        (.binding ⟨⟨[], "connective"⟩, "both"⟩) ∧
      OrderMatters Namespace.surplus (Namespace.surplus.moveToFront 1) (.bound "y" 4) := by
  have hfirst : Analyse.found? Namespace.waiting (.binding ⟨⟨[], "connective"⟩, "both"⟩) =
      some (.constant (.boolean false)) := by decide +kernel
  have hfirst' : Analyse.found? (Namespace.waiting.moveToFront 2)
      (.binding ⟨⟨[], "connective"⟩, "both"⟩) = some .unassigned := by decide +kernel
  have hsecond : Analyse.found? Namespace.surplus (.bound "y" 4) = some .unassigned := by
    decide +kernel
  have hsecond' : Analyse.found? (Namespace.surplus.moveToFront 1) (.bound "y" 4) =
      some .nonConstant := by decide +kernel
  exact ⟨orderMatters_of_found? (by decide) (Namespace.perm_moveToFront _ _) hfirst hfirst' nofun,
    orderMatters_of_found? (by decide) (Namespace.perm_moveToFront _ _) hsecond hsecond' nofun⟩

/-- The right operand has a value, and neither order has to wait for it. -/
theorem analysis_permuted_connective :
    let ns := Namespace.connective (.value (.literal (.boolean true)))
    let ns' := ns.moveToFront 2
    ns.WellScoped ∧ ns.declarations.Perm ns'.declarations ∧ ∃ known known',
      Analyse.declarations ns.declarations Analysis.start = .ok () known ∧
      Analyse.declarations ns'.declarations Analysis.start = .ok () known' ∧
      ns.Steady known ∧ ns'.Steady known' ∧ ∀ name, known'.lookup name = known.lookup name := by
  intro ns ns'
  have hns : ns.WellScoped := by decide
  have hperm : ns.declarations.Perm ns'.declarations := Namespace.perm_moveToFront _ _
  obtain ⟨known, known', hrun, hrun', hsame⟩ := analysis_permuted hns hperm
  have hsteady : ns.Steady known := Analyse.steady_of_findsSteady (by decide +kernel) hrun
  have hsteady' : ns'.Steady known' := Analyse.steady_of_findsSteady (by decide +kernel) hrun'
  exact ⟨hns, hperm, known, known', hrun, hrun', hsteady, hsteady', hsame hsteady hsteady'⟩

end Lowered

end PolyFront
