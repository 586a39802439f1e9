import Mathlib.Data.List.Pairwise
import PolyFront.Proofs.Constant.Blocks
import PolyFront.Proofs.Constant.Terminates

/-!
# The worklist is drained

A definition that is not on the worklist is covered.  The analysis of a definition moves its own
names and its result only, and when the result moves, all definitions that refer to it are put
back.  The worklist is emptied, so that all definitions of a namespace are covered in the end.
-/

namespace PolyFront.Lowered

/-- The definition is covered, and its entry allows for its result. -/
def Definition.Analysed (d : Definition) (known : Analysis) : Prop :=
  ∃ result, d.body.inner.Covered known result ∧ known.Holds (.binding d.name) result

/-- Everything is in place for the analysis of definitions. -/
structure Prepared (ns : Namespace) (analysis : Analysis) : Prop where
  proper : analysis.Proper ns
  constructors : ∀ c ∈ ns.constructors, analysis.lookup (.constructor c.name) = c.known
  recorded : ∀ d ∈ ns.definitions, analysis.functionParams.get? (.binding d.name) =
    d.body.params?.map fun params => params.map Param.name
  positions : ∀ name index, analysis.positions.get? name = some index →
    ∃ d ∈ ns.definitions, name = .binding d.name ∧ ns.declarations[index]? = some (.definition d)
  placed : ∀ d ∈ ns.definitions, analysis.positions.get? (.binding d.name) ≠ none
  dependents : ∀ d ∈ ns.definitions, ∀ free ∈ d.freeVariables,
    .binding d.name ∈ analysis.dependents.get free

/-- A definition that is not on the worklist is covered. -/
def Pending (ns : Namespace) (analysis : Analysis) : Prop :=
  ∀ d ∈ ns.definitions, .binding d.name ∈ analysis.worklist ∨ d.Analysed analysis

section Prepared

variable {ns : Namespace} {analysis : Analysis}

theorem Scheduled.prepared (hns : ns.WellScoped) (h : Scheduled ns ns.definitions analysis) :
    Prepared ns analysis where
  proper := h.proper hns
  constructors c hc := by
    rw [Analysis.lookup, h.constructors c hc]
    rfl
  recorded := h.recorded
  positions := h.positions
  placed := h.placed
  dependents d hd free hfree := (h.dependents free _).2 ⟨d, hd, rfl, hfree⟩

theorem Prepared.withWorklist (h : Prepared ns analysis) (worklist : List Name) :
    Prepared ns { analysis with worklist := worklist } :=
  ⟨⟨h.proper.functions, h.proper.assigned, h.proper.declared, h.proper.named, h.proper.bound,
    h.proper.top⟩, h.constructors, h.recorded, h.positions, h.placed, h.dependents⟩

theorem Prepared.moves (hns : ns.WellScoped) (h : Prepared ns analysis) {after : Analysis}
    (hafter : after.Proper ns) {bound called : List Name} {calls : Nat}
    (hmoves : Moves bound called calls analysis after)
    (hbound : ∀ name ∈ bound, name ∉ ns.constructors.map fun c => Name.constructor c.name) :
    Prepared ns after := by
  obtain ⟨-, hpositions, hdependents⟩ := hmoves.fixed
  refine ⟨hafter, fun c hc => ?_, fun d hd => ?_, ?_, ?_, ?_⟩
  · have hmem : Name.constructor c.name ∈ ns.constructors.map fun c => Name.constructor c.name :=
      List.mem_map_of_mem (f := fun c : Constructor => Name.constructor c.name) hc
    rw [← h.constructors c hc]
    by_contra hne
    rcases hmoves.touched _ hne with hown | ⟨f, -, params, hparams, hp⟩
    · exact hbound _ hown hmem
    · exact hns.not_constructor
        (Namespace.params_mem_locals (hafter.functions f params hparams) hp) hmem
  · cases hparams : d.body.params? with
    | none =>
      refine hafter.functionParams_eq_none ?_
      rw [hns.params?_definition hd, hparams]
      rfl
    | some params =>
      refine hmoves.kept _ _ ?_
      rw [h.recorded d hd, hparams]
      rfl
  · rw [hpositions]
    exact h.positions
  · rw [hpositions]
    exact h.placed
  · rw [hdependents]
    exact h.dependents

end Prepared

/-! ## Definitions -/

section Definitions

variable {ns : Namespace} {analysis : Analysis}

/-- Local names that a definition refers to are its own. -/
theorem Namespace.WellScoped.own_reference (hns : ns.WellScoped) {d : Definition}
    (hd : d ∈ ns.definitions) {name : Name} (hlocal : name ∈ ns.locals)
    (hname : name ∈ d.body.references) : name ∈ d.body.boundNames :=
  ((references_of_isScoped hlocal).2 d.body [] (hns.inScope d hd) hname).resolve_left
    List.not_mem_nil

/-- No definition refers to or binds what another one binds. -/
theorem Namespace.WellScoped.definitions_apart (hns : ns.WellScoped) {d other : Definition}
    (hd : d ∈ ns.definitions) (hother : other ∈ ns.definitions) (hne : other ≠ d) {name : Name}
    (hname : name ∈ other.body.inner.references ++ other.body.inner.boundNames) :
    name ∉ d.body.inner.binders.map Prod.fst := by
  rw [Expr.map_fst_binders]
  intro hbound
  have hbound := d.inner_boundNames_subset hbound
  have hown : name ∈ other.body.boundNames := by
    rcases List.mem_append.1 hname with hname | hname
    · rw [other.inner_references] at hname
      exact hns.own_reference hother (Namespace.mem_locals hd hbound) hname
    · exact other.inner_boundNames_subset hname
  have hdistinct := (List.nodup_append.1 (List.nodup_append.1 hns.distinct).2.1).2.1
  have hpairwise := (List.nodup_flatMap.1 hdistinct).2
  have : Std.Symm (Function.onFun List.Disjoint fun d : Definition => d.body.boundNames) :=
    ⟨fun _ _ h _ hleft hright => h hright hleft⟩
  exact hpairwise.forall hother hd hne hown hbound

/-- What the analysis of a definition does before the worklist is looked at. -/
theorem Prepared.analyse (hns : ns.WellScoped) (h : Prepared ns analysis) {d : Definition}
    (hd : d ∈ ns.definitions) {result : Lattice} {after : Analysis}
    (hresult : Analyse.record (.binding d.name) (Analyse.expr d.body.inner analysis).1
      (Analyse.expr d.body.inner analysis).2 = (result, after)) :
    after.Proper ns ∧ Moves (.binding d.name :: d.body.inner.boundNames) d.body.inner.references
      d.body.inner.references.length analysis after := by
  have hend := (hns.fits hd).ends hns h.proper
  rw [Expr.map_fst_binders] at hend
  have hname : Name.binding d.name ∈ ns.boundNames :=
    List.mem_append_right _ (List.mem_append_left _
      (List.mem_map_of_mem (f := fun d : Definition => Name.binding d.name) hd))
  have hproper := hend.proper.record hend.good hname fun hparams => by
    obtain ⟨params, hparams⟩ := Option.ne_none_iff_exists'.1 hparams
    rw [hns.params?_definition hd, ← h.recorded d hd] at hparams
    rw [hend.moves.kept _ _ hparams]
    exact nofun
  have hrecord : Moves (.binding d.name :: d.body.inner.boundNames) d.body.inner.references
      d.body.inner.references.length _
      ((Analyse.expr d.body.inner analysis).2.record (.binding d.name) _).2 :=
    Moves.record hend.proper hend.good (.inl List.mem_cons_self)
  have hafter : after = ((Analyse.expr d.body.inner analysis).2.record (.binding d.name)
      (Analyse.expr d.body.inner analysis).1).2 := (congrArg Prod.snd hresult).symm
  rw [hafter]
  exact ⟨hproper, (hend.moves.mono (List.subset_cons_self _ _) (List.Subset.refl _)
    (Nat.le_refl _)).trans hrecord⟩

/-- A definition stays covered as long as what is known about its names does not change. -/
theorem Definition.Analysed.agree {d : Definition} {after : Analysis} (h : d.Analysed analysis)
    (hagree : Agree (d.body.inner.references ++ d.body.inner.boundNames) analysis after) :
    d.Analysed after := by
  obtain ⟨result, hcovered, hholds⟩ := h
  exact ⟨result, (covered_agree hagree).2 _ (List.subset_append_left _ _)
    (List.subset_append_right _ _) _ hcovered, hholds.grows hagree.grows⟩

theorem Prepared.agree_own (hns : ns.WellScoped) (h : Prepared ns analysis) {d : Definition}
    (hd : d ∈ ns.definitions) {names : List Name}
    (hnames : ∀ name ∈ names, name ∉ d.body.inner.binders.map Prod.fst) :
    Agree names analysis (Analyse.expr d.body.inner analysis).2 := by
  have hfits := hns.fits hd
  have hend := hfits.ends hns h.proper
  exact hfits.part.agree h.proper hend.proper hend.moves
    (.inr fun p hp => hns.params?_paramName hd hp) hnames

/-- After its analysis a definition is covered, and so are the definitions that were, except for
those that refer to a result that has changed. -/
theorem Prepared.analysed (hns : ns.WellScoped) (h : Prepared ns analysis) {d other : Definition}
    (hd : d ∈ ns.definitions) (hother : other ∈ ns.definitions)
    (hanalysed : other ≠ d → other.Analysed analysis) {result : Lattice} {after : Analysis}
    (hresult : Analyse.record (.binding d.name) (Analyse.expr d.body.inner analysis).1
      (Analyse.expr d.body.inner analysis).2 = (result, after))
    (hsame : .binding d.name ∈ other.body.references →
      after.lookup (.binding d.name) = analysis.lookup
          (.binding d.name)) : other.Analysed after := by
  have hfits := hns.fits hd
  have hend := hfits.ends hns h.proper
  have hafter := (h.analyse hns hd hresult).1
  have hlocal : ∀ name ∈ other.body.inner.boundNames, name ≠ .binding d.name := fun name hname =>
    hns.not_definition (Namespace.mem_locals hother (other.inner_boundNames_subset hname)) hd
  have hown : Agree [.binding d.name] analysis (Analyse.expr d.body.inner analysis).2 := by
    refine h.agree_own hns hd fun name hname hmem => ?_
    rw [List.mem_singleton.1 hname, Expr.map_fst_binders] at hmem
    exact hns.not_definition (Namespace.mem_locals hd (d.inner_boundNames_subset hmem)) hd rfl
  obtain rfl : ((Analyse.expr d.body.inner analysis).2.record (.binding d.name)
      (Analyse.expr d.body.inner analysis).1).2 = after := congrArg Prod.snd hresult
  have hagree : Agree (other.body.inner.references ++ other.body.inner.boundNames) _ _ :=
    agree_record hend.proper hend.good hafter (by
      by_cases hmem : Name.binding d.name ∈ other.body.inner.references ++
          other.body.inner.boundNames
      · refine .inr ((hsame ?_).trans (hown.lookup _ List.mem_cons_self).symm)
        rw [← other.inner_references]
        exact (List.mem_append.1 hmem).resolve_right fun hbound => hlocal _ hbound rfl
      · exact .inl hmem)
  by_cases heq : other = d
  · subst heq
    have hcovered := (settles_all hns).2 _ _ hfits analysis h.proper
      (.inr fun p hp => hns.params?_paramName hd hp)
    exact ⟨_, (covered_agree hagree).2 _ (List.subset_append_left _ _)
      (List.subset_append_right _ _) _ hcovered, holds_record hend.proper hend.good _⟩
  · exact ((hanalysed heq).agree (h.agree_own hns hd fun name hname =>
      hns.definitions_apart hd hother heq hname)).agree hagree

/-- One definition is analysed. -/
theorem Prepared.definition (hns : ns.WellScoped) (h : Prepared ns analysis) {d : Definition}
    (hd : d ∈ ns.definitions)
    (hpending : ∀ other ∈ ns.definitions, other ≠ d →
      .binding other.name ∈ analysis.worklist ∨ other.Analysed analysis) :
    Prepared ns (Analyse.definition (.binding d.name) d analysis).2 ∧
      Pending ns (Analyse.definition (.binding d.name) d analysis).2 := by
  generalize hresult : Analyse.record (.binding d.name) (Analyse.expr d.body.inner analysis).1
    (Analyse.expr d.body.inner analysis).2 = pair
  obtain ⟨result, after⟩ := pair
  obtain ⟨hafter, hmoves⟩ := h.analyse hns hd hresult
  have hprepared := h.moves hns hafter hmoves fun name hname hmem => by
    rcases List.mem_cons.1 hname with rfl | hname
    · obtain ⟨c, -, heq⟩ := List.mem_map.1 hmem
      cases heq
    · exact hns.not_constructor (Namespace.mem_locals hd (d.inner_boundNames_subset hname)) hmem
  -- What was on the worklist stays there.
  have hkept : ∀ name ∈ analysis.worklist, name ∈ after.worklist := by
    intro name hname
    obtain ⟨pushed, heq, -⟩ := hmoves.pushed
    rw [heq]
    exact List.mem_append_left _ hname
  have hbelow := hmoves.grows.below (.binding d.name)
  have hlookup : result = after.lookup (.binding d.name) := by
    have hfst := Analysis.record_fst (Analyse.expr d.body.inner analysis).2 (.binding d.name)
      (Analyse.expr d.body.inner analysis).1
    have hresult : Analysis.record _ _ _ = _ := hresult
    rw [hresult] at hfst
    exact hfst
  rcases definition_cases _ d analysis hresult with ⟨-, heq⟩ | ⟨hsame, heq⟩
  · rw [heq]
    refine ⟨hprepared.withWorklist _, fun other hother => ?_⟩
    by_cases hmem : Name.binding d.name ∈ other.body.references
    · -- It refers to the definition, and depends on it.
      refine .inl (List.mem_append_right _ (hprepared.dependents other hother _ ?_))
      rw [Definition.freeVariables, List.mem_eraseDups, List.mem_filter, Bool.not_eq_true',
        ← Bool.not_eq_true, List.contains_iff_mem]
      exact ⟨hmem, fun hbound => hns.not_definition (Namespace.mem_locals hother hbound) hd rfl⟩
    · by_cases hpushed : Name.binding other.name ∈ analysis.worklist
      · exact .inl (List.mem_append_left _ (hkept _ hpushed))
      · refine .inr (Definition.Analysed.agree (h.analysed hns hd hother (fun hne =>
          (hpending other hother hne).resolve_left hpushed) hresult fun h => (hmem h).elim)
          (agree_worklist _ _ _))
  · rw [heq]
    have hunchanged : after.lookup (.binding d.name) = analysis.lookup (.binding d.name) := by
      by_contra hne
      exact hsame (hlookup ▸ hbelow.compare hne)
    refine ⟨hprepared, fun other hother => ?_⟩
    by_cases hpushed : Name.binding other.name ∈ analysis.worklist
    · exact .inl (hkept _ hpushed)
    · exact .inr (h.analysed hns hd hother (fun hne =>
        (hpending other hother hne).resolve_left hpushed) hresult fun _ => hunchanged)

end Definitions

/-! ## The worklist -/

section Worklist

variable {ns : Namespace} {analysis : Analysis}

/-- The definition at the head of the worklist is analysed. -/
theorem Prepared.scheduled (hns : ns.WellScoped) (h : Prepared ns analysis) {name : Name}
    {rest : List Name} (hworklist : analysis.worklist = name :: rest)
        (hpending : Pending ns analysis)
    {after : Analysis} (hrun : Analyse.scheduled ns.declarations name
      { analysis with worklist := rest } = .ok () after) :
    Prepared ns after ∧ Pending ns after := by
  let popped : Analysis := { analysis with worklist := rest }
  have hpopped : Prepared ns popped := h.withWorklist rest
  have hothers : ∀ d ∈ ns.definitions, .binding d.name ≠ name →
      .binding d.name ∈ popped.worklist ∨ d.Analysed popped := by
    intro d hd hne
    refine (hpending d hd).imp (fun hmem => ?_) fun hanalysed =>
        hanalysed.agree (agree_worklist _ _ _)
    rw [hworklist] at hmem
    exact (List.mem_cons.1 hmem).resolve_left hne
  rw [Analyse.scheduled_apply] at hrun
  cases hindex : analysis.positions.get? name with
  | none =>
    rw [show popped.positions.get? name = none from hindex] at hrun
    have heq : popped = after := (EStateM.Result.ok.inj hrun).2
    rw [← heq]
    exact ⟨hpopped, fun d hd => hothers d hd fun heq => h.placed d hd (heq ▸ hindex)⟩
  | some index =>
    obtain ⟨d, hd, rfl, hdeclaration⟩ := h.positions name index hindex
    rw [show popped.positions.get? (.binding d.name) = some index from hindex] at hrun
    simp only [hdeclaration] at hrun
    have heq : (Analyse.definition (.binding d.name) d popped).2 = after :=
      (EStateM.Result.ok.inj hrun).2
    rw [← heq]
    refine hpopped.definition hns hd fun other hother hne => hothers other hother fun heq => hne ?_
    exact List.inj_on_of_nodup_map hns.definitions_nodup hother hd (Name.binding.inj heq)

/-- In the end, every definition is covered. -/
theorem Prepared.drains (hns : ns.WellScoped) {last : Analysis}
    (hdrains : Drains ns.declarations analysis last) (h : Prepared ns analysis)
    (hpending : Pending ns analysis) : Prepared ns last ∧ Pending ns last := by
  induction hdrains with
  | empty _ => exact ⟨h, hpending⟩
  | next hworklist hrun _ _ ih =>
    obtain ⟨hmid, hmidPending⟩ := h.scheduled hns hworklist hpending hrun
    exact ih hmid hmidPending

/-- What is known about a namespace covers all of its definitions. -/
structure Solved (ns : Namespace) (known : Analysis) : Prop where
  proper : known.Proper ns
  constructors : ∀ c ∈ ns.constructors, known.lookup (.constructor c.name) = c.known
  covered : ∀ d ∈ ns.definitions, d.Covered known

/-- The analysis of a namespace ends with all definitions covered. -/
theorem declarations_solved (hns : ns.WellScoped) :
    ∃ known, Analyse.declarations ns.declarations Analysis.start = .ok () known ∧
      Solved ns known := by
  obtain ⟨known, hrun, -, hdrains⟩ := declarations_drained ns.declarations
  have hscheduled := scheduled_all hns
  obtain ⟨hlast, hpending⟩ := Prepared.drains hns hdrains (hscheduled.prepared hns) fun d hd =>
    .inl (hscheduled.worklist d hd)
  refine ⟨known, hrun, hlast.proper, hlast.constructors, fun d hd => ?_⟩
  refine ⟨hlast.recorded d hd, fun params hparams p hp => ?_, ?_⟩
  · have hmem : p ∈ d.paramNames := by
      rw [Definition.paramNames, hparams]
      exact hp
    exact ⟨hlast.proper.functionParams_eq_none (hns.params?_paramName hd hmem),
      hlast.proper.top d hd params hparams p hp⟩
  · refine (hpending d hd).resolve_left fun hmem => ?_
    rw [hdrains.worklist_eq] at hmem
    cases hmem

end Worklist

end PolyFront.Lowered
