import PolyFront.Proofs.Constant.Settled

/-!
# Blocks

A block is analysed until a pass changes nothing.  Every pass but the last uses up some of what
the names of the block can move, so that the bound on the number of passes is never reached, and
the last pass leaves all bindings of the block covered.
-/

namespace PolyFront.Lowered

/-! ## Repeated passes -/

section Stabilise

variable {ns : Namespace} {bound called names : List Name} {calls : Nat}

/-- With enough fuel, the last pass changes nothing. -/
theorem stabilise_still {pass : Analyse Lattice}
    (hpass : Does ns bound called calls pass (Lattice.Declared ns)) (hbound : bound ⊆ names)
    {fuel : Nat} {before : Analysis} (hbefore : before.Proper ns)
    (hlisted : Listed names called before) (hfuel : before.potential names ≤ fuel) :
    ∃ last, last.Proper ns ∧ pass last = (Analyse.stabilise pass fuel before) ∧
      (Analyse.stabilise pass fuel before).2 = last := by
  induction fuel generalizing before with
  | zero =>
    have hend := hpass before hbefore
    have hcost := hend.moves.cost names hbound (hlisted.advances hend.moves.toAdvances hbound)
    have hcounted := hend.moves.counted
    exact ⟨before, hbefore, rfl, hend.moves.still (by omega)⟩
  | succ fuel ih =>
    have hend := hpass before hbefore
    have hcost := hend.moves.cost names hbound (hlisted.advances hend.moves.toAdvances hbound)
    have hcounted := hend.moves.counted
    rw [stabilise_succ]
    by_cases hchanged : before.changes < (pass before).2.changes
    · rw [if_pos hchanged]
      exact ih hend.proper (hlisted.advances hend.moves.toAdvances hbound) (by omega)
    · rw [if_neg hchanged]
      exact ⟨before, hbefore, rfl, hend.moves.still (by omega)⟩

end Stabilise

/-! ## Bindings -/

section Bindings

variable {ns : Namespace} {visible : List Name} {last : Analysis}

/-- A result that is recorded without a change is allowed for. -/
theorem covered_recordResult (hns : ns.WellScoped) {inner : Expr} {name : Name}
    (hinner : SettlesExpr ns inner) (hfits : inner.Fits ns visible) (hlast : last.Proper ns)
    (hstill : (Analyse.recordResult name (Analyse.expr inner) last).2 = last) :
    ∃ result, inner.Covered last result ∧ last.Holds name result := by
  have hend := hfits.ends hns hlast
  have hrecord : Moves [name] [] 0 _ ((Analyse.expr inner last).2.record name _).2 :=
    Moves.record hend.proper hend.good (.inl List.mem_cons_self)
  have hstill : ((Analyse.expr inner last).2.record name (Analyse.expr inner last).1).2 = last :=
    hstill
  rw [hstill] at hrecord
  have hsame := (hend.moves.still_parts hrecord rfl).1
  have hcovered := hinner visible hfits last hlast (.inl (by rw [hsame]))
  have hholds := holds_record hend.proper hend.good name
  rw [hstill] at hholds
  rw [hsame] at hcovered
  exact ⟨_, hcovered, hholds⟩

/-- A binding that is analysed without a change is covered. -/
theorem covered_binding (hns : ns.WellScoped) {binding : Binding}
    (hinner : SettlesExpr ns binding.inner) (hfits : binding.inner.Fits ns visible)
    (hname : ns.params? binding.name = binding.params?.map (·.map Param.name))
    (hparams : ∀ p ∈ binding.paramNames, ns.params? p = none) (hlast : last.Proper ns)
    (hstill : (Analyse.binding binding last).2 = last) : binding.Covered last := by
  have hplain : ∀ p ∈ binding.paramNames, last.functionParams.get? p = none := fun p hp =>
    hlast.functionParams_eq_none (hparams p hp)
  rw [Analyse.binding_eq] at hstill
  cases hfunction : binding.params? with
  | none =>
    rw [hfunction] at hstill hname
    obtain ⟨result, hcovered, hholds⟩ := covered_recordResult hns hinner hfits hlast hstill
    refine .mk ?_ hplain hcovered hholds
    rw [hfunction]
    exact hlast.functionParams_eq_none hname
  | some params =>
    rw [hfunction] at hstill hname
    have hstill : (Analyse.recordResult binding.name (Analyse.expr binding.inner)
        (last.withFunction binding.name (params.map Param.name))).2 = last := hstill
    have hrecorded : last.functionParams.get? binding.name = some (params.map Param.name) := by
      have hproper := hlast.withFunction hname
      have hown : (last.withFunction binding.name (params.map Param.name)).functionParams.get?
          binding.name = some (params.map Param.name) := by
        cases hold : last.functionParams.get? binding.name with
        | none => rw [Analysis.get?_withFunction _ hold, if_pos rfl]
        | some found =>
          rw [Analysis.withFunction_of_some (by rw [hold]; exact nofun), hold]
          exact (hlast.functions _ _ hold).symm.trans hname
      have hend := hfits.ends hns hproper
      have hrecord : Moves [binding.name] [] 0 _ _ :=
        Moves.record hend.proper hend.good (.inl List.mem_cons_self)
      have hkept := hrecord.kept _ _ (hend.moves.kept _ _ hown)
      rw [← hstill]
      exact hkept
    rw [Analysis.withFunction_of_some (by rw [hrecorded]; exact nofun)] at hstill
    obtain ⟨result, hcovered, hholds⟩ := covered_recordResult hns hinner hfits hlast hstill
    refine .mk ?_ hplain hcovered hholds
    rw [hfunction]
    exact hrecorded

/-- Bindings that are analysed without a change are covered. -/
theorem covered_bindingList {bound called : List Name} {calls : Nat}
    {bindings : List Binding} (hdoes : ∀ binding ∈ bindings,
      Does ns bound called calls (Analyse.binding binding) fun _ => True)
    (hcovers : ∀ binding ∈ bindings, (Analyse.binding binding last).2 = last →
      binding.Covered last) (hlast : last.Proper ns)
    (hstill : (Analyse.bindingList bindings last).2 = last) :
    ∀ binding ∈ bindings, binding.Covered last := by
  induction bindings with
  | nil => exact fun _ hmem => (List.not_mem_nil hmem).elim
  | cons first rest ih =>
    have hothers : ∀ binding ∈ rest, Does ns bound called calls (Analyse.binding binding)
        fun _ => True := fun binding hmem => hdoes binding (List.mem_cons_of_mem _ hmem)
    have hend := hdoes first List.mem_cons_self last hlast
    have hrest := does_bindingList hothers _ hend.proper
    have hmoves := hrest.moves
    have hstill : (Analyse.bindingList rest (Analyse.binding first last).2).2 = last := hstill
    rw [hstill] at hmoves
    have hfirst := (hend.moves.still_parts hmoves rfl).1
    rw [hfirst] at hstill
    intro binding hmem
    rcases List.mem_cons.1 hmem with rfl | hmem
    · exact hcovers binding List.mem_cons_self hfirst
    · exact ih hothers (fun other ho => hcovers other
          (List.mem_cons_of_mem _ ho)) hstill binding hmem

theorem settles_block (hns : ns.WellScoped) {bindings : List Binding} {result : Expr}
    (hbindings : ∀ binding ∈ bindings, SettlesExpr ns binding.inner)
    (hresult : SettlesExpr ns result) : SettlesExpr ns (.block bindings result) := by
  intro visible h before hbefore _
  obtain ⟨hparts, hend⟩ := h.block
  have hdoes : ∀ binding ∈ bindings, Does ns (Expr.block bindings result).boundNames
      (Expr.block bindings result).references (Expr.block bindings result).references.length
      (Analyse.binding binding) fun _ => True := fun binding hmem =>
    does_blockBinding h hmem ((does_all hns).2 _ _ (hparts binding hmem).1)
  have hpass := does_pass h (fun binding hmem => (does_all hns).2 _ _ (hparts binding hmem).1)
    ((does_all hns).2 _ _ hend)
  obtain ⟨last, hlast, heq, hsame⟩ := stabilise_still hpass
    (fun _ hname => List.mem_append_left _ (List.mem_append_left _ hname)) hbefore
    ((Expr.block bindings result).listed_scope before) (Expr.potential_scope _ before)
  rw [Analyse.expr]
  show Expr.Covered (Analyse.stabilise _ (before.changeBound (.block bindings result)) before).2 _
    (Analyse.stabilise _ (before.changeBound (.block bindings result)) before).1
  rw [hsame, ← heq]
  rw [← heq] at hsame
  -- The last pass leaves everything as it is, and so do its two halves.
  have hfirst := does_bindingList hdoes last hlast
  have hsecond := hend.ends hns hfirst.proper
  have hmoves := hsecond.moves
  have hsame : (Analyse.expr result (Analyse.bindingList bindings last).2).2 = last := hsame
  rw [hsame] at hmoves
  have hstill := (hfirst.moves.still_parts hmoves rfl).1
  rw [hstill] at hsame
  show Expr.Covered last _ (Analyse.expr result (Analyse.bindingList bindings last).2).1
  rw [hstill]
  have hcovered := hresult _ hend last hlast (.inl (by rw [hsame]))
  rw [hsame] at hcovered
  refine .block (covered_bindingList hdoes (fun binding hmem hunchanged =>
      ?_) hlast hstill) hcovered
  obtain ⟨hfits, hname, hparams⟩ := hparts binding hmem
  exact covered_binding hns (hbindings binding hmem) hfits hname hparams hlast hunchanged

/-- Whatever fits a namespace is covered once it is analysed. -/
theorem settles_all (hns : ns.WellScoped) :
    (∀ value, SettlesValue ns value) ∧ ∀ expr, SettlesExpr ns expr := by
  refine induct ?_ ?_ ?_ ?_ ?_ ?_ ?_ ?_ ?_ ?_ ?_ ?_
  · intro value visible _ before _ _
    exact ⟨.literal, rfl⟩
  · exact settles_reference hns
  · exact fun params body ih => settles_lambda hns ih
  · exact fun value ih => settles_box ih
  · exact fun value ih => settles_unbox ih
  · exact fun value ih => settles_value ih
  · exact fun type function args ihFunction ihBody ihArgs =>
        settles_apply hns ihFunction ihBody ihArgs
  · exact fun op operand ih => settles_unary ih
  · exact fun left op right ihLeft ihRight => settles_binary hns ihLeft ihRight
  · exact fun condition consequent alternative ihCondition ihConsequent ihAlternative =>
      settles_conditional hns ihCondition ihConsequent ihAlternative
  · exact fun scrutinee cases ihScrutinee ihCases => settles_cases hns ihScrutinee ihCases
  · exact fun bindings result ihBindings ihResult => settles_block hns ihBindings ihResult

end Bindings

end PolyFront.Lowered
