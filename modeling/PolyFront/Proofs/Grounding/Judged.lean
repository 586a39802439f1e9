import PolyFront.Proofs.Grounding.Written

/-!
# The judgements of written types

Both ways to find the kinds of a written type lead to nodes whose kinds are free.  What is expected
of a type is free, too, so that all checks on the way are checks of free kinds.
-/

namespace PolyFront

open Run Check World

/-- Both ways to find the kinds of a written type find its nodes. -/
structure KindJudgement.Shows (inside : Bool) (judgement : KindJudgement) : Prop where
  infer : ∀ {w : World}, w.Kept → w.Apart inside →
    FindsNodes inside w judgement.infer TypeNode.infos
  check : ∀ {w : World} {expected : Kind}, w.Kept → w.Apart inside →
    expected.Proper w.store.nextKind → w.Free expected →
    FindsNodes inside w (judgement.check expected) TypeNode.infos

namespace KindJudgement

variable {w : World} {inside : Bool} {c : Checker}

/-- The kind of a node is compared with the expected one. -/
theorem subsume_finds (range : Range) (expected : Kind) {infer : Check (TypeNode Attributes)}
    (hinfer : FindsNodes inside w infer TypeNode.infos)
    (hproper : expected.Proper w.store.nextKind) (hfree : w.Free expected) :
    FindsNodes inside w (subsume range infer expected) TypeNode.infos := by
  intro c hc
  refine Ends.bind ((hinfer c hc).mono ?_)
  rintro node c₁ ⟨w₁, hc₁, hfound⟩
  obtain ⟨kind, hkind, hkindProper, hkindFree⟩ := hfound.carries _ node.here_mem_infos
  refine Ends.bind (kindOf_ends hkind (Ends.bind (lift_ends ?_)))
  rw [← hc₁]
  refine (Solve.checkSubKind_free hfound.kept hkindProper (hproper.mono hfound.toLater.kinds)
    hkindFree (hfound.toLater.free hproper hfree)).mono ?_
  rintro matched _ ⟨w₂, rfl, hchecks⟩
  have hdone := hfound.append hchecks.kindSteps
  split
  · refine Ends.bind (lift_ends (Ends.bind (Ends.get (Ends.pure ?_))))
    refine Ends.bind (lift_ends (Ends.bind (Ends.get (Ends.pure ?_))))
    refine Ends.bind ((report_ends _ _).mono fun _ c₂ hc₂ => ?_)
    exact Ends.pure ⟨w₂, hc₂.symm, hdone⟩
  · exact Ends.pure ⟨w₂, rfl, hdone⟩

theorem Shows.ofInference (range : Range) {infer : Check (TypeNode Attributes)}
    (hinfer : ∀ {w : World}, w.Kept → w.Apart inside → FindsNodes inside w infer TypeNode.infos) :
    (ofInference range infer).Shows inside where
  infer := hinfer
  check hw hapart hproper hfree c hc := by
    refine Ends.bind (lift_ends (Ends.bind (Ends.get (Ends.pure ?_))))
    rw [hc]
    exact subsume_finds range _ (hinfer hw hapart) (hw.kinds.substitute_proper hproper)
      ((Kind.free_substitute hw.wellFounded).2 hfree) _ rfl

/-! ## Quantified types -/

theorem bindTypeVar_finds (inside : Bool) (var : TypeVarNode Name) {kind : Kind} (hw : w.Kept)
    (hproper : kind.Proper w.store.nextKind) (hfree : w.Free kind) :
    FindsNodes inside w (bindTypeVar var kind) fun var => [var.here.info] := by
  intro c hc
  refine Ends.bind ((put_finds hw hc (.type var.name) rfl
    (bound_of_free (kinded var.here kind) rfl hproper hfree)).mono ?_)
  rintro _ c₁ ⟨w₁, hc₁, hsteps⟩
  obtain ⟨w₂, hw₂, hfound⟩ := hsteps.found.cons (kinded var.here kind).info rfl
    (hproper.mono hsteps.toLater.kinds) fun _ => hsteps.toLater.free hproper hfree
  exact Ends.pure ⟨w₂, hw₂.trans hc₁, hfound⟩

theorem inferTypeVar_finds (inside : Bool) (var : TypeVarNode Name) (hw : w.Kept) :
    FindsNodes inside w (inferTypeVar var) fun var => [var.here.info] := by
  intro c hc
  refine Ends.bind ((freshKind_finds hw hc).mono ?_)
  rintro kind c₁ ⟨w₁, hc₁, hsteps, hproper, hfree⟩
  refine (bindTypeVar_finds inside var hsteps.kept hproper hfree c₁ hc₁.symm).mono ?_
  rintro var' c₂ ⟨w₂, hc₂, hfound⟩
  exact ⟨w₂, hc₂, hsteps.found.trans hfound⟩

/-- Binders and the type below them in a frame of their own. -/
theorem quantified_finds {here : Located Name} {kind result : Kind}
    {binders : Check (List (TypeVarNode Attributes))} {body : KindJudgement} (hw : w.Kept)
    (hapart : w.Apart inside) (hbody : body.Shows inside)
    (hbinders : FindsNodes inside (w.pushed .quantifiedType) binders fun vars =>
      vars.map fun var => var.here.info)
    (hkind : kind.Proper w.store.nextKind ∧ w.Free kind)
    (hresult : result.Proper w.store.nextKind ∧ w.Free result) :
    FindsNodes inside w (withScope .quantifiedType do
      let binders ← binders
      let body ← body.check result
      substituteNode (.quantified (kinded here kind) binders body)) TypeNode.infos := by
  refine withScope_finds hw rfl fun c hc => Ends.bind ((hbinders c hc).mono ?_)
  have hpushed := w.later_pushed .quantifiedType
  have hapart' : (w.pushed .quantifiedType).Apart inside := hapart.pushed nofun
  rintro vars c₁ ⟨w₁, hc₁, hfound⟩
  have hlater := hpushed.trans hfound.toLater
  refine Ends.bind ((hbody.check hfound.kept (hapart'.steps hfound.toSteps (hw.pushed _))
    (hresult.1.mono hlater.kinds) (hlater.free hresult.1 hresult.2) c₁ hc₁.symm).mono ?_)
  rintro node c₂ ⟨w₂, hc₂, hfound'⟩
  have hlater' := hlater.trans hfound'.toLater
  obtain ⟨w₃, hw₃, hdone⟩ := (hfound.trans hfound').cons (kinded here kind).info rfl
    (hkind.1.mono hlater'.kinds) fun _ => hlater'.free hkind.1 hkind.2
  refine (traverse_substitute_ends (TypeNode.infos_traverse _ _)).mono ?_
  rintro node' c₃ ⟨hc₃, hinfos⟩
  obtain ⟨w₄, hw₄, hsubstituted⟩ := hdone.substitute
  rw [← hc₂, ← hw₃] at hinfos
  refine ⟨w₄, _, ?_, hw₄ ▸ hinfos, ?_⟩
  · rw [hw₄, hw₃, hc₂, hc₃]
  · rw [hinfos]
    exact hsubstituted

theorem inferQuantified_finds (here : Located Name) (binders : List (TypeVarNode Name))
    {body : KindJudgement} (hbody : body.Shows inside) (hw : w.Kept) (hapart : w.Apart inside) :
    FindsNodes inside w (inferQuantified here binders body) TypeNode.infos := by
  have htype : Kind.type.Proper w.store.nextKind ∧ w.Free .type :=
    ⟨Kind.proper_type _, Kind.free_type⟩
  refine quantified_finds hw hapart hbody ?_ htype htype
  have hall := mapM_finds inferTypeVar binders (hw.pushed .quantifiedType)
    (hapart.pushed nofun) fun var _ w' _ hw' _ => inferTypeVar_finds inside var hw'
  simpa only [← List.map_eq_flatMap] using hall

theorem checkQuantified_finds (here : Located Name) (binders : List (TypeVarNode Name))
    {body : KindJudgement} (hbody : body.Shows inside) (hw : w.Kept) (hapart : w.Apart inside)
    {args : List Kind} {result : Kind} (hproper : (Kind.higher args result).Proper w.store.nextKind)
    (hfree : w.Free (.higher args result)) :
    FindsNodes inside w (checkQuantified here binders body args result) TypeNode.infos := by
  obtain ⟨hargs, hresult⟩ := Kind.proper_higher.1 hproper
  obtain ⟨hargsFree, hresultFree⟩ := Kind.free_higher.1 hfree
  refine quantified_finds hw hapart hbody ?_ ⟨hproper, hfree⟩ ⟨hresult, hresultFree⟩
  have hpushed := w.later_pushed .quantifiedType
  have hall := mapM_finds (fun pair : TypeVarNode Name × Kind => bindTypeVar pair.1 pair.2)
    (binders.zip args) (hw.pushed .quantifiedType) (hapart.pushed nofun)
    fun pair hpair w' hlater hw' _ => by
      have harg := (List.of_mem_zip hpair).2
      have hlater' := hpushed.trans hlater
      exact bindTypeVar_finds inside pair.1 hw' ((hargs _ harg).mono hlater'.kinds)
        (hlater'.free (hargs _ harg) (hargsFree _ harg))
  simpa only [← List.map_eq_flatMap] using hall

theorem Shows.quantified (here : Located Name) (binders : List (TypeVarNode Name))
    {body : KindJudgement} (hbody : body.Shows inside) :
    (quantified here binders body).Shows inside where
  infer := inferQuantified_finds here binders hbody
  check := fun {w expected} hw hapart hproper hfree c hc => by
    refine Ends.bind (lift_ends (Ends.bind (Ends.get (Ends.pure ?_))))
    rw [hc]
    have hproper' := hw.kinds.substitute_proper hproper
    have hfree' := (Kind.free_substitute hw.wellFounded).2 hfree
    have hinferred := fun expected => subsume_finds here.range expected
      (inferQuantified_finds here binders hbody hw hapart)
    change (w.store.substituteKind expected).Proper _ at hproper'
    change w.Free (w.store.substituteKind expected) at hfree'
    generalize w.store.substituteKind expected = expected at hproper' hfree'
    dsimp only
    split
    · split
      · exact checkQuantified_finds here binders hbody hw hapart hproper' hfree' _ rfl
      · exact hinferred _ hproper' hfree' _ rfl
    · exact hinferred _ hproper' hfree' _ rfl

/-! ## Functions -/

theorem Shows.function (here : Located Name) {args : List KindJudgement}
    (hargs : ∀ arg ∈ args, arg.Shows inside) {result : KindJudgement}
    (hresult : result.Shows inside) : (function here args result).Shows inside := by
  refine .ofInference _ fun {w} hw hapart c hc => ?_
  have htype : ∀ w : World, w.Free .type := fun _ => Kind.free_type
  refine Ends.bind ((mapM_finds _ _ hw hapart (fun arg harg w' _ hw' hapart' =>
    (hargs arg harg).check hw' hapart' (Kind.proper_type _) (htype w')) c hc).mono ?_)
  rintro nodes c₁ ⟨w₁, hc₁, hfound⟩
  refine Ends.bind ((hresult.check hfound.kept (hapart.steps hfound.toSteps hw)
    (Kind.proper_type _) (htype w₁) c₁ hc₁.symm).mono ?_)
  rintro node c₂ ⟨w₂, hc₂, hfound'⟩
  obtain ⟨w₃, hw₃, hdone⟩ := (hfound.trans hfound').cons (kinded here .type).info rfl
    (Kind.proper_type _) fun _ => htype w₂
  refine Ends.pure ⟨w₃, hw₃.trans hc₂, ?_⟩
  rwa [TypeNode.infos, TypeNode.infosList_eq_flatMap]

/-! ## Applications -/

/-- Kinds that a head is applied to, and the kind of the application. -/
def Parts (w : World) (parts : List Kind × Kind) : Prop :=
  (∀ arg ∈ parts.1, arg.Proper w.store.nextKind ∧ w.Free arg) ∧
    parts.2.Proper w.store.nextKind ∧ w.Free parts.2

theorem Parts.later {w' : World} {parts : List Kind × Kind} (h : Parts w parts)
    (hlater : Later w w') : Parts w' parts :=
  ⟨fun arg harg => ⟨(h.1 arg harg).1.mono hlater.kinds,
      hlater.free (h.1 arg harg).1 (h.1 arg harg).2⟩,
    h.2.1.mono hlater.kinds, hlater.free h.2.1 h.2.2⟩

/-- Fresh kinds are free. -/
theorem Parts.of_made {s : Store} (h : Made w s) (hw : w.Kept) {args : List Kind} {result : Nat}
    (hargs : ∀ arg ∈ args, ∃ v, arg = .unsolved v ∧ w.store.nextKind ≤ v ∧ v < s.nextKind)
    (hle : w.store.nextKind ≤ result) (hlt : result < s.nextKind) :
    Parts { w with store := s } (args, .unsolved result) := by
  refine ⟨fun arg harg => ?_, Kind.proper_unsolved.2 hlt, h.free_fresh hw hle⟩
  obtain ⟨v, rfl, hlow, hv⟩ := hargs arg harg
  exact ⟨Kind.proper_unsolved.2 hv, h.free_fresh hw hlow⟩

/-- A head that is not known to be of the arity is solved by a fresh kind. -/
theorem applied_unknown_finds (range : Range) (arity : Nat) (hw : w.Kept) {head : Kind}
    (hproper : head.Proper w.store.nextKind)
    (hfinal : ∀ id ∈ head.unknowns, w.store.kinds.Final (.unsolved id)) (hc : c.store = w.store) :
    Ends (do
      let args ← (List.replicate arity ()).mapM fun _ => (Solve.freshKind : Check Kind)
      let result ← Solve.freshKind
      let expected := Kind.higher args result
      match head with
      | .unsolved id =>
        if expected.occurs id then
          report range (KindError.mismatchedApplication expected head).message
        else
          let _ ← Solve.instantiateKind .sub id expected
      | _ => report range (KindError.mismatchedApplication expected head).message
      pure (args, result) : Check (List Kind × Kind)) c fun parts c' =>
        ∃ w', w'.store = c'.store ∧ KindSteps [] w w' ∧ Parts w' parts := by
  refine Ends.bind (lift_mapM_ends ?_)
  rw [hc]
  refine (Solve.freshKinds_made _ hw).mono ?_
  rintro args s₁ ⟨hmade, hargs⟩
  refine Ends.bind (lift_ends (Solve.freshKind_newKind.mono ?_))
  rintro _ _ ⟨frame, rest, hframes, rfl, rfl⟩
  have hmade' := hmade.trans (hmade.kept.made_newKind hframes)
  have hle : w.store.nextKind ≤ s₁.nextKind := hmade.toLater.kinds
  have hfresh : ∀ arg ∈ args, ∃ v, arg = .unsolved v ∧ w.store.nextKind ≤ v ∧
      v < (s₁.newKind frame rest).nextKind := by
    intro arg harg
    obtain ⟨v, rfl, hlow, hlt⟩ := hargs arg harg
    exact ⟨v, rfl, hlow, Nat.lt_succ_of_lt hlt⟩
  have hparts := Parts.of_made hmade' hw hfresh hle (Nat.lt_succ_self s₁.nextKind)
  have hreported : ∀ message, Ends (do
      report range message
      pure (args, Kind.unsolved s₁.nextKind) : Check (List Kind × Kind))
      { c with store := s₁.newKind frame rest } fun parts c' =>
        ∃ w', w'.store = c'.store ∧ KindSteps [] w w' ∧ Parts w' parts := fun message =>
    Ends.bind ((report_ends range message).mono fun _ c₂ hc₂ =>
      Ends.pure ⟨_, hc₂.symm, hmade'.toKindSteps, hparts⟩)
  dsimp only
  split
  · rename_i id
    have hid := Kind.proper_unsolved.1 hproper
    split
    · exact hreported _
    · obtain ⟨hsolution, hexpected, hfree⟩ := hmade'.solution hw hid args
        s₁.nextKind ⟨hle, Nat.lt_succ_self _⟩ hfresh
      have hunknowns : ∀ other ∈ (Kind.higher args (.unsolved s₁.nextKind)).unknowns, other ≠ id ∧
          (s₁.newKind frame rest).kinds.Final (.unsolved other) := by
        cases hsolution with
        | compound _ _ hall => exact hall
      refine Ends.bind (lift_ends (Ends.bind (Ends.bind (Ends.get (Ends.pure ?_)))))
      refine (Solve.instantiateKindWith_checks (Solve.checkSubKindWithin_checks _) .sub hmade'.kept
        (Nat.lt_of_lt_of_le hid hmade'.toLater.kinds) (hmade'.final (hfinal id (by simp)))
        hexpected hunknowns (.inl ⟨rfl, hfree⟩)).mono ?_
      rintro solved _ ⟨w₂, rfl, hchecks⟩
      exact Ends.pure ⟨w₂, rfl, hmade'.toKindSteps.trans hchecks.kindSteps,
        hparts.later hchecks.toLater⟩
  · exact hreported _

theorem applied_finds (range : Range) (arity : Nat) (hw : w.Kept) {head : Kind}
    (hproper : head.Proper w.store.nextKind) (hfree : w.Free head)
    (hfinal : ∀ id ∈ head.unknowns, w.store.kinds.Final (.unsolved id)) (hc : c.store = w.store) :
    Ends (applied range arity head) c fun parts c' =>
      ∃ w', w'.store = c'.store ∧ KindSteps [] w w' ∧ Parts w' parts := by
  have hunknown := applied_unknown_finds range arity hw hproper hfinal hc
  unfold applied
  dsimp only
  split
  · obtain ⟨hargs, hresult⟩ := Kind.proper_higher.1 hproper
    obtain ⟨hargsFree, hresultFree⟩ := Kind.free_higher.1 hfree
    split
    · exact Ends.pure ⟨w, hc.symm, hw.kindSteps, fun arg harg => ⟨hargs arg harg,
        hargsFree arg harg⟩, hresult, hresultFree⟩
    · exact hunknown
  · exact hunknown

theorem Shows.apply (here : Located Name) {head : KindJudgement} (hhead : head.Shows inside)
    {args : List KindJudgement} (hargs : ∀ arg ∈ args, arg.Shows inside) :
    (apply here head args).Shows inside := by
  refine .ofInference _ fun {w} hw hapart c hc => ?_
  refine Ends.bind ((hhead.infer hw hapart c hc).mono ?_)
  rintro node c₁ ⟨w₁, hc₁, hfound⟩
  have hw₁ := hfound.kept
  obtain ⟨kind, hkind, hproper, hfree⟩ := hfound.carries _ node.here_mem_infos
  refine Ends.bind (kindOf_ends hkind (Ends.bind (lift_ends (Ends.bind (Ends.get (Ends.pure ?_))))))
  rw [← hc₁]
  refine Ends.bind ((applied_finds here.range args.length hw₁ (hw₁.kinds.substitute_proper hproper)
    ((Kind.free_substitute hw₁.wellFounded).2 hfree)
    (fun _ hid => Kind.final_of_mem_substitute hw₁.wellFounded hid) rfl).mono ?_)
  rintro parts c₂ ⟨w₂, hc₂, hsteps, hparts⟩
  have hfound₂ := hfound.append hsteps
  refine Ends.bind ((mapM_finds (fun pair : KindJudgement × Kind => pair.1.check pair.2) _
    hfound₂.kept (hapart.steps hfound₂.toSteps hw) (fun pair hpair w' hlater hw' hapart' => by
      obtain ⟨harg, hkind⟩ := List.of_mem_zip hpair
      obtain ⟨hproper, hfree⟩ := (hparts.later hlater).1 _ hkind
      exact (hargs _ harg).check hw' hapart' hproper hfree) c₂ hc₂.symm).mono ?_)
  rintro nodes c₃ ⟨w₃, hc₃, hfound₃⟩
  have hresult := (hparts.later hfound₃.toLater).2
  obtain ⟨w₄, hw₄, hdone⟩ := (hfound₂.trans hfound₃).cons (kinded here parts.2).info rfl
    hresult.1 fun _ => hresult.2
  refine Ends.pure ⟨w₄, hw₄.trans hc₃, ?_⟩
  rwa [TypeNode.infos, TypeNode.infosList_eq_flatMap]

/-! ## Names -/

theorem Shows.reference (here : Located Name) (id : QualifiedId) :
    (reference here id).Shows inside := by
  refine .ofInference _ fun {w} hw hapart c hc => ?_
  refine Ends.bind ((kindOfName_finds here.info hw hapart hc).mono ?_)
  rintro kind c₁ ⟨w₁, hc₁, hsteps, hproper, hfree⟩
  obtain ⟨w₂, hw₂, hdone⟩ := hsteps.found.cons (kinded here kind).info rfl hproper hfree
  exact Ends.pure ⟨w₂, hw₂.trans hc₁, hdone⟩

theorem Shows.var (node : TypeVarNode Name) : (var node).Shows inside := by
  refine .ofInference _ fun {w} hw hapart c hc => ?_
  refine Ends.bind ((kindOfName_finds node.here.info hw hapart hc).mono ?_)
  rintro kind c₁ ⟨w₁, hc₁, hsteps, hproper, hfree⟩
  obtain ⟨w₂, hw₂, hdone⟩ := hsteps.found.cons (kinded node.here kind).info rfl hproper
    hfree
  exact Ends.pure ⟨w₂, hw₂.trans hc₁, hdone⟩

end KindJudgement

mutual
/-- The kinds of a written type are found. -/
theorem TypeNode.judge_shows (inside : Bool) : ∀ node : TypeNode Name, node.judge.Shows inside
  | .quantified here binders body => .quantified here binders (judge_shows inside body)
  | .function here args result =>
    .function here (judgeList_shows inside args) (judge_shows inside result)
  | .apply here head args => .apply here (judge_shows inside head) (judgeList_shows inside args)
  | .reference here id => .reference here id
  | .var node => .var node
theorem TypeNode.judgeList_shows (inside : Bool) : ∀ nodes : List (TypeNode Name),
    ∀ judgement ∈ TypeNode.judgeList nodes, judgement.Shows inside
  | [] => fun _ h => (List.not_mem_nil h).elim
  | node :: rest => by
    intro judgement hmem
    rcases List.mem_cons.1 hmem with rfl | hrest
    · exact judge_shows inside node
    · exact judgeList_shows inside rest judgement hrest
end

end PolyFront
