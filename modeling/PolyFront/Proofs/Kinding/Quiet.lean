import PolyFront.Proofs.Kinding.Trees

/-!
# Kind checking without diagnostics

Diagnostics are only ever added, so that a run which reports nothing has no part that does.  A
mismatch is always reported: what is found quietly was found by checks that succeeded.
-/

namespace PolyFront

open Run

namespace Check

variable {α β : Type} {c : Checker}

/-- Diagnostics are only added. -/
def Appends (run : Check α) : Prop :=
  ∀ c, Ends run c fun _ c' => c.log.items <+: c'.log.items

/-- If the run ends and has reported nothing, the condition holds. -/
def Quietly (run : Check α) (c : Checker) (post : α → Checker → Prop) : Prop :=
  Ends run c fun a c' => c'.log.items = c.log.items → post a c'

theorem Appends.pure (a : α) : Appends (Pure.pure a : Check α) :=
  fun _ => Ends.pure (List.prefix_refl _)

theorem Appends.bind {run : Check α} {next : α → Check β} (h : Appends run)
    (hnext : ∀ a, Appends (next a)) : Appends (run >>= next) := by
  intro c
  refine Ends.bind ((h c).mono fun a c₁ hc₁ => ?_)
  exact (hnext a c₁).mono fun _ _ hc₂ => hc₁.trans hc₂

theorem Appends.lift (run : Solve α) : Appends (liftM run : Check α) :=
  fun _ => Ends.within fun _ _ _ => List.prefix_refl _

theorem Appends.report (range : Range) (message : String) : Appends (report range message) :=
  fun _ => Ends.modify (List.prefix_append _ _)

theorem Appends.throw (fault : Fault) : Appends (throw fault : Check α) := by
  intro c a c' hrun
  cases hrun

theorem Appends.mapM {f : α → Check β} {items : List α} (h : ∀ item ∈ items, Appends (f item)) :
    Appends (items.mapM f) := by
  induction items with
  | nil => exact Appends.pure []
  | cons item rest ih =>
    rw [List.mapM_cons]
    refine (h item List.mem_cons_self).bind fun b => ?_
    refine (ih fun other hother => h other (List.mem_cons_of_mem _ hother)).bind fun bs => ?_
    exact Appends.pure (b :: bs)

theorem Quietly.pure {post : α → Checker → Prop} {a : α} (h : post a c) :
    Quietly (Pure.pure a : Check α) c post :=
  Ends.pure fun _ => h

theorem Quietly.mono {post post' : α → Checker → Prop} {run : Check α} (h : Quietly run c post)
    (himp : ∀ a c', post a c' → post' a c') : Quietly run c post' :=
  Ends.mono h fun a c' hpost hquiet => himp a c' (hpost hquiet)

theorem Quietly.of_ends {post : α → Checker → Prop} {run : Check α} (h : Ends run c post) :
    Quietly run c post :=
  Ends.mono h fun _ _ hpost _ => hpost

/-- A run that reports nothing has no part that does. -/
theorem Quietly.bind {post : β → Checker → Prop} {run : Check α} {next : α → Check β}
    (hrun : Appends run) (hnext : ∀ a, Appends (next a))
    (h : Quietly run c fun a c' => Quietly (next a) c' post) : Quietly (run >>= next) c post := by
  refine Ends.bind ((Ends.and (hrun c) h).mono ?_)
  rintro a c₁ ⟨hgrown, hpost⟩ b c₂ hok hquiet
  have hgrown' : c₁.log.items <+: c₂.log.items := hnext a c₁ b c₂ hok
  rw [hquiet] at hgrown'
  have hsame : c₁.log.items = c.log.items := hgrown'.eq_of_length_le hgrown.length_le
  exact hpost hsame b c₂ hok (hquiet.trans hsame.symm)

theorem Quietly.lift {post : α → Checker → Prop} {run : Solve α}
    (h : Ends run c.store fun a s => post a { c with store := s }) :
    Quietly (liftM run : Check α) c post :=
  Ends.within (h.mono fun _ _ hpost _ => hpost)

theorem Quietly.report (range : Range) (message : String) :
    Quietly (report range message) c fun _ _ => False := by
  refine Ends.modify fun hquiet => ?_
  have hlength := congrArg List.length hquiet
  simp [Log.reportError] at hlength

/-- What holds of every result. -/
def Always (run : Check α) (good : α → Prop) : Prop := ∀ c, Ends run c fun a _ => good a

theorem Always.pure {good : α → Prop} {a : α} (h : good a) : Always (Pure.pure a : Check α) good :=
  fun _ => Ends.pure h

theorem Always.bind {good : β → Prop} {run : Check α} {next : α → Check β}
    (h : ∀ a, Always (next a) good) : Always (run >>= next) good :=
  fun _ => Ends.bind fun a c' _ => h a c'

/-- Nothing is asked of a result that always fails a test. -/
theorem Always.quietly {test : α → Bool} {run : Check α} {post : α → Checker → Prop}
    (h : Always run fun a => test a = true) :
    Quietly run c fun a c' => test a = false → post a c' := by
  refine (h c).mono fun a c' htrue _ hfalse => ?_
  rw [htrue] at hfalse
  cases hfalse

theorem Appends.kindOf (here : Located Attributes) : Appends (kindOf here) := by
  unfold Check.kindOf
  split
  · exact Appends.pure _
  · exact Appends.throw _

theorem Quietly.kindOf {here : Located Attributes} {post : Kind → Checker → Prop}
    (h : ∀ kind, here.kindBy id = some kind → post kind c) : Quietly (kindOf here) c post := by
  unfold Check.kindOf
  split
  · rename_i kind hkind
    refine Quietly.pure (h kind ?_)
    rw [Located.kindBy_id, hkind]
    rfl
  · intro a c' hrun
    cases hrun

theorem Appends.withScope {kind : ScopeKind} {body : Check α} (h : Appends body) :
    Appends (withScope kind body) :=
  (Appends.lift _).bind fun _ => h.bind fun _ => (Appends.lift _).bind fun _ => Appends.pure _

section Traversals

variable {f : Attributes → Check Attributes}

theorem Appends.located (h : ∀ attributes, Appends (f attributes)) (here : Located Attributes) :
    Appends (here.traverse f) :=
  (h here.info).bind fun _ => Appends.pure _

theorem Appends.typeVar (h : ∀ attributes, Appends (f attributes)) (var : TypeVarNode Attributes) :
    Appends (var.traverse f) :=
  (Appends.located h var.here).bind fun _ => Appends.pure _

mutual
theorem Appends.traverse (h : ∀ attributes, Appends (f attributes)) :
    ∀ node : TypeNode Attributes, Appends (node.traverse f)
  | .quantified here binders body => by
    rw [TypeNode.traverse]
    refine (Appends.located h here).bind fun _ => ?_
    refine (Appends.mapM fun var _ => Appends.typeVar h var).bind fun _ => ?_
    exact (Appends.traverse h body).bind fun _ => Appends.pure _
  | .function here args result => by
    rw [TypeNode.traverse]
    refine (Appends.located h here).bind fun _ => ?_
    refine (Appends.traverseList h args).bind fun _ => ?_
    exact (Appends.traverse h result).bind fun _ => Appends.pure _
  | .apply here head args => by
    rw [TypeNode.traverse]
    refine (Appends.located h here).bind fun _ => ?_
    refine (Appends.traverse h head).bind fun _ => ?_
    exact (Appends.traverseList h args).bind fun _ => Appends.pure _
  | .reference here _ => by
    rw [TypeNode.traverse]
    exact (Appends.located h here).bind fun _ => Appends.pure _
  | .var node => by
    rw [TypeNode.traverse]
    exact (Appends.typeVar h node).bind fun _ => Appends.pure _
theorem Appends.traverseList (h : ∀ attributes, Appends (f attributes)) :
    ∀ nodes : List (TypeNode Attributes), Appends (TypeNode.traverseList f nodes)
  | [] => by
    rw [TypeNode.traverseList]
    exact Appends.pure _
  | node :: rest => by
    rw [TypeNode.traverseList]
    refine (Appends.traverse h node).bind fun _ => ?_
    exact (Appends.traverseList h rest).bind fun _ => Appends.pure _
end

end Traversals

theorem Appends.bindTypeVar (var : TypeVarNode Name) (kind : Kind) :
    Appends (bindTypeVar var kind) :=
  (Appends.lift _).bind fun _ => Appends.pure _

theorem Appends.kindOfName (name : Name) : Appends (kindOfName name) := by
  unfold Check.kindOfName
  split
  · exact Appends.lift _
  · intro c
    refine Ends.bind (Ends.get ?_)
    revert c
    show ∀ c : Checker, Ends _ c fun _ c' => c.log.items <+: c'.log.items
    intro c
    split
    · exact Appends.lift _ c
    · exact ((Appends.lift _).bind fun _ => (Appends.lift _).bind fun _ => Appends.pure _) c

end Check

namespace KindJudgement

open Check

/-- Neither way of finding kinds takes a diagnostic back. -/
structure Adds (judgement : KindJudgement) : Prop where
  infer : Appends judgement.infer
  check : ∀ expected, Appends (judgement.check expected)

/-- What follows when a kind was compared with the expected one. -/
theorem appends_mismatch (range : Range) (node : TypeNode Attributes) (expected actual : Kind)
    (ok : Bool) : Appends (if (!ok) = true then do
        let expected ← (Solve.substituteKind expected : Check Kind)
        let actual ← (Solve.substituteKind actual : Check Kind)
        report range (KindError.mismatch expected actual).message
        pure node
      else pure node) := by
  split
  · refine (Appends.lift _).bind fun _ => (Appends.lift _).bind fun _ => ?_
    exact (Appends.report _ _).bind fun _ => Appends.pure _
  · exact Appends.pure _

/-- A mismatch is reported. -/
theorem quietly_mismatch (range : Range) (node : TypeNode Attributes) (expected actual : Kind)
    {c : Checker} {post : TypeNode Attributes → Checker → Prop} : Quietly (do
        let expected ← (Solve.substituteKind expected : Check Kind)
        let actual ← (Solve.substituteKind actual : Check Kind)
        report range (KindError.mismatch expected actual).message
        pure node) c post := by
  refine Quietly.bind (Appends.lift _) (fun _ => (Appends.lift _).bind fun _ =>
    (Appends.report _ _).bind fun _ => Appends.pure _) fun _ c₁ _ _ => ?_
  refine Quietly.bind (Appends.lift _) (fun _ =>
    (Appends.report _ _).bind fun _ => Appends.pure _) fun _ c₂ _ _ => ?_
  refine Quietly.bind (Appends.report _ _) (fun _ => Appends.pure _) ?_
  exact (Quietly.report _ _).mono fun _ _ hfalse => hfalse.elim

theorem appends_subsume (range : Range) {infer : Check (TypeNode Attributes)} (h : Appends infer)
    (expected : Kind) : Appends (subsume range infer expected) := by
  unfold subsume
  refine h.bind fun node => (Appends.kindOf _).bind fun actual => (Appends.lift _).bind fun ok => ?_
  exact appends_mismatch range node expected actual ok

theorem Adds.ofInference (range : Range) {infer : Check (TypeNode Attributes)}
    (h : Appends infer) : (ofInference range infer).Adds :=
  ⟨h, fun _ => (Appends.lift _).bind fun _ => appends_subsume range h _⟩

variable {here : Located Name} {binders : List (TypeVarNode Name)} {body : KindJudgement}

theorem appends_inferQuantified (h : body.Adds) : Appends (inferQuantified here binders body) := by
  refine Appends.withScope ?_
  refine (Appends.mapM fun var _ => ?_).bind fun _ => (h.check _).bind fun _ => ?_
  · exact (Appends.lift _).bind fun _ => Appends.bindTypeVar _ _
  · exact Appends.traverse (fun _ => Appends.lift _) _

theorem appends_checkQuantified (h : body.Adds) (args : List Kind) (result : Kind) :
    Appends (checkQuantified here binders body args result) := by
  refine Appends.withScope ?_
  refine (Appends.mapM fun _ _ => Appends.bindTypeVar _ _).bind fun _ =>
      (h.check _).bind fun _ => ?_
  exact Appends.traverse (fun _ => Appends.lift _) _

theorem Adds.quantified (h : body.Adds) : (quantified here binders body).Adds := by
  refine ⟨appends_inferQuantified h, fun expected => (Appends.lift _).bind fun expected => ?_⟩
  dsimp only
  split
  · split
    · exact appends_checkQuantified h _ _
    · exact appends_subsume _ (appends_inferQuantified h) _
  · exact appends_subsume _ (appends_inferQuantified h) _

theorem Adds.function {args : List KindJudgement} {result : KindJudgement}
    (hargs : ∀ arg ∈ args, arg.Adds) (hresult : result.Adds) :
        (function here args result).Adds := by
  refine Adds.ofInference _ ?_
  refine (Appends.mapM fun arg harg => (hargs arg harg).check _).bind fun _ => ?_
  exact (hresult.check _).bind fun _ => Appends.pure _

theorem appends_applied (range : Range) (arity : Nat) (head : Kind) :
    Appends (applied range arity head) := by
  unfold applied
  dsimp only
  split
  · split
    · exact Appends.pure _
    · refine (Appends.mapM fun _ _ => Appends.lift _).bind fun _ =>
          (Appends.lift _).bind fun _ => ?_
      exact (Appends.report _ _).bind fun _ => Appends.pure _
  · refine (Appends.mapM fun _ _ => Appends.lift _).bind fun _ => (Appends.lift _).bind fun _ => ?_
    split
    · split
      · exact (Appends.report _ _).bind fun _ => Appends.pure _
      · exact (Appends.lift _).bind fun _ => Appends.pure _
    · exact (Appends.report _ _).bind fun _ => Appends.pure _

/-- A head whose kind is no variable is applied without a diagnostic only when it takes that many
arguments. -/
theorem applied_quietly {range : Range} {arity : Nat} {head : Kind} {c : Checker}
    (hsolid : ∀ id, head ≠ .unsolved id) : Quietly (applied range arity head) c
        fun parts c' => c' = c ∧
      head = .higher parts.1 parts.2 ∧ parts.1.length = arity := by
  -- Otherwise the mismatch is reported.
  have hreports : ∀ message : List Kind → Kind → String, Quietly (do
      let args ← (List.replicate arity ()).mapM fun _ => (Solve.freshKind : Check Kind)
      let result ← (Solve.freshKind : Check Kind)
      report range (message args result)
      pure (args, result)) c fun parts c' => c' = c ∧
        head = .higher parts.1 parts.2 ∧ parts.1.length = arity := by
    intro message
    have hlast : ∀ args result, Appends (do
        report range (message args result)
        pure (args, result) : Check (List Kind × Kind)) := fun _ _ =>
      (Appends.report _ _).bind fun _ => Appends.pure _
    refine Quietly.bind (Appends.mapM fun _ _ => Appends.lift _)
      (fun args => (Appends.lift _).bind fun _ => hlast args _) fun args c₁ _ _ => ?_
    refine Quietly.bind (Appends.lift _) (fun result => hlast args result) fun result c₂ _ _ => ?_
    refine Quietly.bind (Appends.report _ _) (fun _ => Appends.pure _) ?_
    exact (Quietly.report _ _).mono fun _ _ hfalse => hfalse.elim
  unfold applied
  dsimp only
  cases head with
  | type => exact hreports _
  | unsolved id => exact (hsolid id rfl).elim
  | higher args result =>
    dsimp only
    split
    · exact Quietly.pure ⟨rfl, rfl, ‹_›⟩
    · exact hreports _

theorem Adds.apply {head : KindJudgement} {args : List KindJudgement} (hhead : head.Adds)
    (hargs : ∀ arg ∈ args, arg.Adds) : (apply here head args).Adds := by
  refine Adds.ofInference _ ?_
  refine hhead.infer.bind fun _ => (Appends.kindOf _).bind fun _ =>
      (Appends.lift _).bind fun _ => ?_
  refine (appends_applied _ _ _).bind fun parts => ?_
  refine (Appends.mapM fun pair hpair => ?_).bind fun _ => Appends.pure _
  exact (hargs pair.1 (List.of_mem_zip hpair).1).check _

theorem Adds.reference (id : QualifiedId) : (reference here id).Adds :=
  Adds.ofInference _ ((Appends.kindOfName _).bind fun _ => Appends.pure _)

theorem Adds.var (node : TypeVarNode Name) : (var node).Adds :=
  Adds.ofInference _ ((Appends.kindOfName _).bind fun _ => Appends.pure _)

end KindJudgement

mutual
theorem TypeNode.judge_adds : ∀ node : TypeNode Name, node.judge.Adds
  | .quantified _ _ body => by
    rw [judge]
    exact .quantified body.judge_adds
  | .function _ args result => by
    rw [judge]
    exact .function (judgeList_adds args) result.judge_adds
  | .apply _ head args => by
    rw [judge]
    exact .apply head.judge_adds (judgeList_adds args)
  | .reference _ _ => by
    rw [judge]
    exact .reference _
  | .var _ => by
    rw [judge]
    exact .var _
theorem TypeNode.judgeList_adds : ∀ nodes : List (TypeNode Name),
    ∀ judgement ∈ TypeNode.judgeList nodes, judgement.Adds
  | [] => by
    rw [judgeList]
    intro _ h
    cases h
  | node :: rest => by
    rw [judgeList]
    intro judgement h
    rcases List.mem_cons.1 h with rfl | h
    · exact node.judge_adds
    · exact judgeList_adds rest judgement h
end

end PolyFront
