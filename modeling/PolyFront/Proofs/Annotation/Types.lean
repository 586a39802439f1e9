import Mathlib.Data.List.Forall2
import PolyFront.Proofs.Dependencies.Written

/-!
# Kinding only annotates

A checked tree without its classifiers is the resolved tree.  Here for written types and for
data declarations: whatever is reported on the way, and wherever lists of arguments and of
kinds are walked side by side, no node is lost or changed.
-/

namespace PolyFront

/-! ## Checked trees without their classifiers -/

/-- The name of a node without its classifier. -/
def nameOnly (attributes : Attributes) : Id Name := attributes.name

theorem TypeNode.traverseList_eq {α β : Type} (f : α → Id β) (nodes : List (TypeNode α)) :
    TypeNode.traverseList f nodes = nodes.mapM (TypeNode.traverse f) := by
  induction nodes with
  | nil => rfl
  | cons node rest ih => rw [TypeNode.traverseList, List.mapM_cons, ih]

/-- The declaration without its classifiers. -/
def Declaration.erased (d : Declaration Attributes) : Declaration Name := d.traverse nameOnly
/-- The namespace without its classifiers, group by group. -/
def Namespace.erased (ns : Namespace Attributes) : Namespace Name :=
  ⟨ns.here.traverse nameOnly, ns.id, ns.imports, ns.groups.map (List.map Declaration.erased)⟩

/-! ## Lists of results -/

namespace Run

variable {σ α β γ δ : Type}

/-- Each result belongs to what its item is for. -/
theorem Gives.mapM_forall₂ {f : α → Run σ β} {rel : γ → β → Prop} {items : List α}
    {goals : List γ} (h : List.Forall₂ (fun item goal => Gives (f item) (rel goal)) items goals) :
    Gives (items.mapM f) fun results => List.Forall₂ rel goals results := by
  induction h with
  | nil => exact Gives.pure .nil
  | cons hitem _ ih =>
    rw [List.mapM_cons]
    exact Gives.bind hitem fun b hb => Gives.bind ih fun bs hbs => Gives.pure (.cons hb hbs)

/-- Each result leads back to what its item is for. -/
theorem Gives.mapM_goals {f : α → Run σ β} {back : β → Id γ} {items : List α}
    {goals : List γ}
    (h : List.Forall₂ (fun item goal => Gives (f item) fun b => back b = goal) items goals) :
    Gives (items.mapM f) fun results => results.mapM back = goals := by
  refine (Gives.mapM_forall₂ h).mono fun results hresults => ?_
  clear h
  induction hresults with
  | nil => rfl
  | cons hb _ ih =>
    rw [List.mapM_cons, hb, ih]
    rfl

/-- There are as many results as items. -/
theorem Gives.length_mapM (f : α → Run σ β) (items : List α) :
    Gives (items.mapM f) fun results => results.length = items.length := by
  have hany : List.Forall₂ (fun item (_ : α) => Gives (f item) fun _ => True) items items :=
    List.forall₂_same.2 fun _ _ _ _ _ _ => True.intro
  exact (Gives.mapM_forall₂ hany).mono fun _ hresults => hresults.length_eq.symm

theorem Gives.length_replicate (run : Run σ β) (count : Nat) :
    Gives ((List.replicate count ()).mapM fun _ => run) fun results =>
      results.length = count := by
  simpa only [List.length_replicate] using Gives.length_mapM _ (List.replicate count ())

/-- Each result is as good as its item. -/
theorem Gives.mapM_of {f : α → Run σ β} {back : β → Id γ} {left : α → Id γ}
    (h : ∀ item, Gives (f item) fun b => back b = left item) (items : List α) :
    Gives (items.mapM f) fun results => results.mapM back = items.mapM left := by
  refine Gives.mapM_goals ?_
  show List.Forall₂ _ items (items.mapM left).run
  rw [List.idRun_mapM]
  exact List.forall₂_map_right_iff.2 (List.forall₂_same.2 fun item _ => h item)

/-- Nothing is lost where items are walked side by side with as many others. -/
theorem Gives.mapM_zip {f : α × δ → Run σ β} {back : β → Id γ} {items : List α}
    {others : List δ} {goals : List γ} (h : List.Forall₂ (fun item goal => ∀ other,
      Gives (f (item, other)) fun b => back b = goal) items goals)
    (hlength : others.length = items.length) :
    Gives ((items.zip others).mapM f) fun results => results.mapM back = goals := by
  refine Gives.mapM_goals ?_
  induction h generalizing others with
  | nil => exact .nil
  | cons hitem _ ih =>
    obtain _ | ⟨other, others⟩ := others
    · simp at hlength
    · exact .cons (hitem other) (ih (Nat.succ.inj hlength))

/-- Items are walked side by side with what belongs to them. -/
theorem Gives.mapM_pairs {f : α × δ → Run σ β} {back : β → Id α} {rel : α → δ → Prop}
    {items : List α} {others : List δ} (hrel : List.Forall₂ rel items others)
    (h : ∀ item other, rel item other → Gives (f (item, other)) fun b => back b = item) :
    Gives ((items.zip others).mapM f) fun results => results.mapM back = items := by
  refine Gives.mapM_goals ?_
  induction hrel with
  | nil => exact .nil
  | cons hitem _ ih => exact .cons (h _ _ hitem) ih

theorem Gives.ite {c : Prop} [Decidable c] {good : α → Prop} {run other : Run σ α}
    (hrun : c → Gives run good) (hother : ¬c → Gives other good) :
    Gives (if c then run else other) good := by
  by_cases h : c
  · simpa only [h, if_true] using hrun h
  · simpa only [h, if_false] using hother h

/-- An action that is done only under a condition, before the rest of a run. -/
theorem Gives.whenThen {c : Prop} [Decidable c] {good : α → Prop} {run : Run σ PUnit}
    {rest : Run σ α} (hrest : Gives rest good) :
    Gives (if c then (run >>= fun _ => rest) else rest) good :=
  Gives.ite (fun _ => Gives.skip fun _ => hrest) fun _ => hrest

theorem Gives.throw {good : α → Prop} (fault : Fault) :
    Gives (MonadExcept.throw fault : Run σ α) good := by
  intro _ _ _ hrun
  cases hrun

end Run

/-- What belongs to an item is still there beside as many others. -/
theorem forall₂_zip_right {α β γ : Type} {rel : α → β → Prop} {items : List α} {mates : List β}
    (h : List.Forall₂ rel items mates) : ∀ {others : List γ}, others.length = mates.length →
      List.Forall₂ (fun item pair => rel item pair.1) items (mates.zip others) := by
  induction h with
  | nil => exact fun _ => .nil
  | cons hitem _ ih =>
    intro others hlength
    obtain _ | ⟨other, others⟩ := others
    · simp at hlength
    · exact .cons hitem (ih (Nat.succ.inj hlength))

namespace Check

open Run

/-! ## Substitution -/

/-- The names of what is annotated anew stay. -/
def KeepsName (f : Attributes → Check Attributes) : Prop :=
  ∀ attributes, Gives (f attributes) fun attributes' => nameOnly attributes' = nameOnly attributes

theorem lift_gives {α : Type} {run : Solve α} {good : α → Prop} (h : Gives run good) :
    Gives (liftM run : Check α) good := fun s => Ends.within (h s.store)

theorem keepsName_substitute : KeepsName fun attributes => Solve.substitute attributes :=
  fun _ => lift_gives (Gives.skip fun _ => Gives.pure rfl)

theorem keepsName_default : KeepsName fun attributes => Solve.default attributes :=
  fun _ => lift_gives (Gives.skip fun _ => Gives.pure rfl)

section Traverse

variable {f : Attributes → Check Attributes}

theorem located_traverse_gives (hf : KeepsName f) (here : Located Attributes) :
    Gives (here.traverse f) fun here' => here'.traverse nameOnly = here.traverse nameOnly := by
  refine Gives.bind (hf here.info) fun info hinfo => Gives.pure ?_
  simp only [Located.traverse, hinfo]

theorem typeVarNode_traverse_gives (hf : KeepsName f) (var : TypeVarNode Attributes) :
    Gives (var.traverse f) fun var' => var'.traverse nameOnly = var.traverse nameOnly := by
  refine Gives.bind (located_traverse_gives hf var.here) fun here hhere => Gives.pure ?_
  simp only [TypeVarNode.traverse, hhere]

mutual
theorem typeNode_traverse_gives (hf : KeepsName f) : ∀ node : TypeNode Attributes,
    Gives (node.traverse f) fun node' => node'.traverse nameOnly = node.traverse nameOnly
  | .quantified here binders body => by
    refine Gives.bind (located_traverse_gives hf here) fun here' hhere => ?_
    refine Gives.bind (Gives.mapM_of (typeVarNode_traverse_gives hf) binders) ?_
    intro binders' hbinders
    refine Gives.bind (typeNode_traverse_gives hf body) fun body' hbody => Gives.pure ?_
    simp only [TypeNode.traverse, hhere, hbinders, hbody]
  | .function here args result => by
    refine Gives.bind (located_traverse_gives hf here) fun here' hhere => ?_
    refine Gives.bind (typeNodes_traverse_gives hf args) fun args' hargs => ?_
    refine Gives.bind (typeNode_traverse_gives hf result) fun result' hresult => Gives.pure ?_
    simp only [TypeNode.traverse, hhere, hargs, hresult]
  | .apply here head args => by
    refine Gives.bind (located_traverse_gives hf here) fun here' hhere => ?_
    refine Gives.bind (typeNode_traverse_gives hf head) fun head' hhead => ?_
    refine Gives.bind (typeNodes_traverse_gives hf args) fun args' hargs => Gives.pure ?_
    simp only [TypeNode.traverse, hhere, hhead, hargs]
  | .reference here id => by
    refine Gives.bind (located_traverse_gives hf here) fun here' hhere => Gives.pure ?_
    simp only [TypeNode.traverse, hhere]
  | .var node => by
    refine Gives.bind (typeVarNode_traverse_gives hf node) fun node' hnode => Gives.pure ?_
    simp only [TypeNode.traverse, hnode]
theorem typeNodes_traverse_gives (hf : KeepsName f) : ∀ nodes : List (TypeNode Attributes),
    Gives (TypeNode.traverseList f nodes) fun nodes' =>
      TypeNode.traverseList nameOnly nodes' = TypeNode.traverseList nameOnly nodes
  | [] => Gives.pure rfl
  | node :: rest => by
    refine Gives.bind (typeNode_traverse_gives hf node) fun node' hnode => ?_
    refine Gives.bind (typeNodes_traverse_gives hf rest) fun rest' hrest => Gives.pure ?_
    simp only [TypeNode.traverseList, hnode, hrest]
end

theorem option_traverse_gives {α β : Type} {walk : α → Check α} {back : α → Id β}
    (h : ∀ node, Gives (walk node) fun node' => back node' = back node) :
    ∀ node : Option α, Gives (traverseOption walk node) fun node' =>
      traverseOption back node' = traverseOption back node
  | none => Gives.pure rfl
  | some node => by
    refine Gives.bind (h node) fun node' hnode => Gives.pure ?_
    simp only [traverseOption, hnode]

end Traverse

/-! ## Written types -/

theorem withScope_gives {α : Type} {good : α → Prop} {kind : ScopeKind} {body : Check α}
    (h : Gives body good) : Gives (withScope kind body) good :=
  Gives.skip fun _ => Gives.bind h fun _ ha => Gives.skip fun _ => Gives.pure ha

theorem bindTypeVar_gives (var : TypeVarNode Name) (kind : Kind) :
    Gives (bindTypeVar var kind) fun var' => var'.traverse nameOnly = var :=
  Gives.skip fun _ => Gives.pure rfl

theorem inferTypeVar_gives (var : TypeVarNode Name) :
    Gives (inferTypeVar var) fun var' => var'.traverse nameOnly = var :=
  Gives.skip fun _ => bindTypeVar_gives var _

end Check

open Run Check

/-- Both ways of kinding give back the written type. -/
structure KindJudgement.Preserves (judgement : KindJudgement) (node : TypeNode Name) : Prop where
  infer : Gives judgement.infer fun node' => node'.traverse nameOnly = node
  check : ∀ kind, Gives (judgement.check kind) fun node' => node'.traverse nameOnly = node

namespace KindJudgement

variable {here : Located Name}

theorem subsume_gives {range : Range} {infer : Check (TypeNode Attributes)}
    {node : TypeNode Name} (h : Gives infer fun node' => node'.traverse nameOnly = node)
    (expected : Kind) :
    Gives (subsume range infer expected) fun node' => node'.traverse nameOnly = node := by
  refine Gives.bind h fun node' hnode => Gives.skip fun _ => Gives.skip fun _ => ?_
  refine Gives.ite (fun _ => ?_) fun _ => Gives.pure hnode
  exact Gives.skip fun _ => Gives.skip fun _ => Gives.skip fun _ => Gives.pure hnode

theorem preserves_ofInference {range : Range} {infer : Check (TypeNode Attributes)}
    {node : TypeNode Name} (h : Gives infer fun node' => node'.traverse nameOnly = node) :
    (ofInference range infer).Preserves node where
  infer := h
  check _ := Gives.skip fun _ => subsume_gives h _

theorem inferQuantified_gives {binders : List (TypeVarNode Name)} {body : KindJudgement}
    {node : TypeNode Name} (hbody : body.Preserves node) :
    Gives (inferQuantified here binders body) fun node' =>
      node'.traverse nameOnly = .quantified here binders node := by
  refine withScope_gives ?_
  refine Gives.bind (Gives.mapM fun var _ => inferTypeVar_gives var) fun vars hvars => ?_
  refine Gives.bind (hbody.check _) fun body' hbody' => ?_
  refine (typeNode_traverse_gives keepsName_substitute _).mono fun node' hnode => ?_
  rw [hnode, TypeNode.traverse, hvars, hbody']
  rfl

theorem checkQuantified_gives {binders : List (TypeVarNode Name)} {body : KindJudgement}
    {node : TypeNode Name} (hbody : body.Preserves node) {args : List Kind} (result : Kind)
    (hlength : args.length = binders.length) :
    Gives (checkQuantified here binders body args result) fun node' =>
      node'.traverse nameOnly = .quantified here binders node := by
  refine withScope_gives ?_
  refine Gives.bind (Gives.mapM_zip (List.forall₂_same.2 fun var _ => bindTypeVar_gives var)
    hlength) fun vars hvars => ?_
  refine Gives.bind (hbody.check _) fun body' hbody' => ?_
  refine (typeNode_traverse_gives keepsName_substitute _).mono fun node' hnode => ?_
  rw [hnode, TypeNode.traverse, hvars, hbody']
  rfl

theorem preserves_quantified {binders : List (TypeVarNode Name)} {body : KindJudgement}
    {node : TypeNode Name} (hbody : body.Preserves node) :
    (quantified here binders body).Preserves (.quantified here binders node) where
  infer := inferQuantified_gives hbody
  check expected := by
    refine Gives.skip fun expected => ?_
    have hsubsumed : Gives (subsume here.range (inferQuantified here binders body) expected)
        fun node' => node'.traverse nameOnly = .quantified here binders node :=
      subsume_gives (inferQuantified_gives hbody) expected
    dsimp only
    split
    · exact Gives.ite (fun hlength => checkQuantified_gives hbody _ hlength) fun _ => hsubsumed
    · exact hsubsumed

theorem preserves_function {args : List KindJudgement} {nodes : List (TypeNode Name)}
    {result : KindJudgement} {node : TypeNode Name} (hargs : List.Forall₂ Preserves args nodes)
    (hresult : result.Preserves node) :
    (function here args result).Preserves (.function here nodes node) := by
  refine preserves_ofInference ?_
  refine Gives.bind (Gives.mapM_goals (hargs.imp fun _ _ harg => harg.check _)) ?_
  intro args' hargs'
  refine Gives.bind (hresult.check _) fun result' hresult' => Gives.pure ?_
  rw [TypeNode.traverse, TypeNode.traverseList_eq, hargs', hresult']
  rfl

theorem applied_unknown_gives (range : Range) (arity : Nat) (head : Kind) :
    Gives (do
      let args ← (List.replicate arity ()).mapM fun _ => (Solve.freshKind : Check Kind)
      let result ← Solve.freshKind
      let expected := Kind.higher args result
      match head with
      | .unsolved id =>
        if expected.occurs id then
          report range (KindError.mismatchedApplication expected head).message
        else
          let _ ← Solve.instantiateKind .sub id expected
      | _ => report range (KindError.mismatchedApplication expected head).message
      pure (args, result)) fun kinds => kinds.1.length = arity := by
  refine Gives.bind (Gives.length_replicate _ arity) fun args hargs => ?_
  refine Gives.skip fun result => ?_
  dsimp only
  split
  · exact Gives.ite (fun _ => Gives.skip fun _ => Gives.pure hargs) fun _ =>
      Gives.skip fun _ => Gives.pure hargs
  · exact Gives.skip fun _ => Gives.pure hargs

/-- There are as many argument kinds as arguments. -/
theorem applied_gives (range : Range) (arity : Nat) (head : Kind) :
    Gives (applied range arity head) fun kinds => kinds.1.length = arity := by
  have hunknown := applied_unknown_gives range arity head
  unfold applied
  dsimp only
  split
  · exact Gives.ite (fun hlength => Gives.pure hlength) fun _ => hunknown
  · exact hunknown

theorem preserves_apply {head : KindJudgement} {node : TypeNode Name} {args : List KindJudgement}
    {nodes : List (TypeNode Name)} (hhead : head.Preserves node)
    (hargs : List.Forall₂ Preserves args nodes) :
    (apply here head args).Preserves (.apply here node nodes) := by
  refine preserves_ofInference ?_
  refine Gives.bind hhead.infer fun head' hhead' => Gives.skip fun _ => Gives.skip fun kind => ?_
  refine Gives.bind (applied_gives _ _ _) fun kinds hkinds => ?_
  refine Gives.bind (Gives.mapM_zip (hargs.imp fun _ _ harg => harg.check) hkinds) ?_
  intro args' hargs'
  refine Gives.pure ?_
  rw [TypeNode.traverse, TypeNode.traverseList_eq, hhead', hargs']
  rfl

theorem preserves_reference (id : QualifiedId) : (reference here id).Preserves
    (.reference here id) :=
  preserves_ofInference (Gives.skip fun _ => Gives.pure rfl)

theorem preserves_var (node : TypeVarNode Name) : (var node).Preserves (.var node) :=
  preserves_ofInference (Gives.skip fun _ => Gives.pure rfl)

end KindJudgement

mutual
theorem TypeNode.judge_preserves : ∀ node : TypeNode Name, node.judge.Preserves node
  | .quantified _ _ body => KindJudgement.preserves_quantified body.judge_preserves
  | .function _ args result =>
    KindJudgement.preserves_function (judgeList_preserves args) result.judge_preserves
  | .apply _ head args => KindJudgement.preserves_apply head.judge_preserves
      (judgeList_preserves args)
  | .reference _ id => KindJudgement.preserves_reference id
  | .var node => KindJudgement.preserves_var node
theorem TypeNode.judgeList_preserves : ∀ nodes : List (TypeNode Name),
    List.Forall₂ KindJudgement.Preserves (judgeList nodes) nodes
  | [] => .nil
  | node :: rest => .cons node.judge_preserves (judgeList_preserves rest)
end

namespace Check

theorem defaultNode_gives (node : TypeNode Attributes) :
    Gives (defaultNode node) fun node' => node'.traverse nameOnly = node.traverse nameOnly :=
  typeNode_traverse_gives keepsName_default node

theorem ascription_gives (node : TypeNode Name) :
    Gives (ascription node) fun checked => checked.1.traverse nameOnly = node := by
  have hproper : Gives (properTypeNode node) fun node' => node'.traverse nameOnly = node := by
    refine Gives.bind (node.judge_preserves.check _) fun checked hchecked => ?_
    exact (defaultNode_gives checked).mono fun _ hnode => hnode.trans hchecked
  exact Gives.bind hproper fun _ hnode => Gives.skip fun _ => Gives.pure hnode

/-! ## Data declarations -/

/-- The checked types of a constructor are those it was written with. -/
structure CheckedConstructor.Of (node : Constructor Name) (checked : CheckedConstructor) :
    Prop where
  fields : List.Forall₂ (fun param field => field.traverse nameOnly = param.ascription)
    node.params checked.fields
  result : traverseOption (TypeNode.traverse nameOnly) checked.result = node.result

theorem fieldTypeNode_gives (node : TypeNode Name) :
    Gives (fieldTypeNode node) fun node' => node'.traverse nameOnly = node := by
  refine Gives.bind (node.judge_preserves.check _) fun checked hchecked => ?_
  exact (typeNode_traverse_gives keepsName_substitute checked).mono fun _ hnode =>
    hnode.trans hchecked

theorem checkConstructor_gives (node : Constructor Name) :
    Gives (checkConstructor node) (CheckedConstructor.Of node) := by
  unfold checkConstructor
  split
  · refine withScope_gives ?_
    refine Gives.bind (Gives.mapM_forall₂ (List.forall₂_same.2 fun param _ =>
      fieldTypeNode_gives param.ascription)) fun fields hfields => ?_
    have hresult : Gives (traverseOption fieldTypeNode node.result) fun result =>
        traverseOption (TypeNode.traverse nameOnly) result = node.result := by
      cases node.result with
      | none => exact Gives.pure rfl
      | some written =>
        refine Gives.bind (fieldTypeNode_gives written) fun result hresult => Gives.pure ?_
        rw [traverseOption, hresult]
        rfl
    exact Gives.bind hresult fun result hresult => Gives.pure ⟨hfields, hresult⟩
  · exact Gives.throw _

theorem defaultConstructor_gives {node : Constructor Name} {checked : CheckedConstructor}
    (h : checked.Of node) :
    Gives (defaultConstructor checked) (CheckedConstructor.Of node) := by
  have hdefault : List.Forall₂ (fun field param => Gives (defaultNode field) fun field' =>
      field'.traverse nameOnly = param.ascription) checked.fields node.params := by
    refine List.Forall₂.imp ?_ h.fields.flip
    intro field param hfield
    exact (defaultNode_gives field).mono fun _ hnode => hnode.trans hfield
  refine Gives.bind (Gives.mapM_forall₂ hdefault) fun fields hfields => ?_
  refine Gives.bind (option_traverse_gives defaultNode_gives checked.result) ?_
  exact fun result hresult => Gives.pure ⟨hfields, hresult.trans h.result⟩

theorem bindFields_gives {name : ConstructorName} {params : List (ConstructorParam Name)}
    {fields : List (TypeNode Attributes × Ty)}
    (h : List.Forall₂ (fun param field => field.1.traverse nameOnly = param.ascription)
      params fields) :
    Gives (bindFields name params fields) fun params' =>
      params'.mapM (ConstructorParam.traverse nameOnly) = params := by
  refine Gives.mapM_pairs h fun param field hfield => Gives.skip fun _ => Gives.pure ?_
  rw [ConstructorParam.traverse, hfield]
  rfl

theorem bindConstructor_gives {params : List Ty} {applied : Ty} {kind : Kind}
    {node : Constructor Name} {checked : CheckedConstructor} (h : checked.Of node) :
    Gives (bindConstructor params applied kind node checked) fun node' =>
      node'.traverse nameOnly = node := by
  refine Gives.bind (Gives.length_mapM toType checked.fields) fun types htypes => ?_
  have hfields := forall₂_zip_right h.fields htypes
  have hbound (here : Located Attributes) (hhere : here.traverse nameOnly = node.here) :
      Gives (do
        let params ← bindFields checked.name node.params (checked.fields.zip types)
        pure ⟨here, node.name, params, checked.result⟩ : Check (Constructor Attributes))
      fun node' => node'.traverse nameOnly = node := by
    refine Gives.bind (bindFields_gives hfields) fun params' hparams => Gives.pure ?_
    rw [Constructor.traverse, hhere, hparams, h.result]
    rfl
  dsimp only
  split
  all_goals
    refine Gives.skip fun result => Gives.skip fun _ => Gives.skip fun _ => ?_
    exact Gives.skip fun _ => Gives.skip fun _ => hbound _ rfl

theorem checkData_gives (node : Data Name) (name : QualifiedName) :
    Gives (checkData node name) fun checked =>
      checked.1.mapM (TypeVarNode.traverse nameOnly) = node.typeParams ∧
        List.Forall₂ CheckedConstructor.Of node.constructors checked.2.2 := by
  refine withScope_gives ?_
  refine Gives.bind (Gives.mapM fun var _ => inferTypeVar_gives var) fun vars hvars => ?_
  refine Gives.skip fun kinds => Gives.skip fun _ => ?_
  refine Gives.bind (Gives.mapM_forall₂ (List.forall₂_same.2 fun constructor _ =>
    checkConstructor_gives constructor)) fun constructors hconstructors => ?_
  refine Gives.bind (Gives.mapM_of (typeVarNode_traverse_gives keepsName_default) vars) ?_
  intro vars' hvars'
  refine Gives.skip fun kind => ?_
  refine Gives.bind (Gives.mapM_forall₂ (hconstructors.flip.imp fun _ _ hchecked =>
    defaultConstructor_gives hchecked)) fun constructors' hconstructors' => ?_
  exact Gives.pure ⟨hvars'.trans hvars, hconstructors'⟩

/-- A checked data declaration is the one that was resolved. -/
theorem inferData_gives (node : Data Name) :
    Gives (inferData node) fun node' => node'.traverse nameOnly = node := by
  unfold inferData
  split
  · refine Gives.bind (checkData_gives node _) fun checked hchecked => Gives.skip fun _ => ?_
    refine Gives.skip fun params => ?_
    refine Gives.bind (Gives.mapM_pairs hchecked.2 fun _ _ hof => bindConstructor_gives hof) ?_
    intro constructors hconstructors
    refine Gives.pure ?_
    rw [Data.traverse, hchecked.1, hconstructors]
    rfl
  · exact Gives.throw _

end Check

end PolyFront
