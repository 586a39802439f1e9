import PolyFront.Checking.DataKinds
import PolyFront.Proofs.Faultless.Named
import PolyFront.Proofs.Faultless.Solving

/-!
# Kind checking is free of faults

The kinds of a well named written type are found without a fault, and every node of the
result carries a kind.  The result can therefore be read as a type without a fault.
-/

namespace PolyFront

open Run

/-- The given constructs are on the stack of a checker. -/
def Checker.At (shape : List ScopeKind) (s : Checker) : Prop := s.store.stack.shape = shape

/-- The node of a type. -/
def Attributes.IsKind (attributes : Attributes) : Prop :=
  attributes.classifier.kind?.isSome = true

/-- The node of a value. -/
def Attributes.IsType (attributes : Attributes) : Prop :=
  attributes.classifier.type?.isSome = true

def TypeVarNode.Kinded (var : TypeVarNode Attributes) : Prop :=
  var.here.info.IsKind ∧ var.here.info.name.NamesType

mutual
/-- Every node of a written type carries a kind, and what it refers to is a type. -/
def TypeNode.Kinded : TypeNode Attributes → Prop
  | .quantified here binders body =>
    here.info.IsKind ∧ (∀ var ∈ binders, var.Kinded) ∧ body.Kinded
  | .function here args result => here.info.IsKind ∧ TypeNode.KindedList args ∧ result.Kinded
  | .apply here head args => here.info.IsKind ∧ head.Kinded ∧ TypeNode.KindedList args
  | .reference here _ => here.info.IsKind ∧ here.info.name.NamesType
  | .var node => node.Kinded
def TypeNode.KindedList : List (TypeNode Attributes) → Prop
  | [] => True
  | node :: rest => node.Kinded ∧ TypeNode.KindedList rest
end

theorem TypeNode.Kinded.here_isKind {node : TypeNode Attributes} (h : node.Kinded) :
    node.here.info.IsKind := by
  cases node <;> exact h.1

theorem TypeNode.kindedList_iff {nodes : List (TypeNode Attributes)} :
    TypeNode.KindedList nodes ↔ ∀ node ∈ nodes, node.Kinded := by
  induction nodes with
  | nil => simp [TypeNode.KindedList]
  | cons node rest ih => simp [TypeNode.KindedList, ih]

/-- A type that may be left out. -/
def TypeNode.KindedOption (node : Option (TypeNode Attributes)) : Prop :=
  ∀ written, node = some written → written.Kinded

namespace Check

open Checker

variable {shape : List ScopeKind} {kind : ScopeKind}

/-! ## The operations on the state -/

/-- What keeps the stack of the store keeps that of the checker. -/
theorem lift_keeps {α : Type} {good : α → Prop} {run : Solve α}
    (h : Keeps (Store.At shape) run good) :
    Keeps (At shape) (liftM run : Check α) good :=
  Keeps.within h (fun _ hs => hs) fun _ _ _ hstore => hstore

theorem report_keeps (range : Range) (message : String) :
    Keeps (At shape) (report range message) fun _ => True :=
  Keeps.modify fun _ hs => hs

theorem kindOf_keeps {here : Located Attributes} (h : here.info.IsKind) :
    Keeps (At shape) (kindOf here) fun _ => True := by
  unfold kindOf
  split
  · exact Keeps.pure True.intro
  · rename_i hne
    cases hclassifier : here.info.classifier with
    | ofKind k => exact (hne k hclassifier).elim
    | ofType type => simp [Attributes.IsKind, hclassifier, Classifier.kind?] at h

theorem typeOf_keeps {here : Located Attributes} (h : here.info.IsType) :
    Keeps (At shape) (typeOf here) fun _ => True := by
  unfold typeOf
  split
  · exact Keeps.pure True.intro
  · rename_i hne
    cases hclassifier : here.info.classifier with
    | ofType type => exact (hne type hclassifier).elim
    | ofKind k => simp [Attributes.IsType, hclassifier, Classifier.type?] at h

/-- A frame that is pushed around a run is popped again. -/
theorem withScope_keeps {α : Type} {good : α → Prop} {body : Check α}
    (hbody : Keeps (At (kind :: shape)) body good) :
    Keeps (At shape) (withScope kind body) good := by
  intro s hs
  have hpushed : At (kind :: shape)
      { s with store := { s.store with stack := s.store.stack.push (Frame.empty kind) } } := by
    rw [At, Stack.shape_push, hs]
    rfl
  obtain ⟨a, s₁, hok, hs₁, ha⟩ := hbody _ hpushed
  obtain ⟨frame, store, hpop, hstore⟩ := Solve.popScope_ok hs₁
  refine ⟨a, { s₁ with store := store }, ?_, hstore, ha⟩
  have hpush : (liftM (Solve.pushScope kind) : Check Unit) s =
      .ok () { s with store := { s.store with stack := s.store.stack.push (Frame.empty kind) } } :=
    rfl
  have hpopped : (liftM (Solve.popScope kind.tag) : Check _) s₁ =
      .ok frame { s₁ with store := store } := by
    show Run.within Checker.store _ (Solve.popScope kind.tag) s₁ = _
    simp only [Run.within, hpop]
  simp only [withScope, bind, EStateM.bind, hpush, hok, hpopped, pure, EStateM.pure]

/-! ## Traversals -/

/-- An action on annotations that keeps the sort of each of them. -/
def KeepsSorts (shape : List ScopeKind) (f : Attributes → Check Attributes) : Prop :=
  ∀ attributes, Keeps (At shape) (f attributes) attributes.SameSort

theorem keepsSorts_substitute :
    KeepsSorts shape fun attributes => (Solve.substitute attributes : Check Attributes) :=
  fun attributes => lift_keeps (Solve.substitute_keeps attributes)

theorem keepsSorts_default :
    KeepsSorts shape fun attributes => (Solve.default attributes : Check Attributes) :=
  fun attributes => lift_keeps (Solve.default_keeps attributes)

variable {f : Attributes → Check Attributes}

theorem located_traverse_keeps (hf : KeepsSorts shape f) (here : Located Attributes) :
    Keeps (At shape) (here.traverse f) fun here' => here.info.SameSort here'.info :=
  Keeps.bind (hf here.info) fun _ h => Keeps.pure h

theorem typeVarNode_traverse_keeps (hf : KeepsSorts shape f) (var : TypeVarNode Attributes) :
    Keeps (At shape) (var.traverse f) fun var' => var.Kinded → var'.Kinded :=
  Keeps.bind (located_traverse_keeps hf var.here) fun _ hhere =>
    Keeps.pure fun h => ⟨hhere.kind.trans h.1, hhere.name ▸ h.2⟩

mutual
/-- A traversal that keeps sorts leaves a kind on every node. -/
theorem typeNode_traverse_keeps (hf : KeepsSorts shape f) :
    ∀ node : TypeNode Attributes,
      Keeps (At shape) (node.traverse f) fun node' => node.Kinded → node'.Kinded
  | .quantified here binders body => by
    refine Keeps.bind (located_traverse_keeps hf here) fun _ hhere => ?_
    have hvars : Keeps (At shape) (binders.mapM (TypeVarNode.traverse f)) fun vars =>
        ∀ var' ∈ vars, (∀ var ∈ binders, var.Kinded) → var'.Kinded :=
      Keeps.mapM fun var hvar => (typeVarNode_traverse_keeps hf var).mono fun _ h hall =>
        h (hall var hvar)
    refine Keeps.bind hvars fun _ hbinders => ?_
    refine Keeps.bind (typeNode_traverse_keeps hf body) fun _ hbody => Keeps.pure fun h => ?_
    exact ⟨hhere.kind.trans h.1, fun var hvar => hbinders var hvar h.2.1, hbody h.2.2⟩
  | .function here args result => by
    refine Keeps.bind (located_traverse_keeps hf here) fun _ hhere => ?_
    refine Keeps.bind (typeNodes_traverse_keeps hf args) fun _ hargs => ?_
    refine Keeps.bind (typeNode_traverse_keeps hf result) fun _ hresult =>
      Keeps.pure fun h => ?_
    exact ⟨hhere.kind.trans h.1, hargs h.2.1, hresult h.2.2⟩
  | .apply here head args => by
    refine Keeps.bind (located_traverse_keeps hf here) fun _ hhere => ?_
    refine Keeps.bind (typeNode_traverse_keeps hf head) fun _ hhead => ?_
    refine Keeps.bind (typeNodes_traverse_keeps hf args) fun _ hargs => Keeps.pure fun h => ?_
    exact ⟨hhere.kind.trans h.1, hhead h.2.1, hargs h.2.2⟩
  | .reference here id =>
    Keeps.bind (located_traverse_keeps hf here) fun _ hhere =>
      Keeps.pure fun h => ⟨hhere.kind.trans h.1, hhere.name ▸ h.2⟩
  | .var node => Keeps.bind (typeVarNode_traverse_keeps hf node) fun _ hnode => Keeps.pure hnode
theorem typeNodes_traverse_keeps (hf : KeepsSorts shape f) :
    ∀ nodes : List (TypeNode Attributes), Keeps (At shape) (TypeNode.traverseList f nodes)
      fun nodes' => TypeNode.KindedList nodes → TypeNode.KindedList nodes'
  | [] => Keeps.pure fun _ => True.intro
  | node :: rest => by
    refine Keeps.bind (typeNode_traverse_keeps hf node) fun _ hnode => ?_
    exact Keeps.bind (typeNodes_traverse_keeps hf rest) fun _ hrest =>
      Keeps.pure fun h => ⟨hnode h.1, hrest h.2⟩
end

theorem traverseOption_keeps {g : TypeNode Attributes → Check (TypeNode Attributes)}
    (hg : ∀ node : TypeNode Attributes, node.Kinded → Keeps (At shape) (g node) TypeNode.Kinded)
    {node : Option (TypeNode Attributes)} (h : TypeNode.KindedOption node) :
    Keeps (At shape) (traverseOption g node) TypeNode.KindedOption := by
  cases node with
  | none => exact Keeps.pure fun _ hnone => by cases hnone
  | some written =>
    refine Keeps.bind (hg written (h written rfl)) fun _ hwritten => Keeps.pure fun _ hsome => ?_
    obtain rfl := Option.some.inj hsome
    exact hwritten

/-! ## Kinds of written types -/

theorem bindTypeVar_keeps {var : TypeVarNode Name} (h : var.Named) (k : Kind) :
    Keeps (At (kind :: shape)) (bindTypeVar var k) TypeVarNode.Kinded :=
  Keeps.bind (lift_keeps (Solve.putType_keeps _ _)) fun _ _ => Keeps.pure ⟨rfl, h⟩

theorem inferTypeVar_keeps {var : TypeVarNode Name} (h : var.Named) :
    Keeps (At (kind :: shape)) (inferTypeVar var) TypeVarNode.Kinded :=
  Keeps.bind (lift_keeps Solve.freshKind_keeps) fun _ _ => bindTypeVar_keeps h _

theorem kindOfName_keeps (name : Name) :
    Keeps (At (kind :: shape)) (kindOfName name) fun _ => True := by
  refine Keeps.ite (fun _ => lift_keeps Solve.freshKind_keeps) fun _ => ?_
  refine Keeps.bind Keeps.get fun s _ => ?_
  split
  · exact lift_keeps (Solve.substituteKind_keeps _)
  · refine Keeps.bind (lift_keeps Solve.freshKind_keeps) fun _ _ => ?_
    exact Keeps.bind (lift_keeps (Solve.populateType_keeps _ _)) fun _ _ =>
      Keeps.pure True.intro

end Check

/-- Both ways to find the kinds of a written type are free of faults. -/
structure KindJudgement.Safe (judgement : KindJudgement) : Prop where
  infer : ∀ kind shape,
    Keeps (Checker.At (kind :: shape)) judgement.infer TypeNode.Kinded
  check : ∀ kind shape expected,
    Keeps (Checker.At (kind :: shape)) (judgement.check expected) TypeNode.Kinded

namespace KindJudgement

open Check Checker

variable {shape : List ScopeKind} {kind : ScopeKind}

theorem subsume_keeps (range : Range) {infer : Check (TypeNode Attributes)}
    (hinfer : Keeps (At (kind :: shape)) infer TypeNode.Kinded) (expected : Kind) :
    Keeps (At (kind :: shape)) (subsume range infer expected) TypeNode.Kinded := by
  refine Keeps.bind hinfer fun node hnode => ?_
  refine Keeps.bind (kindOf_keeps hnode.here_isKind) fun _ _ => ?_
  refine Keeps.bind (lift_keeps (Solve.checkSubKind_keeps _ _)) fun _ _ => ?_
  refine Keeps.ite (fun _ => ?_) fun _ => Keeps.pure hnode
  refine Keeps.bind (lift_keeps (Solve.substituteKind_keeps _)) fun _ _ => ?_
  refine Keeps.bind (lift_keeps (Solve.substituteKind_keeps _)) fun _ _ => ?_
  exact Keeps.bind (report_keeps _ _) fun _ _ => Keeps.pure hnode

theorem Safe.ofInference (range : Range) {infer : Check (TypeNode Attributes)}
    (hinfer : ∀ kind shape, Keeps (At (kind :: shape)) infer TypeNode.Kinded) :
    (ofInference range infer).Safe where
  infer := hinfer
  check kind shape _ :=
    Keeps.bind (lift_keeps (Solve.substituteKind_keeps _)) fun _ _ =>
      subsume_keeps range (hinfer kind shape) _

theorem substituteNode_keeps {node : TypeNode Attributes} (h : node.Kinded) :
    Keeps (At shape) (substituteNode node) TypeNode.Kinded :=
  (typeNode_traverse_keeps keepsSorts_substitute node).mono fun _ himp => himp h

theorem defaultNode_keeps {node : TypeNode Attributes} (h : node.Kinded) :
    Keeps (At shape) (defaultNode node) TypeNode.Kinded :=
  (typeNode_traverse_keeps keepsSorts_default node).mono fun _ himp => himp h

theorem inferQuantified_keeps (here : Located Name) {binders : List (TypeVarNode Name)}
    (hbinders : ∀ var ∈ binders, var.Named) {body : KindJudgement} (hbody : body.Safe) :
    Keeps (At shape) (inferQuantified here binders body) TypeNode.Kinded := by
  refine withScope_keeps ?_
  refine Keeps.bind (Keeps.mapM fun var hvar => inferTypeVar_keeps (hbinders var hvar)) ?_
  intro _ hvars
  refine Keeps.bind (hbody.check _ _ _) fun _ hnode => ?_
  exact substituteNode_keeps ⟨rfl, hvars, hnode⟩

theorem checkQuantified_keeps (here : Located Name) {binders : List (TypeVarNode Name)}
    (hbinders : ∀ var ∈ binders, var.Named) {body : KindJudgement} (hbody : body.Safe)
    (args : List Kind) (result : Kind) :
    Keeps (At shape) (checkQuantified here binders body args result) TypeNode.Kinded := by
  refine withScope_keeps ?_
  refine Keeps.bind (Keeps.mapM fun pair hpair =>
    bindTypeVar_keeps (hbinders pair.1 (List.of_mem_zip hpair).1) pair.2) ?_
  intro _ hvars
  refine Keeps.bind (hbody.check _ _ _) fun _ hnode => ?_
  exact substituteNode_keeps ⟨rfl, hvars, hnode⟩

theorem Safe.quantified (here : Located Name) {binders : List (TypeVarNode Name)}
    (hbinders : ∀ var ∈ binders, var.Named) {body : KindJudgement} (hbody : body.Safe) :
    (quantified here binders body).Safe where
  infer _ _ := inferQuantified_keeps here hbinders hbody
  check kind shape expected := by
    have hinferred : Keeps (At (kind :: shape)) (inferQuantified here binders body)
        TypeNode.Kinded := inferQuantified_keeps here hbinders hbody
    refine Keeps.bind (lift_keeps (Solve.substituteKind_keeps _)) fun expected _ => ?_
    dsimp only
    split
    · refine Keeps.ite (fun _ => checkQuantified_keeps here hbinders hbody _ _) fun _ => ?_
      exact subsume_keeps _ hinferred _
    · exact subsume_keeps _ hinferred _

/-- The parts of a written type, checked from left to right. -/
theorem checkAll_keeps {judgements : List KindJudgement} (h : ∀ j ∈ judgements, j.Safe)
    (kinds : List Kind) :
    Keeps (At (kind :: shape)) ((judgements.zip kinds).mapM fun (j, k) => j.check k)
      TypeNode.KindedList := by
  refine (Keeps.mapM fun pair hpair => ?_).mono fun _ => TypeNode.kindedList_iff.2
  exact (h pair.1 (List.of_mem_zip hpair).1).check _ _ _

theorem Safe.function (here : Located Name) {args : List KindJudgement}
    (hargs : ∀ arg ∈ args, arg.Safe) {result : KindJudgement} (hresult : result.Safe) :
    (function here args result).Safe := by
  refine Safe.ofInference _ fun kind shape => ?_
  refine Keeps.bind (Keeps.mapM fun arg harg => (hargs arg harg).check _ _ _) fun _ hnodes => ?_
  refine Keeps.bind (hresult.check _ _ _) fun _ hnode => Keeps.pure ⟨rfl, ?_, hnode⟩
  exact TypeNode.kindedList_iff.2 hnodes

theorem applied_unknown_keeps (kind : ScopeKind) (shape : List ScopeKind) (range : Range)
    (arity : Nat) (head : Kind) :
    Keeps (At (kind :: shape)) (do
      let args ← (List.replicate arity ()).mapM fun _ => (Solve.freshKind : Check Kind)
      let result ← Solve.freshKind
      let expected := Kind.higher args result
      match head with
      | .unsolved id =>
        if expected.occurs id then
          report range (KindError.mismatchedApplication expected head).message
        else
          let _ ← Solve.instantiateKind .sub id expected
      | _ => report range (KindError.mismatchedApplication expected head).message
      pure (args, result)) fun _ => True := by
  refine Keeps.bind (Keeps.mapM fun _ _ => lift_keeps Solve.freshKind_keeps) fun args _ => ?_
  refine Keeps.bind (lift_keeps Solve.freshKind_keeps) fun result _ => ?_
  dsimp only
  split
  · refine Keeps.ite (fun _ => ?_) fun _ => ?_
    · exact Keeps.bind (report_keeps _ _) fun _ _ => Keeps.pure True.intro
    · exact Keeps.bind (lift_keeps (Solve.instantiateKind_keeps _ _ _)) fun _ _ =>
        Keeps.pure True.intro
  · exact Keeps.bind (report_keeps _ _) fun _ _ => Keeps.pure True.intro

theorem applied_keeps (range : Range) (arity : Nat) (head : Kind) :
    Keeps (At (kind :: shape)) (applied range arity head) fun _ => True := by
  have hunknown := applied_unknown_keeps kind shape range arity head
  unfold applied
  dsimp only
  split
  · exact Keeps.ite (fun _ => Keeps.pure True.intro) fun _ => hunknown
  · exact hunknown

theorem Safe.apply (here : Located Name) {head : KindJudgement} (hhead : head.Safe)
    {args : List KindJudgement} (hargs : ∀ arg ∈ args, arg.Safe) :
    (apply here head args).Safe := by
  refine Safe.ofInference _ fun kind shape => ?_
  refine Keeps.bind (hhead.infer _ _) fun node hnode => ?_
  refine Keeps.bind (kindOf_keeps hnode.here_isKind) fun _ _ => ?_
  refine Keeps.bind (lift_keeps (Solve.substituteKind_keeps _)) fun _ _ => ?_
  refine Keeps.bind (applied_keeps _ _ _) fun parts _ => ?_
  exact Keeps.bind (checkAll_keeps hargs parts.1) fun _ hnodes =>
    Keeps.pure ⟨rfl, hnode, hnodes⟩

theorem Safe.reference {here : Located Name} (h : here.info.NamesType) (id : QualifiedId) :
    (reference here id).Safe := by
  refine Safe.ofInference _ fun kind shape => ?_
  exact Keeps.bind (kindOfName_keeps _) fun _ _ => Keeps.pure ⟨rfl, h⟩

theorem Safe.var {node : TypeVarNode Name} (h : node.Named) : (var node).Safe := by
  refine Safe.ofInference _ fun kind shape => ?_
  exact Keeps.bind (kindOfName_keeps _) fun _ _ => Keeps.pure ⟨rfl, h⟩

end KindJudgement

mutual
/-- Kinds of well named written types are found without a fault. -/
theorem TypeNode.judge_safe : ∀ node : TypeNode Name, node.Named → node.judge.Safe
  | .quantified here _ body, h => .quantified here h.1 (judge_safe body h.2)
  | .function here args result, h =>
    .function here (judgeList_safe args h.1) (judge_safe result h.2)
  | .apply here head args, h => .apply here (judge_safe head h.1) (judgeList_safe args h.2)
  | .reference _ id, h => .reference h id
  | .var _, h => .var h
theorem TypeNode.judgeList_safe : ∀ nodes : List (TypeNode Name), TypeNode.NamedList nodes →
    ∀ judgement ∈ TypeNode.judgeList nodes, judgement.Safe
  | [], _ => by simp [TypeNode.judgeList]
  | node :: rest, h => by
    intro judgement hmem
    rcases List.mem_cons.1 hmem with rfl | hrest
    · exact judge_safe node h.1
    · exact judgeList_safe rest h.2 judgement hrest
end

namespace Check

open Checker KindJudgement

variable {shape : List ScopeKind} {kind : ScopeKind}

theorem properTypeNode_keeps {node : TypeNode Name} (h : node.Named) :
    Keeps (At (kind :: shape)) (properTypeNode node) TypeNode.Kinded :=
  Keeps.bind ((node.judge_safe h).check _ _ _) fun _ hnode => defaultNode_keeps hnode

/-! ## Written types as types -/

theorem typeOfTypeName_keeps {name : Name} (h : name.NamesType) (k : Kind) :
    Keeps (At (kind :: shape)) (typeOfTypeName name k) fun _ => True := by
  cases name with
  | builtIn name =>
    obtain ⟨type, htype⟩ := Option.isSome_iff_exists.1 h
    simp only [typeOfTypeName, htype]
    exact Keeps.pure True.intro
  | nameless => exact lift_keeps (Solve.freshType_keeps k)
  | data name => exact Keeps.pure True.intro
  | constructor name => exact Keeps.pure True.intro
  | typeVar quantifier name => exact Keeps.pure True.intro
  | ns name => exact h.elim
  | binding name => exact h.elim
  | field name => exact h.elim
  | bound name index => exact h.elim
  | synthetic index => exact h.elim

theorem typeOfVarNode_keeps {node : TypeVarNode Attributes} (h : node.Kinded) :
    Keeps (At (kind :: shape)) (typeOfVarNode node) fun _ => True :=
  Keeps.bind (kindOf_keeps h.1) fun _ _ => typeOfTypeName_keeps h.2 _

mutual
theorem toType_keeps (kind : ScopeKind) (shape : List ScopeKind) :
    ∀ node : TypeNode Attributes, node.Kinded →
      Keeps (At (kind :: shape)) (toType node) fun _ => True
  | .quantified here binders body, h => by
    refine Keeps.bind (Keeps.mapM fun var hvar => typeOfVarNode_keeps (h.2.1 var hvar)) ?_
    intro _ _
    refine Keeps.bind (toType_keeps kind shape body h.2.2) fun _ _ => ?_
    exact Keeps.bind (kindOf_keeps h.1) fun _ _ => Keeps.pure True.intro
  | .function here args result, h => by
    refine Keeps.bind (toTypes_keeps kind shape args h.2.1) fun _ _ => ?_
    exact Keeps.bind (toType_keeps kind shape result h.2.2) fun _ _ => Keeps.pure True.intro
  | .apply here head args, h => by
    refine Keeps.bind (toType_keeps kind shape head h.2.1) fun _ _ => ?_
    refine Keeps.bind (toTypes_keeps kind shape args h.2.2) fun _ _ => ?_
    exact Keeps.bind (kindOf_keeps h.1) fun _ _ => Keeps.pure True.intro
  | .reference here id, h =>
    Keeps.bind (kindOf_keeps h.1) fun _ _ => typeOfTypeName_keeps h.2 _
  | .var node, h => typeOfVarNode_keeps h
theorem toTypes_keeps (kind : ScopeKind) (shape : List ScopeKind) :
    ∀ nodes : List (TypeNode Attributes), TypeNode.KindedList nodes →
      Keeps (At (kind :: shape)) (toTypes nodes) fun _ => True
  | [], _ => Keeps.pure True.intro
  | node :: rest, h => by
    refine Keeps.bind (toType_keeps kind shape node h.1) fun _ _ => ?_
    exact Keeps.bind (toTypes_keeps kind shape rest h.2) fun _ _ => Keeps.pure True.intro
end

theorem ascription_keeps {node : TypeNode Name} (h : node.Named) :
    Keeps (At (kind :: shape)) (ascription node) fun pair => pair.1.Kinded := by
  refine Keeps.bind (properTypeNode_keeps h) fun node' hnode => ?_
  exact Keeps.bind (toType_keeps kind shape node' hnode) fun _ _ => Keeps.pure hnode

end Check

end PolyFront
