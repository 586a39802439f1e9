import PolyFront.Proofs.Dependencies.Groups
import PolyFront.Proofs.Faultless.Named

/-!
# Name resolution is free of faults

Resolution never faults: every frame it pushes is popped by the construct that pushed it,
and a local name is only bound where a frame for it was pushed.  What it returns is well
named.
-/

namespace PolyFront

open Run

/-- The given constructs are on the stack, and the types bound there are names of types. -/
def Resolver.At (shape : List ScopeKind) (s : Resolver) : Prop :=
  s.stack.shape = shape ∧ s.stack.TypesNamed

namespace Resolve

open Resolver

variable {shape : List ScopeKind}

/-! ## The operations on the state -/

/-- Actions that leave the stack alone keep what is known about it. -/
theorem keeps_modify {f : Resolver → Resolver} (hf : ∀ s, (f s).stack = s.stack) :
    Keeps (At shape) (modify f) fun _ => True :=
  Keeps.modify fun s hs => by simpa only [At, hf s] using hs

theorem reportError_keeps (range : Range) (message : String) (related : List Note) :
    Keeps (At shape) (reportError range message related) fun _ => True :=
  keeps_modify fun _ => rfl

theorem reportDuplicate_keeps (what : String) (proposed existing : Range) :
    Keeps (At shape) (reportDuplicate what proposed existing) fun _ => True :=
  Keeps.bind Keeps.get fun _ _ => reportError_keeps _ _ _

theorem reportUndefined_keeps (what : String) (range : Range) (name : String) :
    Keeps (At shape) (reportUndefined what range name) fun _ => True :=
  reportError_keeps _ _ _

theorem addEdge_keeps (source target : DeclarationName) :
    Keeps (At shape) (addEdge source target) fun _ => True :=
  keeps_modify fun _ => rfl

theorem defineValue_keeps (frame : Frame (Located Name)) (name : String)
    (here : Located Name) :
    Keeps (At shape) (defineValue frame name here) fun frame' =>
      frame'.kind = frame.kind ∧ frame'.types = frame.types := by
  unfold defineValue
  split
  · exact Keeps.bind (reportDuplicate_keeps _ _ _) fun _ _ => Keeps.pure ⟨rfl, rfl⟩
  · exact Keeps.pure ⟨rfl, rfl⟩

theorem defineType_keeps {frame : Frame (Located Name)} (hframe : frame.TypesNamed)
    (name : String) {here : Located Name} (hhere : here.info.NamesType) :
    Keeps (At shape) (defineType frame name here) fun frame' =>
      frame'.kind = frame.kind ∧ frame'.TypesNamed := by
  unfold defineType
  split
  · exact Keeps.bind (reportDuplicate_keeps _ _ _) fun _ _ => Keeps.pure ⟨rfl, hframe⟩
  · exact Keeps.pure ⟨rfl, hframe.putType hhere name⟩

theorem defineField_keeps {frame : Frame (Located Name)} (constructor : ConstructorName)
    (name : String) (here : Located Name) :
    Keeps (At shape) (defineField frame constructor name here) fun frame' =>
      frame'.kind = frame.kind ∧ frame'.types = frame.types := by
  unfold defineField
  split
  · exact Keeps.bind (reportDuplicate_keeps _ _ _) fun _ _ => Keeps.pure ⟨rfl, rfl⟩
  · exact Keeps.pure ⟨rfl, rfl⟩

/-- A frame that is pushed around a run is popped again. -/
theorem withFrame_keeps {α : Type} {good : α → Prop} {frame : Frame (Located Name)}
    {body : Resolve α} (hframe : frame.TypesNamed)
    (hbody : Keeps (At (frame.kind :: shape)) body good) :
    Keeps (At shape) (withFrame frame body) good := by
  rintro s ⟨hshape, hnamed⟩
  have hpushed : At (frame.kind :: shape) { s with stack := s.stack.push frame } :=
    ⟨by simp [hshape], hnamed.push hframe⟩
  obtain ⟨a, s₁, hok, ⟨hshape₁, hnamed₁⟩, ha⟩ := hbody _ hpushed
  obtain ⟨top, rest, hframes, hkind, hrest⟩ := Stack.exists_frames_of_shape_eq_cons hshape₁
  have htag : top.tag = frame.tag := by simp [Frame.tag, hkind]
  refine ⟨a, { s₁ with stack := { s₁.stack with frames := rest } }, ?_, ⟨hrest, ?_⟩, ha⟩
  · have hpop := Stack.pop_eq_ok hframes htag
    exact (ok_bind rfl).trans ((ok_bind hok).trans (ok_bind (within_ok hpop)))
  · exact ⟨fun other hother => hnamed₁.frames other (by simp [hframes, hother]),
      hnamed₁.builtIns⟩

theorem withScope_keeps {α : Type} {good : α → Prop} {kind : ScopeKind} {body : Resolve α}
    (hbody : Keeps (At (kind :: shape)) body good) :
    Keeps (At shape) (withScope kind body) good := by
  have hframe := Frame.TypesNamed.empty kind
  exact withFrame_keeps hframe hbody

/-- The nearest frame of a construct that is on the stack. -/
theorem exists_enclosing {stack : Stack (Located Name)} {kind : ScopeKind}
    (hkind : kind ∈ stack.shape) :
    ∃ frame, stack.enclosing? kind.tag = some frame ∧ frame ∈ stack.frames ∧
      frame.tag = kind.tag := by
  obtain ⟨frame, hmem, hframe⟩ := List.mem_map.1 hkind
  have hsome : (stack.frames.find? fun frame => frame.tag == kind.tag).isSome :=
    List.find?_isSome.2 ⟨frame, hmem, by simp [Frame.tag, hframe]⟩
  obtain ⟨found, hfound⟩ := Option.isSome_iff_exists.1 hsome
  exact ⟨found, hfound, List.mem_of_find?_eq_some hfound,
    by simpa using List.find?_some hfound⟩

theorem currentNamespace_keeps {ns : NamespaceName} (hns : .ns ns ∈ shape) :
    Keeps (At shape) currentNamespace fun _ => True := by
  refine Keeps.bind Keeps.get fun s hs => ?_
  obtain ⟨frame, hfound, -, htag⟩ := exists_enclosing (hs.1 ▸ hns)
  have hsome : ∃ name, s.stack.enclosingNamespace? = some name := by
    rw [Stack.enclosingNamespace?, show ScopeTag.ns = (ScopeKind.ns ns).tag from rfl, hfound]
    cases hkind : frame.kind <;> simp_all [Frame.tag, ScopeKind.tag]
  obtain ⟨name, hname⟩ := hsome
  simp only [hname]
  exact Keeps.pure True.intro

theorem recordReference_keeps (name : Name) :
    Keeps (At shape) (recordReference name) fun _ => True := by
  unfold recordReference
  split
  · exact Keeps.pure True.intro
  · refine Keeps.bind Keeps.get fun s _ => Keeps.when ?_
    split
    · exact addEdge_keeps _ _
    · exact Keeps.pure True.intro

theorem map_kind_updateFirst {test : Frame (Located Name) → Bool}
    {f : Frame (Located Name) → Frame (Located Name)} {frames : List (Frame (Located Name))}
    (hf : ∀ frame ∈ frames, frames.find? test = some frame → (f frame).kind = frame.kind) :
    (Stack.updateFirst test f frames).map Frame.kind = frames.map Frame.kind := by
  induction frames with
  | nil => rfl
  | cons frame rest ih =>
    by_cases htest : test frame
    · have hkind := hf frame List.mem_cons_self (by simp [htest])
      simp [Stack.updateFirst, htest, hkind]
    · simp only [Stack.updateFirst, htest, Bool.false_eq_true, if_false, List.map_cons]
      rw [ih fun other hother hfind =>
        hf other (List.mem_cons_of_mem _ hother) (by simpa [htest] using hfind)]

theorem mem_updateFirst {test : Frame (Located Name) → Bool}
    {f : Frame (Located Name) → Frame (Located Name)} {frames : List (Frame (Located Name))}
    {frame : Frame (Located Name)} (hmem : frame ∈ Stack.updateFirst test f frames) :
    frame ∈ frames ∨ ∃ old ∈ frames, frame = f old := by
  induction frames with
  | nil => exact .inl hmem
  | cons head rest ih =>
    by_cases htest : test head
    · simp only [Stack.updateFirst, htest, if_true] at hmem
      rcases List.mem_cons.1 hmem with rfl | hrest
      · exact .inr ⟨head, List.mem_cons_self, rfl⟩
      · exact .inl (List.mem_cons_of_mem _ hrest)
    · simp only [Stack.updateFirst, htest, Bool.false_eq_true, if_false] at hmem
      rcases List.mem_cons.1 hmem with rfl | hrest
      · exact .inl List.mem_cons_self
      · rcases ih hrest with hold | ⟨old, hold, heq⟩
        · exact .inl (List.mem_cons_of_mem _ hold)
        · exact .inr ⟨old, List.mem_cons_of_mem _ hold, heq⟩

/-- Replacing the nearest frame of a construct by another frame of that construct. -/
theorem at_updateEnclosing {s : Resolver} {kind : ScopeKind} (hs : At shape s)
    (honly : ∀ other : ScopeKind, other.tag = kind.tag → other = kind)
    {frame : Frame (Located Name)} (hkind : frame.kind = kind) (hframe : frame.TypesNamed) :
    At shape { s with stack := s.stack.updateEnclosing kind.tag fun _ => frame } := by
  refine ⟨?_, ?_, hs.2.builtIns⟩
  · refine Eq.trans (map_kind_updateFirst fun old _ hfind => ?_) hs.1
    have htag : old.tag = kind.tag := by simpa using List.find?_some hfind
    rw [hkind, honly old.kind htag]
  · intro other hother
    rcases mem_updateFirst hother with hold | ⟨old, -, rfl⟩
    · exact hs.2.frames other hold
    · exact hframe

/-- A local name is bound without a fault inside the construct it belongs to. -/
theorem bindLocal_keeps {kind : ScopeKind} (hkind : kind ∈ shape)
    (honly : ∀ other : ScopeKind, other.tag = kind.tag → other = kind) (name : String)
    (range : Range) : Keeps (At shape) (bindLocal kind.tag name range) fun _ => True := by
  refine Keeps.bind Keeps.get fun s hs => Keeps.bind (Keeps.set hs) fun _ _ => ?_
  obtain ⟨frame, hfound, hmem, htag⟩ := exists_enclosing (hs.1 ▸ hkind)
  simp only [hfound]
  refine Keeps.bind (defineValue_keeps frame name _) fun frame' hframe' => ?_
  refine Keeps.bind (Keeps.modify fun s' hs' => ?_) fun _ _ => Keeps.pure True.intro
  refine at_updateEnclosing hs' honly (hframe'.1.trans (honly _ htag)) ?_
  intro key here hbound
  refine hs.2.frames frame hmem key here ?_
  rwa [Frame.type?, hframe'.2] at hbound

theorem bindLambda_keeps (hkind : .lambda ∈ shape) (name : String) (range : Range) :
    Keeps (At shape) (bindLocal .lambda name range) fun _ => True :=
  bindLocal_keeps hkind (fun other h => by cases other <;> simp_all [ScopeKind.tag]) name range

theorem bindBlock_keeps (hkind : .block ∈ shape) (name : String) (range : Range) :
    Keeps (At shape) (bindLocal .block name range) fun _ => True :=
  bindLocal_keeps hkind (fun other h => by cases other <;> simp_all [ScopeKind.tag]) name range

theorem bindCase_keeps (hkind : .case ∈ shape) (name : String) (range : Range) :
    Keeps (At shape) (bindLocal .case name range) fun _ => True :=
  bindLocal_keeps hkind (fun other h => by cases other <;> simp_all [ScopeKind.tag]) name range

theorem resolveValue_keeps (range : Range) (id : QualifiedId) :
    Keeps (At shape) (resolveValue range id) fun _ => True := by
  refine Keeps.bind Keeps.get fun s _ => ?_
  split
  · exact Keeps.bind (recordReference_keeps _) fun _ _ => Keeps.pure True.intro
  · exact Keeps.bind (reportUndefined_keeps _ _ _) fun _ _ => Keeps.pure True.intro

theorem resolveType_keeps (range : Range) (id : QualifiedId) :
    Keeps (At shape) (resolveType range id) fun here => here.info.NamesType := by
  refine Keeps.bind Keeps.get fun s hs => ?_
  split
  · rename_i found hfound
    have hnamed := hs.2.of_type? hfound
    exact Keeps.bind (recordReference_keeps _) fun _ _ => Keeps.pure hnamed
  · exact Keeps.bind (reportUndefined_keeps _ _ _) fun _ _ => Keeps.pure True.intro

/-! ## Written types -/

theorem typeVar_keeps (var : TypeVarNode Unit) :
    Keeps (At shape) (typeVar var) TypeVarNode.Named := by
  refine Keeps.bind Keeps.get fun s hs => ?_
  split
  · rename_i found hfound
    have hnamed := hs.2.of_type? hfound
    exact Keeps.pure hnamed
  · exact Keeps.bind (reportUndefined_keeps _ _ _) fun _ _ => Keeps.pure True.intro

theorem frameOfBinders_keeps (kind : ScopeKind) (binders : List (TypeVarNode Unit)) :
    Keeps (At shape) (frameOfBinders kind binders) fun frame =>
      frame.kind = kind ∧ frame.TypesNamed := by
  refine Keeps.foldlM ⟨rfl, Frame.TypesNamed.empty kind⟩ fun frame hframe var _ => ?_
  have hvar : var.binderName.NamesType := True.intro
  refine (defineType_keeps hframe.2 var.name hvar).mono fun frame' hframe' => ?_
  exact ⟨hframe'.1.trans hframe.1, hframe'.2⟩

/-- Work inside the frame of some binders. -/
theorem withBinders_keeps {α : Type} {good : α → Prop} (kind : ScopeKind)
    (binders : List (TypeVarNode Unit)) {body : Resolve α}
    (hbody : Keeps (At (kind :: shape)) body good) :
    Keeps (At shape) (do withFrame (← frameOfBinders kind binders) body) good := by
  refine Keeps.bind (frameOfBinders_keeps kind binders) fun frame hframe => ?_
  exact withFrame_keeps hframe.2 (hframe.1 ▸ hbody)

mutual
theorem typeNode_keeps (shape : List ScopeKind) :
    ∀ node : TypeNode Unit, Keeps (At shape) (typeNode node) TypeNode.Named
  | .quantified here binders body => by
    refine withBinders_keeps .quantifiedType binders ?_
    refine Keeps.bind (Keeps.mapM fun var _ => typeVar_keeps var) fun _ hbinders => ?_
    exact Keeps.bind (typeNode_keeps _ body) fun _ hbody => Keeps.pure ⟨hbinders, hbody⟩
  | .function here args result => by
    refine Keeps.bind (typeNodes_keeps shape args) fun _ hargs => ?_
    exact Keeps.bind (typeNode_keeps shape result) fun _ hresult => Keeps.pure ⟨hargs, hresult⟩
  | .apply here head args => by
    refine Keeps.bind (typeNode_keeps shape head) fun _ hhead => ?_
    exact Keeps.bind (typeNodes_keeps shape args) fun _ hargs => Keeps.pure ⟨hhead, hargs⟩
  | .reference here id =>
    Keeps.bind (resolveType_keeps here.range id) fun _ hhere => Keeps.pure hhere
  | .var node => Keeps.bind (typeVar_keeps node) fun _ hvar => Keeps.pure hvar
theorem typeNodes_keeps (shape : List ScopeKind) :
    ∀ nodes : List (TypeNode Unit), Keeps (At shape) (typeNodes nodes) TypeNode.NamedList
  | [] => Keeps.pure True.intro
  | node :: rest => by
    refine Keeps.bind (typeNode_keeps shape node) fun _ hnode => ?_
    exact Keeps.bind (typeNodes_keeps shape rest) fun _ hrest => Keeps.pure ⟨hnode, hrest⟩
end

theorem ascription_keeps (node : Option (TypeNode Unit)) :
    Keeps (At shape) (ascription node) TypeNode.NamedOption := by
  cases node with
  | none => exact Keeps.pure fun _ h => by cases h
  | some written =>
    refine Keeps.bind (typeNode_keeps shape written) fun _ hnamed => Keeps.pure fun _ h => ?_
    obtain rfl := Option.some.inj h
    exact hnamed

theorem param_keeps (hkind : .lambda ∈ shape) (node : Param Unit) :
    Keeps (At shape) (param node) Param.Named := by
  refine Keeps.bind (bindLambda_keeps hkind _ _) fun _ _ => ?_
  exact Keeps.bind (ascription_keeps node.ascription) fun _ hnamed => Keeps.pure hnamed

theorem reference_keeps (node : Reference Unit) :
    Keeps (At shape) (reference node) fun _ => True :=
  Keeps.bind (resolveValue_keeps _ _) fun _ _ => Keeps.pure True.intro

/-! ## Patterns -/

theorem checkField_keeps (range : Range) (field : String) :
    Keeps (At shape) (checkField range field) fun _ => True := by
  refine Keeps.bind Keeps.get fun s _ => ?_
  dsimp only
  split
  · exact Keeps.when (reportError_keeps _ _ _)
  · exact Keeps.pure True.intro

mutual
theorem pattern_keeps (shape : List ScopeKind) (hkind : .case ∈ shape) :
    ∀ node : Pattern Unit, Keeps (At shape) (pattern node) fun _ => True
  | .alias here name inner => by
    refine Keeps.bind (bindCase_keeps hkind name here.range) fun _ _ => ?_
    exact Keeps.bind (pattern_keeps shape hkind inner) fun _ _ => Keeps.pure True.intro
  | .id here name =>
    Keeps.bind (bindCase_keeps hkind name here.range) fun _ _ => Keeps.pure True.intro
  | .literal here value => Keeps.pure True.intro
  | .constructor here id fields => by
    refine Keeps.bind Keeps.get fun s _ => ?_
    refine Keeps.whenThen (reportUndefined_keeps _ _ _) ?_
    have hfields (kind : ScopeKind) := fieldPatterns_keeps (kind :: shape)
      (List.mem_cons_of_mem kind hkind) fields
    refine Keeps.bind (withScope_keeps (hfields _)) fun _ _ => ?_
    exact Keeps.bind (recordReference_keeps _) fun _ _ => Keeps.pure True.intro
theorem fieldPattern_keeps (shape : List ScopeKind) (hkind : .case ∈ shape) :
    ∀ node : FieldPattern Unit, Keeps (At shape) (fieldPattern node) fun _ => True
  | ⟨here, field, inner⟩ =>
    Keeps.bind (checkField_keeps here.range field) fun _ _ =>
      optionalPattern_keeps shape hkind here field inner
theorem optionalPattern_keeps (shape : List ScopeKind) (hkind : .case ∈ shape)
    (here : Located Unit) (field : String) :
    ∀ inner : Option (Pattern Unit),
      Keeps (At shape) (optionalPattern here field inner) fun _ => True
  | none => Keeps.bind (bindCase_keeps hkind field here.range) fun _ _ => Keeps.pure True.intro
  | some inner => Keeps.bind (pattern_keeps shape hkind inner) fun _ _ => Keeps.pure True.intro
theorem fieldPatterns_keeps (shape : List ScopeKind) (hkind : .case ∈ shape) :
    ∀ fields : List (FieldPattern Unit), Keeps (At shape) (fieldPatterns fields) fun _ => True
  | [] => Keeps.pure True.intro
  | field :: rest => by
    refine Keeps.bind (fieldPattern_keeps shape hkind field) fun _ _ => ?_
    exact Keeps.bind (fieldPatterns_keeps shape hkind rest) fun _ _ => Keeps.pure True.intro
end

/-! ## Expressions -/

mutual
theorem expr_keeps (shape : List ScopeKind) :
    ∀ node : Expr Unit, Keeps (At shape) (expr node) Expr.Named
  | .block here bindings result => by
    refine withScope_keeps ?_
    refine Keeps.bind (localBindings_keeps _ List.mem_cons_self bindings) fun _ hbindings => ?_
    exact Keeps.bind (optionalExpr_keeps _ result) fun _ hresult =>
      Keeps.pure ⟨hbindings, hresult⟩
  | .conditional here condition consequent alternative => by
    refine Keeps.bind (expr_keeps shape condition) fun _ hcondition => ?_
    refine Keeps.bind (expr_keeps shape consequent) fun _ hconsequent => ?_
    exact Keeps.bind (expr_keeps shape alternative) fun _ halternative =>
      Keeps.pure ⟨hcondition, hconsequent, halternative⟩
  | .lambda here params body => by
    refine withScope_keeps ?_
    refine Keeps.bind (Keeps.mapM fun node _ => param_keeps List.mem_cons_self node) ?_
    intro _ hparams
    exact Keeps.bind (expr_keeps _ body) fun _ hbody => Keeps.pure ⟨hparams, hbody⟩
  | .cases here scrutinee cases => by
    refine Keeps.bind (expr_keeps shape scrutinee) fun _ hscrutinee => ?_
    exact Keeps.bind (caseList_keeps shape cases) fun _ hcases =>
      Keeps.pure ⟨hscrutinee, hcases⟩
  | .apply here function args => by
    refine Keeps.bind (expr_keeps shape function) fun _ hfunction => ?_
    exact Keeps.bind (exprs_keeps shape args) fun _ hargs => Keeps.pure ⟨hfunction, hargs⟩
  | .select here receiver selection => by
    refine Keeps.bind (expr_keeps shape receiver) fun _ hreceiver => ?_
    exact Keeps.bind (reference_keeps selection) fun _ _ => Keeps.pure hreceiver
  | .reference node => Keeps.bind (reference_keeps node) fun _ _ => Keeps.pure True.intro
  | .binary here op left right => by
    refine Keeps.bind (expr_keeps shape left) fun _ hleft => ?_
    exact Keeps.bind (expr_keeps shape right) fun _ hright => Keeps.pure ⟨hleft, hright⟩
  | .unary here op operand =>
    Keeps.bind (expr_keeps shape operand) fun _ hoperand => Keeps.pure hoperand
  | .literal here value => Keeps.pure True.intro
theorem optionalExpr_keeps (shape : List ScopeKind) :
    ∀ node : Option (Expr Unit), Keeps (At shape) (optionalExpr node) Expr.NamedOption
  | none => Keeps.pure True.intro
  | some node => Keeps.bind (expr_keeps shape node) fun _ hnode => Keeps.pure hnode
theorem exprs_keeps (shape : List ScopeKind) :
    ∀ nodes : List (Expr Unit), Keeps (At shape) (exprs nodes) Expr.NamedList
  | [] => Keeps.pure True.intro
  | node :: rest => by
    refine Keeps.bind (expr_keeps shape node) fun _ hnode => ?_
    exact Keeps.bind (exprs_keeps shape rest) fun _ hrest => Keeps.pure ⟨hnode, hrest⟩
theorem localBinding_keeps (shape : List ScopeKind) (hkind : .block ∈ shape) :
    ∀ node : Binding Unit, Keeps (At shape) (localBinding node) Binding.Named
  | ⟨here, name, type, value⟩ => by
    refine Keeps.bind (bindBlock_keeps hkind name here.range) fun _ _ => ?_
    refine Keeps.bind (ascription_keeps type) fun _ htype => ?_
    exact Keeps.bind (expr_keeps shape value) fun _ hvalue => Keeps.pure ⟨htype, hvalue⟩
theorem localBindings_keeps (shape : List ScopeKind) (hkind : .block ∈ shape) :
    ∀ nodes : List (Binding Unit), Keeps (At shape) (localBindings nodes) Binding.NamedList
  | [] => Keeps.pure True.intro
  | node :: rest => by
    refine Keeps.bind (localBinding_keeps shape hkind node) fun _ hnode => ?_
    exact Keeps.bind (localBindings_keeps shape hkind rest) fun _ hrest =>
      Keeps.pure ⟨hnode, hrest⟩
theorem caseNode_keeps (shape : List ScopeKind) :
    ∀ node : Case Unit, Keeps (At shape) (caseNode node) Case.Named
  | ⟨here, inner, body⟩ => by
    refine withScope_keeps ?_
    refine Keeps.bind (pattern_keeps _ List.mem_cons_self inner) fun _ _ => ?_
    exact Keeps.bind (expr_keeps _ body) fun _ hbody => Keeps.pure hbody
theorem caseList_keeps (shape : List ScopeKind) :
    ∀ nodes : List (Case Unit), Keeps (At shape) (caseList nodes) Case.NamedList
  | [] => Keeps.pure True.intro
  | node :: rest => by
    refine Keeps.bind (caseNode_keeps shape node) fun _ hnode => ?_
    exact Keeps.bind (caseList_keeps shape rest) fun _ hrest => Keeps.pure ⟨hnode, hrest⟩
end

/-! ## Declarations -/

theorem constructorParam_keeps (name : ConstructorName) (node : ConstructorParam Unit) :
    Keeps (At shape) (constructorParam name node) fun param => param.ascription.Named :=
  Keeps.bind (typeNode_keeps shape node.ascription) fun _ hnode => Keeps.pure hnode

theorem constructor_keeps (data : QualifiedName) (node : Constructor Unit) :
    Keeps (At shape) (constructor data node) Constructor.Named := by
  refine Keeps.bind (addEdge_keeps _ _) fun _ _ => ?_
  refine Keeps.bind (addEdge_keeps _ _) fun _ _ => withScope_keeps ?_
  refine Keeps.bind (Keeps.mapM fun param _ => constructorParam_keeps _ param) ?_
  intro _ hparams
  refine Keeps.bind (ascription_keeps node.result) fun _ hresult => ?_
  exact Keeps.pure ⟨⟨_, rfl⟩, hparams, hresult⟩

theorem data_keeps {ns : NamespaceName} (hns : .ns ns ∈ shape) (node : Data Unit) :
    Keeps (At shape) (data node) Data.Named := by
  refine Keeps.bind (currentNamespace_keeps hns) fun _ _ => ?_
  refine withBinders_keeps _ node.typeParams ?_
  refine Keeps.bind (Keeps.mapM fun var _ => typeVar_keeps var) fun _ hparams => ?_
  refine Keeps.bind (Keeps.mapM fun inner _ => constructor_keeps _ inner) ?_
  intro _ hconstructors
  exact Keeps.pure ⟨⟨_, rfl⟩, hparams, hconstructors⟩

theorem topLevelBinding_keeps {ns : NamespaceName} (hns : .ns ns ∈ shape)
    (node : Binding Unit) : Keeps (At shape) (topLevelBinding node) Binding.Named := by
  refine Keeps.bind (currentNamespace_keeps hns) fun _ _ => withScope_keeps ?_
  refine Keeps.bind (ascription_keeps node.ascription) fun _ htype => ?_
  exact Keeps.bind (expr_keeps _ node.value) fun _ hvalue => Keeps.pure ⟨htype, hvalue⟩

theorem functionBinding_keeps {ns : NamespaceName} (hns : .ns ns ∈ shape)
    (node : FunctionBinding Unit) :
    Keeps (At shape) (functionBinding node) FunctionBinding.Named := by
  refine Keeps.bind (currentNamespace_keeps hns) fun _ _ => ?_
  refine withBinders_keeps _ node.typeParams (withScope_keeps ?_)
  refine Keeps.bind (Keeps.mapM fun var _ => typeVar_keeps var) fun _ hvars => ?_
  refine Keeps.bind (Keeps.mapM fun inner _ => param_keeps List.mem_cons_self inner) ?_
  intro _ hparams
  refine Keeps.bind (ascription_keeps node.result) fun _ hresult => ?_
  refine Keeps.bind (expr_keeps _ node.body) fun _ hbody => ?_
  exact Keeps.pure ⟨⟨_, rfl⟩, hvars, hparams, hresult, hbody⟩

theorem declaration_keeps {ns : NamespaceName} (hns : .ns ns ∈ shape)
    (node : Declaration Unit) : Keeps (At shape) (declaration node) Declaration.Named := by
  refine Keeps.bind (keeps_modify fun _ => rfl) fun _ _ => ?_
  cases node with
  | data d => exact Keeps.bind (data_keeps hns d) fun _ hd => Keeps.pure hd
  | binding d => exact Keeps.bind (topLevelBinding_keeps hns d) fun _ hd => Keeps.pure hd
  | function d => exact Keeps.bind (functionBinding_keeps hns d) fun _ hd => Keeps.pure hd

/-! ## Namespaces -/

theorem typesNamed_of_types_eq {frame frame' : Frame (Located Name)} (h : frame.TypesNamed)
    (htypes : frame'.types = frame.types) : frame'.TypesNamed := by
  intro key here hbound
  rw [Frame.type?, htypes] at hbound
  exact h key here hbound

theorem populateValue_types (frame : Frame (Located Name)) (key : String)
    (item : Located Name) : (frame.populateValue key item).types = frame.types ∧
      (frame.populateValue key item).kind = frame.kind := by
  unfold Frame.populateValue
  split <;> exact ⟨rfl, rfl⟩

theorem populateType_kind (frame : Frame (Located Name)) (key : String)
    (item : Located Name) : (frame.populateType key item).kind = frame.kind := by
  unfold Frame.populateType
  split <;> rfl

/-- What a step of the population of a top-level frame keeps of the frame. -/
def Populates (frame frame' : Frame (Located Name)) : Prop :=
  frame'.kind = frame.kind ∧ frame'.TypesNamed

theorem populateConstructor_keeps (data : QualifiedName) {frame : Frame (Located Name)}
    (hframe : frame.TypesNamed) (node : Constructor Unit) :
    Keeps (At shape) (populateConstructor data frame node) (Populates frame) := by
  have hname : (Name.constructor (.ofData data node.name)).NamesType := True.intro
  refine Keeps.bind (defineValue_keeps frame node.name _) fun frame₁ hframe₁ => ?_
  refine Keeps.foldlM ⟨?_, ?_⟩ fun frame₂ hframe₂ param _ => ?_
  · rw [populateType_kind, populateType_kind, (populateValue_types _ _ _).2, hframe₁.1]
  · refine Frame.TypesNamed.populateType (Frame.TypesNamed.populateType ?_ hname _) hname _
    exact typesNamed_of_types_eq hframe ((populateValue_types _ _ _).1.trans hframe₁.2)
  · refine (defineField_keeps _ _ _).mono fun frame₃ hframe₃ => ?_
    exact ⟨hframe₃.1.trans hframe₂.1, typesNamed_of_types_eq hframe₂.2 hframe₃.2⟩

theorem populateDeclaration_keeps (ns : NamespaceName) {frame : Frame (Located Name)}
    (hframe : frame.TypesNamed) (node : Declaration Unit) :
    Keeps (At shape) (populateDeclaration ns frame node) (Populates frame) := by
  have hvalue : Keeps (At shape) (do
      let frame ← defineValue frame node.name ⟨node.here.range, .binding ⟨ns, node.name⟩⟩
      pure (frame.populateValue (QualifiedName.canonical ⟨ns, node.name⟩)
        ⟨node.here.range, .binding ⟨ns, node.name⟩⟩)) (Populates frame) := by
    refine Keeps.bind (defineValue_keeps frame node.name _) fun frame₁ hframe₁ => ?_
    have htypes := populateValue_types frame₁ (QualifiedName.canonical ⟨ns, node.name⟩)
      ⟨node.here.range, .binding ⟨ns, node.name⟩⟩
    exact Keeps.pure ⟨htypes.2.trans hframe₁.1,
      typesNamed_of_types_eq hframe (htypes.1.trans hframe₁.2)⟩
  cases node with
  | binding d => exact hvalue
  | function d => exact hvalue
  | data d =>
    have hname : (Name.data ⟨ns, d.name⟩).NamesType := True.intro
    refine Keeps.bind (defineType_keeps hframe d.name hname) fun frame₁ hframe₁ => ?_
    refine Keeps.foldlM ⟨?_, hframe₁.2.populateType hname _⟩ fun frame₂ hframe₂ inner _ => ?_
    · rw [populateType_kind, hframe₁.1]
    · refine (populateConstructor_keeps _ hframe₂.2 inner).mono fun frame₃ hframe₃ => ?_
      exact ⟨hframe₃.1.trans hframe₂.1, hframe₃.2⟩

theorem populate_keeps (ns : Namespace Unit) :
    Keeps (At shape) (populate ns) fun frame => frame.kind = .ns ns.id.name ∧ frame.TypesNamed := by
  refine Keeps.foldlM ⟨rfl, Frame.TypesNamed.empty _⟩ fun frame hframe node _ => ?_
  refine (populateDeclaration_keeps ns.id.name hframe.2 node).mono fun frame' hframe' => ?_
  exact ⟨hframe'.1.trans hframe.1, hframe'.2⟩

/-- Resolving a namespace keeps the stack as it was, and what it gives is well named. -/
theorem namespaceNode_keeps (ns : Namespace Unit) :
    Keeps (At shape) (namespaceNode ns) Namespace.Named := by
  refine Keeps.bind (keeps_modify fun _ => rfl) fun _ _ => ?_
  refine Keeps.bind (populate_keeps ns) fun frame hframe => ?_
  have hdeclarations : Keeps (At (frame.kind :: shape)) (ns.declarations.mapM declaration)
      fun nodes => ∀ node ∈ nodes, node.Named :=
    Keeps.mapM fun node _ => declaration_keeps (List.mem_cons.2 (.inl hframe.1.symm)) node
  rintro s ⟨hshape, hnamed⟩
  have hpushed : At (frame.kind :: shape) { s with stack := s.stack.push frame } :=
    ⟨by simp [hshape], hnamed.push hframe.2⟩
  obtain ⟨nodes, s₁, hok, ⟨hshape₁, hnamed₁⟩, hnodes⟩ := hdeclarations _ hpushed
  obtain ⟨top, rest, hframes, hkind, hrest⟩ := Stack.exists_frames_of_shape_eq_cons hshape₁
  have htag : top.tag = .ns := by simp [Frame.tag, hkind, hframe.1, ScopeKind.tag]
  have hpop := Stack.pop_eq_ok hframes htag
  refine ⟨⟨⟨ns.here.range, .ns ns.id.name⟩, ns.id, ns.imports, s₁.graph.groups nodes⟩,
    { s₁ with stack := { s₁.stack with frames := rest }, topLevel := some top },
    ?_, ⟨hrest, ?_⟩, ?_⟩
  · exact (ok_bind rfl).trans ((ok_bind hok).trans ((ok_bind (within_ok hpop)).trans rfl))
  · exact ⟨fun other hother => hnamed₁.frames other (by simp [hframes, hother]),
      hnamed₁.builtIns⟩
  · exact fun group hgroup node hnode =>
      hnodes node (DeclarationGraph.mem_of_mem_groups hgroup hnode)

end Resolve

/-- A namespace is resolved without a fault, no frame is left, and the tree is well named. -/
theorem Namespace.resolve_ok (uri : String) (ns : Namespace Unit) :
    ∃ resolved resolver, Resolve.namespaceNode ns
        (Resolver.start uri (Stack.ofBuiltIns Resolver.builtIns)) = .ok resolved resolver ∧
      resolver.stack.depth = 0 ∧ resolved.Named := by
  have hstart : Resolver.At [] (Resolver.start uri (Stack.ofBuiltIns Resolver.builtIns)) := by
    refine ⟨rfl, ⟨fun frame hframe => (List.not_mem_nil hframe).elim, fun frame hframe => ?_⟩⟩
    obtain rfl := Option.some.inj hframe
    exact Resolver.builtIns_typesNamed
  obtain ⟨resolved, resolver, hok, hat, hnamed⟩ := Resolve.namespaceNode_keeps ns _ hstart
  refine ⟨resolved, resolver, hok, ?_, hnamed⟩
  rw [Stack.depth_eq_length_shape, hat.1, List.length_nil]

end PolyFront
