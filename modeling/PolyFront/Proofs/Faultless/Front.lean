import PolyFront.Front
import PolyFront.Proofs.Faultless.Exprs
import PolyFront.Proofs.Faultless.Naming

/-!
# The front end is free of faults

Data declarations, values and functions are checked without a fault once they are well
named, which resolution makes them.  So no namespace, however wrong its names and types are,
leads the front end into a fault, and no frame is left on either stack.
-/

namespace PolyFront

open Run

namespace Check

open Checker KindJudgement

variable {shape : List ScopeKind} {kind : ScopeKind}

/-! ## Data declarations -/

/-- The written types of a constructor carry kinds. -/
def CheckedConstructor.Kinded (checked : CheckedConstructor) : Prop :=
  (∀ field ∈ checked.fields, field.Kinded) ∧ TypeNode.KindedOption checked.result

theorem fieldTypeNode_keeps {node : TypeNode Name} (h : node.Named) :
    Keeps (At (kind :: shape)) (fieldTypeNode node) TypeNode.Kinded :=
  Keeps.bind ((node.judge_safe h).check _ _ _) fun _ hnode => substituteNode_keeps hnode

theorem checkConstructor_keeps {node : Constructor Name} (h : node.Named) :
    Keeps (At shape) (checkConstructor node) CheckedConstructor.Kinded := by
  obtain ⟨⟨name, hname⟩, hparams, hresult⟩ := h
  simp only [checkConstructor, hname]
  refine withScope_keeps ?_
  refine Keeps.bind (Keeps.mapM fun param hmem => fieldTypeNode_keeps (hparams param hmem)) ?_
  intro _ hfields
  have hchecked : Keeps (At (.constructor name :: shape))
      (traverseOption fieldTypeNode node.result) TypeNode.KindedOption := by
    cases hnode : node.result with
    | none => exact Keeps.pure fun _ hnone => by cases hnone
    | some written =>
      refine Keeps.bind (fieldTypeNode_keeps (hresult written hnode)) fun _ hkinded => ?_
      refine Keeps.pure fun _ hsome => ?_
      obtain rfl := Option.some.inj hsome
      exact hkinded
  exact Keeps.bind hchecked fun _ hkinded => Keeps.pure ⟨hfields, hkinded⟩

theorem defaultConstructor_keeps {checked : CheckedConstructor} (h : checked.Kinded) :
    Keeps (At shape) (defaultConstructor checked) CheckedConstructor.Kinded := by
  refine Keeps.bind (Keeps.mapM fun field hmem => defaultNode_keeps (h.1 field hmem)) ?_
  intro _ hfields
  refine Keeps.bind (traverseOption_keeps (fun _ hnode => defaultNode_keeps hnode) h.2) ?_
  exact fun _ hresult => Keeps.pure ⟨hfields, hresult⟩

theorem putType_keeps (key : String) (item : Located Attributes) :
    Keeps (At (kind :: shape)) (liftM (Solve.putType key item) : Check Unit) fun _ => True :=
  lift_keeps (Solve.putType_keeps key item)

theorem bindData_keeps (text : String) (name : QualifiedName) (here : Located Attributes) :
    Keeps (At (kind :: shape)) (bindData text name here) fun _ => True :=
  Keeps.bind (putType_keeps _ _) fun _ _ => putType_keeps _ _

theorem bindFields_keeps (name : ConstructorName) (params : List (ConstructorParam Name))
    (fields : List (TypeNode Attributes × Ty)) :
    Keeps (At (kind :: shape)) (bindFields name params fields) fun _ => True := by
  refine Keeps.mapM_trivial fun pair _ => ?_
  exact Keeps.bind (lift_keeps (Solve.putField_keeps _ _ _)) fun _ _ => Keeps.pure True.intro

/-- What the later check of a constructor's own result needs to know about it. -/
def ResultKinded (constructor : Constructor Attributes) : Prop :=
  TypeNode.KindedOption constructor.result

theorem bindConstructor_keeps (params : List Ty) (applied : Ty) (k : Kind)
    (node : Constructor Name) {checked : CheckedConstructor} (h : checked.Kinded) :
    Keeps (At (kind :: shape)) (bindConstructor params applied k node checked)
      ResultKinded := by
  refine Keeps.bind (Keeps.mapM fun field hmem => toType_keeps kind shape field (h.1 field hmem))
    fun fields _ => ?_
  have hrest (result : Ty) : Keeps (At (kind :: shape)) (do
      let body := if fields.isEmpty then result else Ty.function fields result
      let type := if params.isEmpty then body else .quantified params body .type
      let here := typed node.here type
      let canonical := checked.name.name.canonical
      Solve.putValue node.name here
      Solve.putValue canonical here
      Solve.putType node.name (kinded node.here k)
      Solve.putType canonical (kinded node.here k)
      let params ← bindFields checked.name node.params (checked.fields.zip fields)
      pure ⟨here, node.name, params, checked.result⟩ : Check (Constructor Attributes))
      ResultKinded := by
    refine Keeps.bind (putValue_keeps _ _) fun _ _ => ?_
    refine Keeps.bind (putValue_keeps _ _) fun _ _ => ?_
    refine Keeps.bind (putType_keeps _ _) fun _ _ => ?_
    refine Keeps.bind (putType_keeps _ _) fun _ _ => ?_
    exact Keeps.bind (bindFields_keeps _ _ _) fun _ _ => Keeps.pure h.2
  cases hresult : checked.result with
  | some written =>
    rw [hresult] at hrest
    exact Keeps.bind (toType_keeps kind shape written (h.2 written hresult)) fun _ _ => hrest _
  | none =>
    rw [hresult] at hrest
    exact hrest applied

theorem checkData_keeps {node : Data Name} (h : node.Named) (name : QualifiedName) :
    Keeps (At shape) (checkData node name) fun result =>
      (∀ var ∈ result.1, var.Kinded) ∧ ∀ checked ∈ result.2.2, checked.Kinded := by
  refine withScope_keeps ?_
  refine Keeps.bind (Keeps.mapM fun var hmem => inferTypeVar_keeps (h.2.1 var hmem)) ?_
  intro vars hvars
  refine Keeps.bind (Keeps.mapM fun var hmem => kindOf_keeps (hvars var hmem).1) fun _ _ => ?_
  refine Keeps.bind (bindData_keeps _ _ _) fun _ _ => ?_
  refine Keeps.bind (Keeps.mapM fun inner hmem => checkConstructor_keeps (h.2.2 inner hmem)) ?_
  intro _ hconstructors
  refine Keeps.bind (Keeps.mapM fun var hmem =>
    (typeVarNode_traverse_keeps keepsSorts_default var).mono fun _ himp =>
      himp (hvars var hmem)) ?_
  intro _ hparams
  refine Keeps.bind (lift_keeps (Solve.defaultKind_keeps _)) fun _ _ => ?_
  refine Keeps.bind (Keeps.mapM fun checked hmem =>
    defaultConstructor_keeps (hconstructors checked hmem)) ?_
  exact fun _ hchecked => Keeps.pure ⟨hparams, hchecked⟩

/-- What the later checks of a data declaration need to know about it. -/
structure DataKinded (data : Data Attributes) : Prop where
  here : data.here.info.IsKind
  typeParams : ∀ var ∈ data.typeParams, var.Kinded
  constructors : ∀ constructor ∈ data.constructors, ResultKinded constructor

theorem inferData_keeps {node : Data Name} (h : node.Named) :
    Keeps (At (kind :: shape)) (inferData node) DataKinded := by
  obtain ⟨name, hname⟩ := h.1
  simp only [inferData, hname]
  refine Keeps.bind (checkData_keeps h name) fun result hresult => ?_
  refine Keeps.bind (bindData_keeps _ _ _) fun _ _ => ?_
  refine Keeps.bind (Keeps.mapM fun var hmem => typeOfVarNode_keeps (hresult.1 var hmem)) ?_
  intro params _
  refine Keeps.bind (Keeps.mapM fun pair hmem => bindConstructor_keeps _ _ _ pair.1
    (hresult.2 pair.2 (List.of_mem_zip hmem).2)) ?_
  exact fun _ hconstructors => Keeps.pure ⟨rfl, hresult.1, hconstructors⟩

theorem checkResultType_keeps {data : Data Attributes} (hdata : DataKinded data)
    (name : QualifiedName) {constructor : Constructor Attributes}
    (h : ResultKinded constructor) :
    Keeps (At shape) (checkResultType data name constructor) fun _ => True := by
  unfold checkResultType
  split
  · rename_i constructorName result _ hresult
    refine withScope_keeps ?_
    refine Keeps.bind (Keeps.mapM_trivial fun var hmem => ?_) fun _ _ => ?_
    · refine Keeps.bind (kindOf_keeps (hdata.typeParams var hmem).1) fun _ _ => ?_
      exact lift_keeps (Solve.freshType_keeps _)
    · refine Keeps.bind (kindOf_keeps hdata.here) fun _ _ => ?_
      refine Keeps.bind (toType_keeps _ _ result (h result hresult)) fun _ _ => ?_
      exact requireAccepting_keeps _ _ _
  · exact Keeps.pure True.intro

theorem checkResultTypes_keeps {data : Data Attributes} (hdata : DataKinded data) :
    Keeps (At (kind :: shape)) (do
      match data.here.info.name with
      | .data name => data.constructors.forM (checkResultType data name)
      | _ => pure ()
      pure data : Check (Data Attributes)) fun _ => True := by
  split
  · refine Keeps.bind (Keeps.forM fun inner hmem => ?_) fun _ _ => Keeps.pure True.intro
    exact checkResultType_keeps hdata _ (hdata.constructors inner hmem)
  · exact Keeps.pure True.intro

theorem inferDataDeclaration_keeps {node : Data Name} (h : node.Named) :
    Keeps (At (kind :: shape)) (inferDataDeclaration node) fun _ => True := by
  refine Keeps.bind Keeps.get fun s _ => ?_
  refine Keeps.bind (inferData_keeps h) fun data hdata => ?_
  dsimp only
  split
  · refine Keeps.bind (kindOf_keeps hdata.here) fun _ _ => ?_
    refine Keeps.bind (lift_keeps (Solve.checkSubKind_keeps _ _)) fun _ _ => ?_
    refine Keeps.ite (fun _ => ?_) fun _ => checkResultTypes_keeps hdata
    refine Keeps.bind (lift_keeps (Solve.substituteKind_keeps _)) fun _ _ => ?_
    exact Keeps.bind (report_keeps _ _) fun _ _ => checkResultTypes_keeps hdata
  · exact checkResultTypes_keeps hdata

/-! ## Values and functions -/

theorem functionType_keeps {typeParams : List (TypeVarNode Attributes)}
    (hvars : ∀ var ∈ typeParams, var.Kinded) {params : List (Param Attributes)}
    (hparams : ∀ param ∈ params, param.here.info.IsType) (result : Ty) :
    Keeps (At (kind :: shape)) (functionType typeParams params result) fun _ => True := by
  refine Keeps.bind (Keeps.mapM_trivial fun param hmem => typeOf_keeps (hparams param hmem)) ?_
  intro _ _
  refine Keeps.ite (fun _ => Keeps.pure True.intro) fun _ => ?_
  refine Keeps.bind (Keeps.mapM_trivial fun var hmem => typeOfVarNode_keeps (hvars var hmem)) ?_
  exact fun _ _ => Keeps.pure True.intro

/-- A declaration whose root has to carry a type does so. -/
def DeclarationTyped : Declaration Attributes → Prop
  | .data _ => True
  | .binding d => d.here.info.IsType
  | .function d => d.here.info.IsType

theorem inferFunction_keeps {node : FunctionBinding Name} (h : node.Named) :
    Keeps (At (kind :: shape)) (inferFunction node) fun node' => node'.here.info.IsType := by
  obtain ⟨⟨name, hname⟩, htypeParams, hparams, hresult, hbody⟩ := h
  have hjudge := node.body.judge_safe hbody
  simp only [inferFunction, hname]
  refine Keeps.bind (?_ : Keeps _ _ fun parts : Located Attributes × _ => parts.1.info.IsType)
    fun _ hhere => Keeps.bind (bindValue_keeps _ _) fun _ _ => Keeps.pure hhere
  refine withScope_keeps ?_
  refine Keeps.bind (Keeps.mapM fun var hmem => inferTypeVar_keeps (htypeParams var hmem)) ?_
  intro typeParams hvars
  refine withScope_keeps ?_
  refine Keeps.bind (Keeps.mapM fun param hmem => inferParam_keeps (hparams param hmem)) ?_
  intro params htyped
  refine Keeps.bind (ascriptionOrFresh_keeps hresult) fun pair _ => ?_
  refine Keeps.bind (functionType_keeps hvars htyped _) fun _ _ => ?_
  refine Keeps.bind (bindValue_keeps _ _) fun _ _ => ?_
  have hrest {body : Expr Attributes} (hbody : body.Typed) :
      Keeps (At (.lambda :: .binding name :: kind :: shape)) (do
        let type ← functionType typeParams params (← typeOf body.here)
        pure (typed node.here type, typeParams, params, pair.1, body))
        fun parts => parts.1.info.IsType := by
    refine Keeps.bind (typeOf_keeps hbody) fun _ _ => ?_
    exact Keeps.bind (functionType_keeps hvars htyped _) fun _ _ => Keeps.pure rfl
  obtain ⟨result, resultType⟩ := pair
  cases result with
  | some written => exact Keeps.bind (hjudge.check _ _ _) fun _ hnode => hrest hnode
  | none =>
    refine Keeps.bind (hjudge.infer _ _) fun _ hnode => ?_
    refine Keeps.bind (typeOf_keeps hnode) fun _ _ => ?_
    exact Keeps.bind (checkSubType_keeps _ _) fun _ _ => hrest hnode

theorem inferDeclaration_keeps {node : Declaration Name} (h : node.Named) :
    Keeps (At (kind :: shape)) (inferDeclaration node) DeclarationTyped := by
  cases node with
  | data d =>
    exact Keeps.bind (inferDataDeclaration_keeps h) fun _ _ => Keeps.pure True.intro
  | binding d => exact Keeps.bind (d.judge_keeps h _ _) fun _ hnode => Keeps.pure hnode
  | function d => exact Keeps.bind (inferFunction_keeps h) fun _ hnode => Keeps.pure hnode

/-! ## Groups and namespaces -/

theorem reportAmbiguous_keeps (name : String) {here : Located Attributes}
    (h : here.info.IsType) :
    Keeps (At shape) (reportAmbiguous name here) fun _ => True :=
  Keeps.bind (typeOf_keeps h) fun _ _ => Keeps.when (report_keeps _ _)

theorem bindTopLevel_keeps (name : String) (here : Located Attributes) :
    Keeps (At (kind :: shape)) (bindTopLevel name here) fun _ => True :=
  Keeps.bind (putValue_keeps _ _) fun _ _ => putValue_keeps _ _

section Traverse

variable {f : Attributes → Check Attributes}

theorem constructor_traverse_ends (hf : KeepsSorts shape f) (node : Constructor Attributes) :
    Keeps (At shape) (node.traverse f) fun _ => True := by
  refine Keeps.bind (located_traverse_keeps hf _) fun _ _ => ?_
  refine Keeps.bind (Keeps.mapM_trivial fun param _ => ?_) fun _ _ => ?_
  · refine Keeps.bind (located_traverse_keeps hf _) fun _ _ => ?_
    exact Keeps.bind (typeNode_traverse_keeps hf _) fun _ _ => Keeps.pure True.intro
  · exact Keeps.bind (ascription_traverse_ends hf _) fun _ _ => Keeps.pure True.intro

theorem data_traverse_ends (hf : KeepsSorts shape f) (node : Data Attributes) :
    Keeps (At shape) (node.traverse f) fun _ => True := by
  refine Keeps.bind (located_traverse_keeps hf _) fun _ _ => ?_
  refine Keeps.bind (Keeps.mapM_trivial fun var _ =>
    (typeVarNode_traverse_keeps hf var).trivial) fun _ _ => ?_
  refine Keeps.bind (Keeps.mapM_trivial fun inner _ => constructor_traverse_ends hf inner) ?_
  exact fun _ _ => Keeps.pure True.intro

theorem functionBinding_traverse_keeps (hf : KeepsSorts shape f)
    (node : FunctionBinding Attributes) :
    Keeps (At shape) (node.traverse f) fun node' =>
      node.here.info.SameSort node'.here.info := by
  refine Keeps.bind (located_traverse_keeps hf _) fun _ hhere => ?_
  refine Keeps.bind (Keeps.mapM_trivial fun var _ =>
    (typeVarNode_traverse_keeps hf var).trivial) fun _ _ => ?_
  refine Keeps.bind (Keeps.mapM_trivial fun param _ => param_traverse_ends hf param) fun _ _ => ?_
  refine Keeps.bind (ascription_traverse_ends hf _) fun _ _ => ?_
  exact Keeps.bind (expr_traverse_keeps hf _) fun _ _ => Keeps.pure hhere

theorem declaration_traverse_keeps (hf : KeepsSorts shape f) {node : Declaration Attributes}
    (h : DeclarationTyped node) : Keeps (At shape) (node.traverse f) DeclarationTyped := by
  cases node with
  | data d => exact Keeps.bind (data_traverse_ends hf d) fun _ _ => Keeps.pure True.intro
  | binding d =>
    exact Keeps.bind (binding_traverse_keeps hf d) fun _ hsame =>
      Keeps.pure (hsame.type.trans h)
  | function d =>
    exact Keeps.bind (functionBinding_traverse_keeps hf d) fun _ hsame =>
      Keeps.pure (hsame.type.trans h)

end Traverse

theorem finishDeclaration_keeps {node : Declaration Attributes} (h : DeclarationTyped node) :
    Keeps (At (kind :: shape)) (finishDeclaration node) fun _ => True := by
  refine Keeps.bind (declaration_traverse_keeps keepsSorts_default h) fun node' hnode => ?_
  cases node' with
  | data d => exact Keeps.pure True.intro
  | binding d =>
    refine Keeps.bind (reportAmbiguous_keeps _ hnode) fun _ _ => ?_
    exact Keeps.bind (bindTopLevel_keeps _ _) fun _ _ => Keeps.pure True.intro
  | function d =>
    refine Keeps.bind (reportAmbiguous_keeps _ hnode) fun _ _ => ?_
    exact Keeps.bind (bindTopLevel_keeps _ _) fun _ _ => Keeps.pure True.intro

theorem inferGroup_keeps {group : List (Declaration Name)} (h : ∀ node ∈ group, node.Named) :
    Keeps (At (kind :: shape)) (inferGroup group) fun _ => True := by
  refine Keeps.bind (Keeps.mapM fun node hmem => inferDeclaration_keeps (h node hmem)) ?_
  intro inferred hinferred
  exact Keeps.mapM_trivial fun node hmem => finishDeclaration_keeps (hinferred node hmem)

theorem populateConstructor_keeps (node : Constructor Name) :
    Keeps (At (kind :: shape)) (populateConstructor node) fun _ => True := by
  refine Keeps.bind freshType_keeps fun _ _ => ?_
  refine Keeps.bind (bindTopLevel_keeps _ _) fun _ _ => ?_
  split
  · refine Keeps.forM fun param _ => Keeps.bind freshType_keeps fun _ _ => ?_
    exact lift_keeps (Solve.putField_keeps _ _ _)
  · exact Keeps.pure True.intro

theorem populateDeclaration_keeps (node : Declaration Name) :
    Keeps (At (kind :: shape)) (populateDeclaration node) fun _ => True := by
  cases node with
  | data d =>
    refine Keeps.bind (lift_keeps Solve.freshKind_keeps) fun _ _ => ?_
    refine Keeps.bind (putType_keeps _ _) fun _ _ => ?_
    refine Keeps.bind (putType_keeps _ _) fun _ _ => ?_
    exact Keeps.forM fun inner _ => populateConstructor_keeps inner
  | binding d => exact Keeps.bind freshType_keeps fun _ _ => bindTopLevel_keeps _ _
  | function d => exact Keeps.bind freshType_keeps fun _ _ => bindTopLevel_keeps _ _

/-- A well named namespace is checked without a fault, and no frame is left. -/
theorem namespaceNode_ok {ns : Namespace Name} (h : ns.Named) {s : Checker} (hs : At [] s) :
    ∃ result s', namespaceNode ns s = .ok result s' ∧ At [] s' := by
  have hbody : Keeps (At [.ns ns.id.name]) (do
      ns.declarations.forM populateDeclaration
      ns.groups.mapM inferGroup : Check (List (List (Declaration Attributes))))
      fun _ => True := by
    refine Keeps.bind (Keeps.forM fun node _ => populateDeclaration_keeps node) fun _ _ => ?_
    exact Keeps.mapM_trivial fun group hmem => inferGroup_keeps (h group hmem)
  have hpushed : At [.ns ns.id.name] { s with store := { s.store with
      stack := s.store.stack.push (Frame.empty (.ns ns.id.name)) } } := by
    rw [At, Stack.shape_push, hs]
    rfl
  obtain ⟨groups, s₁, hok, hs₁, -⟩ := hbody _ hpushed
  obtain ⟨frame, store, hpop, hstore⟩ := Solve.popScope_ok hs₁
  have hpush : (liftM (Solve.pushScope (.ns ns.id.name)) : Check Unit) s =
      .ok () { s with store := { s.store with
        stack := s.store.stack.push (Frame.empty (.ns ns.id.name)) } } := rfl
  have hpopped : (liftM (Solve.popScope .ns) : Check _) s₁ =
      .ok frame { s₁ with store := store } := by
    show Run.within Checker.store _ (Solve.popScope .ns) s₁ = _
    simp only [Run.within]
    rw [show Solve.popScope .ns s₁.store = .ok frame store from hpop]
  have hrun : namespaceNode ns = (do
      Solve.pushScope (.ns ns.id.name)
      let groups ← (do
        ns.declarations.forM populateDeclaration
        ns.groups.mapM inferGroup : Check (List (List (Declaration Attributes))))
      let frame ← Solve.popScope .ns
      pure (⟨typed ns.here (.builtIn .unit), ns.id, ns.imports, groups⟩, frame)) := by
    rw [namespaceNode]
    simp only [bind_assoc]
  refine ⟨(⟨typed ns.here (.builtIn .unit), ns.id, ns.imports, groups⟩, frame),
    { s₁ with store := store }, ?_, hstore⟩
  rw [hrun]
  simp only [bind, EStateM.bind] at hok ⊢
  simp only [hpush, hok, hpopped, pure, EStateM.pure]

end Check

end PolyFront
