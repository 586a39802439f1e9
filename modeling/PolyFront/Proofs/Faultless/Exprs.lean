import PolyFront.Checking.Exprs
import PolyFront.Proofs.Faultless.Types

/-!
# Expressions are checked without faults

The types of a well named expression are found without a fault, construct by construct, and
the root of the result carries a type.
-/

namespace PolyFront

open Run

/-- The root of a checked expression carries a type. -/
def Expr.Typed (expr : Expr Attributes) : Prop := expr.here.info.IsType

namespace Check

open Checker

variable {shape : List ScopeKind} {kind : ScopeKind}

/-! ## Traversals -/

section Traverse

variable {f : Attributes → Check Attributes}

theorem ascription_traverse_ends (hf : KeepsSorts shape f)
    (node : Option (TypeNode Attributes)) :
    Keeps (At shape) (traverseOption (TypeNode.traverse f) node) fun _ => True := by
  cases node with
  | none => exact Keeps.pure True.intro
  | some written =>
    exact Keeps.bind (typeNode_traverse_keeps hf written) fun _ _ => Keeps.pure True.intro

theorem param_traverse_ends (hf : KeepsSorts shape f) (param : Param Attributes) :
    Keeps (At shape) (param.traverse f) fun _ => True := by
  refine Keeps.bind (located_traverse_keeps hf _) fun _ _ => ?_
  exact Keeps.bind (ascription_traverse_ends hf _) fun _ _ => Keeps.pure True.intro

theorem reference_traverse_keeps (hf : KeepsSorts shape f) (node : Reference Attributes) :
    Keeps (At shape) (node.traverse f) fun node' =>
      node.here.info.SameSort node'.here.info :=
  Keeps.bind (located_traverse_keeps hf _) fun _ h => Keeps.pure h

mutual
theorem pattern_traverse_ends (hf : KeepsSorts shape f) :
    ∀ node : Pattern Attributes, Keeps (At shape) (node.traverse f) fun _ => True
  | .alias here name inner => by
    refine Keeps.bind (located_traverse_keeps hf _) fun _ _ => ?_
    exact Keeps.bind (pattern_traverse_ends hf inner) fun _ _ => Keeps.pure True.intro
  | .constructor here id fields => by
    refine Keeps.bind (located_traverse_keeps hf _) fun _ _ => ?_
    exact Keeps.bind (fieldPatterns_traverse_ends hf fields) fun _ _ => Keeps.pure True.intro
  | .id here name => Keeps.bind (located_traverse_keeps hf _) fun _ _ => Keeps.pure True.intro
  | .literal here value =>
    Keeps.bind (located_traverse_keeps hf _) fun _ _ => Keeps.pure True.intro
theorem fieldPattern_traverse_ends (hf : KeepsSorts shape f) :
    ∀ node : FieldPattern Attributes, Keeps (At shape) (node.traverse f) fun _ => True
  | ⟨here, field, inner⟩ => by
    refine Keeps.bind (located_traverse_keeps hf _) fun _ _ => ?_
    exact Keeps.bind (optionalPattern_traverse_ends hf inner) fun _ _ => Keeps.pure True.intro
theorem fieldPatterns_traverse_ends (hf : KeepsSorts shape f) :
    ∀ fields : List (FieldPattern Attributes),
      Keeps (At shape) (FieldPattern.traverseList f fields) fun _ => True
  | [] => Keeps.pure True.intro
  | field :: rest => by
    refine Keeps.bind (fieldPattern_traverse_ends hf field) fun _ _ => ?_
    exact Keeps.bind (fieldPatterns_traverse_ends hf rest) fun _ _ => Keeps.pure True.intro
theorem optionalPattern_traverse_ends (hf : KeepsSorts shape f) :
    ∀ inner : Option (Pattern Attributes),
      Keeps (At shape) (Pattern.traverseOption f inner) fun _ => True
  | none => Keeps.pure True.intro
  | some inner => Keeps.bind (pattern_traverse_ends hf inner) fun _ _ => Keeps.pure True.intro
end

mutual
/-- A traversal of an expression keeps the sort of its root. -/
theorem expr_traverse_keeps (hf : KeepsSorts shape f) :
    ∀ node : Expr Attributes, Keeps (At shape) (node.traverse f) fun node' =>
      node.here.info.SameSort node'.here.info
  | .block here bindings result => by
    refine Keeps.bind (located_traverse_keeps hf here) fun _ hhere => ?_
    refine Keeps.bind (bindings_traverse_ends hf bindings) fun _ _ => ?_
    exact Keeps.bind (optionalExpr_traverse_ends hf result) fun _ _ => Keeps.pure hhere
  | .conditional here condition consequent alternative => by
    refine Keeps.bind (located_traverse_keeps hf here) fun _ hhere => ?_
    refine Keeps.bind (expr_traverse_keeps hf condition) fun _ _ => ?_
    refine Keeps.bind (expr_traverse_keeps hf consequent) fun _ _ => ?_
    exact Keeps.bind (expr_traverse_keeps hf alternative) fun _ _ => Keeps.pure hhere
  | .lambda here params body => by
    refine Keeps.bind (located_traverse_keeps hf here) fun _ hhere => ?_
    refine Keeps.bind (Keeps.mapM fun param _ => param_traverse_ends hf param) fun _ _ => ?_
    exact Keeps.bind (expr_traverse_keeps hf body) fun _ _ => Keeps.pure hhere
  | .cases here scrutinee cases => by
    refine Keeps.bind (located_traverse_keeps hf here) fun _ hhere => ?_
    refine Keeps.bind (expr_traverse_keeps hf scrutinee) fun _ _ => ?_
    exact Keeps.bind (caseList_traverse_ends hf cases) fun _ _ => Keeps.pure hhere
  | .apply here function args => by
    refine Keeps.bind (located_traverse_keeps hf here) fun _ hhere => ?_
    refine Keeps.bind (expr_traverse_keeps hf function) fun _ _ => ?_
    exact Keeps.bind (exprs_traverse_ends hf args) fun _ _ => Keeps.pure hhere
  | .select here receiver selection => by
    refine Keeps.bind (located_traverse_keeps hf here) fun _ hhere => ?_
    refine Keeps.bind (expr_traverse_keeps hf receiver) fun _ _ => ?_
    exact Keeps.bind (reference_traverse_keeps hf selection) fun _ _ => Keeps.pure hhere
  | .reference node =>
    Keeps.bind (reference_traverse_keeps hf node) fun _ hnode => Keeps.pure hnode
  | .binary here op left right => by
    refine Keeps.bind (located_traverse_keeps hf here) fun _ hhere => ?_
    refine Keeps.bind (expr_traverse_keeps hf left) fun _ _ => ?_
    exact Keeps.bind (expr_traverse_keeps hf right) fun _ _ => Keeps.pure hhere
  | .unary here op operand => by
    refine Keeps.bind (located_traverse_keeps hf here) fun _ hhere => ?_
    exact Keeps.bind (expr_traverse_keeps hf operand) fun _ _ => Keeps.pure hhere
  | .literal here value =>
    Keeps.bind (located_traverse_keeps hf here) fun _ hhere => Keeps.pure hhere
theorem optionalExpr_traverse_ends (hf : KeepsSorts shape f) :
    ∀ node : Option (Expr Attributes),
      Keeps (At shape) (Expr.traverseOption f node) fun _ => True
  | none => Keeps.pure True.intro
  | some node => Keeps.bind (expr_traverse_keeps hf node) fun _ _ => Keeps.pure True.intro
theorem exprs_traverse_ends (hf : KeepsSorts shape f) :
    ∀ nodes : List (Expr Attributes),
      Keeps (At shape) (Expr.traverseList f nodes) fun _ => True
  | [] => Keeps.pure True.intro
  | node :: rest => by
    refine Keeps.bind (expr_traverse_keeps hf node) fun _ _ => ?_
    exact Keeps.bind (exprs_traverse_ends hf rest) fun _ _ => Keeps.pure True.intro
theorem binding_traverse_keeps (hf : KeepsSorts shape f) :
    ∀ node : Binding Attributes, Keeps (At shape) (node.traverse f) fun node' =>
      node.here.info.SameSort node'.here.info
  | ⟨here, name, ascription, value⟩ => by
    refine Keeps.bind (located_traverse_keeps hf here) fun _ hhere => ?_
    refine Keeps.bind (ascription_traverse_ends hf ascription) fun _ _ => ?_
    exact Keeps.bind (expr_traverse_keeps hf value) fun _ _ => Keeps.pure hhere
theorem bindings_traverse_ends (hf : KeepsSorts shape f) :
    ∀ nodes : List (Binding Attributes),
      Keeps (At shape) (Binding.traverseList f nodes) fun _ => True
  | [] => Keeps.pure True.intro
  | node :: rest => by
    refine Keeps.bind (binding_traverse_keeps hf node) fun _ _ => ?_
    exact Keeps.bind (bindings_traverse_ends hf rest) fun _ _ => Keeps.pure True.intro
theorem case_traverse_ends (hf : KeepsSorts shape f) :
    ∀ node : Case Attributes, Keeps (At shape) (node.traverse f) fun _ => True
  | ⟨here, pattern, body⟩ => by
    refine Keeps.bind (located_traverse_keeps hf here) fun _ _ => ?_
    refine Keeps.bind (pattern_traverse_ends hf pattern) fun _ _ => ?_
    exact Keeps.bind (expr_traverse_keeps hf body) fun _ _ => Keeps.pure True.intro
theorem caseList_traverse_ends (hf : KeepsSorts shape f) :
    ∀ nodes : List (Case Attributes),
      Keeps (At shape) (Case.traverseList f nodes) fun _ => True
  | [] => Keeps.pure True.intro
  | node :: rest => by
    refine Keeps.bind (case_traverse_ends hf node) fun _ _ => ?_
    exact Keeps.bind (caseList_traverse_ends hf rest) fun _ _ => Keeps.pure True.intro
end

end Traverse

theorem substituteExpr_keeps {node : Expr Attributes} (h : node.Typed) :
    Keeps (At shape) (substituteExpr node) Expr.Typed :=
  (expr_traverse_keeps keepsSorts_substitute node).mono fun _ hsame => hsame.type.trans h

/-! ## Checks under quantifiers -/

theorem underQuantifiersWithin_keeps {check : Ty → Check (Expr Attributes)}
    (hcheck : ∀ kind shape expected,
      Keeps (At (kind :: shape)) (check expected) Expr.Typed) (fuel : Nat) :
    ∀ kind shape expected,
      Keeps (At (kind :: shape)) (underQuantifiersWithin check fuel expected) Expr.Typed := by
  induction fuel with
  | zero =>
    intro kind shape expected
    exact Keeps.bind (substituteType_keeps _) fun _ _ => hcheck _ _ _
  | succ fuel ih =>
    intro kind shape expected
    refine Keeps.bind (substituteType_keeps _) fun expected _ => ?_
    split
    · refine withScope_keeps ?_
      refine Keeps.bind (lift_keeps (Solve.instantiateBinders_keeps _ _ _)) fun body _ => ?_
      exact Keeps.bind (ih _ _ body) fun _ hnode => substituteExpr_keeps hnode
    · exact hcheck _ _ _

theorem underQuantifiers_keeps {check : Ty → Check (Expr Attributes)}
    (hcheck : ∀ kind shape expected,
      Keeps (At (kind :: shape)) (check expected) Expr.Typed)
    (kind : ScopeKind) (shape : List ScopeKind) (expected : Ty) :
    Keeps (At (kind :: shape)) (underQuantifiers check expected) Expr.Typed :=
  Keeps.bind (lift_keeps (Solve.typeFuel_keeps _)) fun fuel _ =>
    underQuantifiersWithin_keeps hcheck fuel _ _ _

end Check

/-- Both ways to find the types of an expression are free of faults. -/
structure Judgement.Safe (judgement : Judgement) : Prop where
  infer : ∀ kind shape, Keeps (Checker.At (kind :: shape)) judgement.infer Expr.Typed
  check : ∀ kind shape expected,
    Keeps (Checker.At (kind :: shape)) (judgement.check expected) Expr.Typed

namespace Judgement

open Check Checker

variable {shape : List ScopeKind} {kind : ScopeKind}

theorem subsume_keeps (range : Range) {infer : Check (Expr Attributes)}
    (hinfer : Keeps (At (kind :: shape)) infer Expr.Typed) (expected : Ty) :
    Keeps (At (kind :: shape)) (subsume range infer expected) Expr.Typed := by
  refine Keeps.bind hinfer fun node hnode => ?_
  refine Keeps.bind (typeOf_keeps hnode) fun _ _ => ?_
  exact Keeps.bind (requireUsable_keeps _ _ _) fun _ _ => Keeps.pure hnode

theorem Safe.ofRules {infer : Check (Expr Attributes)} {check : Ty → Check (Expr Attributes)}
    (hinfer : ∀ kind shape, Keeps (At (kind :: shape)) infer Expr.Typed)
    (hcheck : ∀ kind shape expected,
      Keeps (At (kind :: shape)) (check expected) Expr.Typed) : (ofRules infer check).Safe where
  infer := hinfer
  check := underQuantifiers_keeps hcheck

theorem Safe.ofInference (range : Range) {infer : Check (Expr Attributes)}
    (hinfer : ∀ kind shape, Keeps (At (kind :: shape)) infer Expr.Typed) :
    (ofInference range infer).Safe :=
  Safe.ofRules hinfer fun kind shape expected => subsume_keeps range (hinfer kind shape) expected

theorem binding_keeps (here : Located Name) (name : String) {node : Option (TypeNode Name)}
    (hnode : TypeNode.NamedOption node) {value : Judgement} (hvalue : value.Safe) :
    Keeps (At (kind :: shape)) (binding here name node value)
      fun node' => node'.here.info.IsType := by
  cases node with
  | some written =>
    refine Keeps.bind (ascription_keeps (hnode written rfl)) fun pair _ => ?_
    refine Keeps.whenThen (bindValue_keeps _ _) ?_
    refine Keeps.bind (hvalue.check _ _ _) fun _ _ => ?_
    exact Keeps.whenThen (bindValue_keeps _ _) (Keeps.pure rfl)
  | none =>
    refine Keeps.bind (hvalue.infer _ _) fun _ hnode => ?_
    refine Keeps.bind (typeOf_keeps hnode) fun _ _ => ?_
    exact Keeps.bind (bindValue_keeps _ _) fun _ _ => Keeps.pure rfl

theorem Safe.block (here : Located Name) {bindings : List (Check (Binding Attributes))}
    (hbindings : ∀ binding ∈ bindings, ∀ kind shape,
      Keeps (At (kind :: shape)) binding fun _ => True)
    {result : Option Judgement} (hresult : ∀ judgement, result = some judgement →
      judgement.Safe) : (block here bindings result).Safe := by
  have hall (kind : ScopeKind) (shape : List ScopeKind) :
      Keeps (At (kind :: shape)) (bindings.mapM id) fun _ => True :=
    (Keeps.mapM fun binding hmem => hbindings binding hmem kind shape).trivial
  refine Safe.ofRules (fun kind shape => ?_) fun kind shape expected => ?_
  · refine withScope_keeps (Keeps.bind (hall _ _) fun _ _ => ?_)
    cases result with
    | some judgement =>
      refine Keeps.bind ((hresult judgement rfl).infer _ _) fun _ hnode => ?_
      exact Keeps.bind (typeOf_keeps hnode) fun _ _ => Keeps.pure rfl
    | none => exact Keeps.pure rfl
  · refine withScope_keeps (Keeps.bind (hall _ _) fun _ _ => ?_)
    cases result with
    | some judgement =>
      exact Keeps.bind ((hresult judgement rfl).check _ _ _) fun _ _ => Keeps.pure rfl
    | none => exact Keeps.bind (requireUsable_keeps _ _ _) fun _ _ => Keeps.pure rfl

theorem Safe.conditional (here : Located Name) {condition consequent alternative : Judgement}
    (hcondition : condition.Safe) (hconsequent : consequent.Safe)
    (halternative : alternative.Safe) :
    (conditional here condition consequent alternative).Safe := by
  refine Safe.ofRules (fun kind shape => ?_) fun kind shape expected => ?_
  · refine Keeps.bind (hcondition.check _ _ _) fun _ _ => ?_
    refine Keeps.bind freshType_keeps fun _ _ => ?_
    refine Keeps.bind (hconsequent.check _ _ _) fun _ _ => ?_
    exact Keeps.bind (halternative.check _ _ _) fun _ _ => Keeps.pure rfl
  · refine Keeps.bind (hcondition.check _ _ _) fun _ _ => ?_
    refine Keeps.bind (hconsequent.check _ _ _) fun _ _ => ?_
    exact Keeps.bind (halternative.check _ _ _) fun _ _ => Keeps.pure rfl

theorem inferLambda_keeps (here : Located Name) {params : List (Param Name)}
    (hparams : ∀ param ∈ params, param.Named) {body : Judgement} (hbody : body.Safe) :
    Keeps (At shape) (inferLambda here params body) Expr.Typed := by
  refine withScope_keeps ?_
  refine Keeps.bind (Keeps.mapM fun param hmem => inferParam_keeps (hparams param hmem)) ?_
  intro _ htyped
  refine Keeps.bind (hbody.infer _ _) fun _ hnode => ?_
  refine Keeps.bind (Keeps.mapM fun param hmem => typeOf_keeps (htyped param hmem)) fun _ _ => ?_
  exact Keeps.bind (typeOf_keeps hnode) fun _ _ => Keeps.pure rfl

theorem Safe.lambda (here : Located Name) {params : List (Param Name)}
    (hparams : ∀ param ∈ params, param.Named) {body : Judgement} (hbody : body.Safe) :
    (lambda here params body).Safe := by
  refine Safe.ofRules (fun _ _ => inferLambda_keeps here hparams hbody) ?_
  intro kind shape expected
  have hinferred : Keeps (At (kind :: shape))
      (subsume here.range (inferLambda here params body) expected) Expr.Typed :=
    subsume_keeps _ (inferLambda_keeps here hparams hbody) expected
  dsimp only
  split
  · refine Keeps.ite (fun _ => withScope_keeps ?_) fun _ => hinferred
    refine Keeps.bind (Keeps.mapM fun pair hmem =>
      checkParam_keeps (hparams pair.1 (List.of_mem_zip hmem).1) pair.2) fun _ _ => ?_
    exact Keeps.bind (hbody.check _ _ _) fun _ _ => Keeps.pure rfl
  · exact hinferred

theorem case_keeps (here : Located Name) (pattern : Pattern Name) {body : Judgement}
    (hbody : body.Safe) (scrutinee expected : Ty) :
    Keeps (At shape) (case here pattern body scrutinee expected) fun _ => True := by
  refine withScope_keeps ?_
  refine Keeps.bind (checkPattern_keeps _ _ pattern scrutinee) fun _ _ => ?_
  exact Keeps.bind (hbody.check _ _ _) fun _ _ => Keeps.pure True.intro

theorem Safe.cases (here : Located Name) {scrutinee : Judgement} (hscrutinee : scrutinee.Safe)
    {cases : List (Ty → Ty → Check (Case Attributes))}
    (hcases : ∀ case ∈ cases, ∀ shape matched expected,
      Keeps (At shape) (case matched expected) fun _ => True) :
    (Judgement.cases here scrutinee cases).Safe := by
  have hall (shape : List ScopeKind) (matched expected : Ty) :
      Keeps (At shape) (cases.mapM fun case => case matched expected) fun _ => True :=
    (Keeps.mapM fun case hmem => hcases case hmem shape matched expected).trivial
  refine Safe.ofRules (fun kind shape => ?_) fun kind shape expected => ?_
  · refine Keeps.bind (hscrutinee.infer _ _) fun _ hnode => ?_
    refine Keeps.bind (typeOf_keeps hnode) fun _ _ => ?_
    refine Keeps.bind freshType_keeps fun _ _ => ?_
    exact Keeps.bind (hall _ _ _) fun _ _ => Keeps.pure rfl
  · refine Keeps.bind (hscrutinee.infer _ _) fun _ hnode => ?_
    refine Keeps.bind (typeOf_keeps hnode) fun _ _ => ?_
    exact Keeps.bind (hall _ _ _) fun _ _ => Keeps.pure rfl

theorem applied_keeps (range : Range) (arity : Nat) (function : Ty) :
    Keeps (At (kind :: shape)) (applied range arity function) fun _ => True := by
  have hunknown : Keeps (At (kind :: shape)) (do
      let params ← (List.replicate arity ()).mapM fun _ => freshType
      let result ← freshType
      let expected := Ty.function params result
      let solved ← if function.isUnsolved then
          (Solve.checkSubType function expected : Check Bool)
        else pure false
      if !solved then
        report range (TypeError.mismatchedApplication expected function).message
      pure (params, result)) fun _ => True := by
    refine Keeps.bind (Keeps.mapM fun _ _ => freshType_keeps) fun _ _ => ?_
    refine Keeps.bind freshType_keeps fun _ _ => ?_
    refine Keeps.ite (fun _ => Keeps.bind (checkSubType_keeps _ _) fun _ _ => ?_) fun _ => ?_
    · exact Keeps.whenThen (report_keeps _ _) (Keeps.pure True.intro)
    · have hunsolved : Keeps (At (kind :: shape)) (pure false : Check Bool) fun _ => True :=
        Keeps.pure True.intro
      refine Keeps.bind hunsolved fun _ _ => ?_
      exact Keeps.whenThen (report_keeps _ _) (Keeps.pure True.intro)
  unfold applied
  dsimp only
  split
  · exact Keeps.ite (fun _ => Keeps.pure True.intro) fun _ => hunknown
  · exact hunknown

theorem Safe.apply (here : Located Name) {function : Judgement} (hfunction : function.Safe)
    {args : List Judgement} (hargs : ∀ arg ∈ args, arg.Safe) :
    (apply here function args).Safe := by
  refine Safe.ofInference _ fun kind shape => ?_
  refine Keeps.bind (hfunction.infer _ _) fun _ hnode => ?_
  refine Keeps.bind (typeOf_keeps hnode) fun _ _ => ?_
  refine Keeps.bind (lift_keeps (Solve.instantiatePolymorphic_keeps _)) fun _ _ => ?_
  refine Keeps.bind (applied_keeps _ _ _) fun parts _ => ?_
  have hchecked (pair : Judgement × Ty) (hmem : pair ∈ args.zip parts.1) :
      Keeps (At (kind :: shape)) (pair.1.check pair.2) Expr.Typed :=
    (hargs pair.1 (List.of_mem_zip hmem).1).check _ _ _
  exact Keeps.bind (Keeps.mapM hchecked) fun _ _ => Keeps.pure rfl

theorem Safe.select (here : Located Name) {receiver : Judgement} (hreceiver : receiver.Safe)
    (selection : Reference Name) : (select here receiver selection).Safe := by
  refine Safe.ofInference _ fun kind shape => ?_
  refine Keeps.bind (inferReference_keeps _) fun _ hnode => ?_
  refine Keeps.bind (typeOf_keeps hnode) fun _ _ => ?_
  refine Keeps.bind (lift_keeps (Solve.instantiatePolymorphic_keeps _)) fun _ _ => ?_
  split
  · exact Keeps.bind (hreceiver.check _ _ _) fun _ _ => Keeps.pure rfl
  · refine Keeps.bind (hreceiver.infer _ _) fun _ _ => ?_
    exact Keeps.bind freshType_keeps fun _ _ => Keeps.pure rfl

theorem Safe.reference (node : Reference Name) : (reference node).Safe := by
  refine Safe.ofInference _ fun kind shape => ?_
  exact Keeps.bind (inferReference_keeps _) fun _ hnode => Keeps.pure hnode

theorem sharedOperands_keeps (operand : Operand) {left : Expr Attributes} (hleft : left.Typed)
    {right : Judgement} (hright : right.Safe) :
    Keeps (At (kind :: shape)) (sharedOperands operand left right) fun _ => True := by
  refine Keeps.bind (typeOf_keeps hleft) fun _ _ => ?_
  refine Keeps.bind (acceptsOperand_keeps _ _) fun _ _ => Keeps.ite (fun _ => ?_) fun _ => ?_
  · exact Keeps.bind (hright.check _ _ _) fun _ _ => Keeps.pure True.intro
  · refine Keeps.bind (reportOperand_keeps _ _ _) fun _ _ => ?_
    refine Keeps.bind (hright.infer _ _) fun _ hnode => ?_
    refine Keeps.bind (typeOf_keeps hnode) fun _ _ => ?_
    refine Keeps.bind (acceptsOperand_keeps _ _) fun _ _ => ?_
    refine Keeps.ite (fun _ => Keeps.pure True.intro) fun _ => ?_
    refine Keeps.bind (reportOperand_keeps _ _ _) fun _ _ => ?_
    exact Keeps.bind freshType_keeps fun _ _ => Keeps.pure True.intro

theorem shiftOperands_keeps {left : Expr Attributes} (hleft : left.Typed) {right : Judgement}
    (hright : right.Safe) :
    Keeps (At (kind :: shape)) (shiftOperands left right) fun _ => True := by
  refine Keeps.bind (typeOf_keeps hleft) fun _ _ => ?_
  refine Keeps.bind (acceptsOperand_keeps _ _) fun _ _ => ?_
  refine Keeps.whenThen (reportOperand_keeps _ _ _) ?_
  refine Keeps.bind (hright.infer _ _) fun _ hnode => ?_
  refine Keeps.bind (typeOf_keeps hnode) fun _ _ => ?_
  refine Keeps.bind (acceptsOperand_keeps _ _) fun _ _ => ?_
  refine Keeps.whenThen (reportOperand_keeps _ _ _) ?_
  refine Keeps.ite (fun _ => Keeps.pure True.intro) fun _ => ?_
  exact Keeps.bind freshType_keeps fun _ _ => Keeps.pure True.intro

theorem equalityOperands_keeps (range : Range) {left : Expr Attributes} (hleft : left.Typed)
    {right : Judgement} (hright : right.Safe) :
    Keeps (At (kind :: shape)) (equalityOperands range left right) fun _ => True := by
  refine Keeps.bind (typeOf_keeps hleft) fun _ _ => ?_
  refine Keeps.bind (hright.infer _ _) fun _ hnode => ?_
  refine Keeps.bind (typeOf_keeps hnode) fun _ _ => ?_
  refine Keeps.bind (checkSubType_keeps _ _) fun _ _ => ?_
  refine Keeps.ite (fun _ => ?_) fun _ => Keeps.pure True.intro
  refine Keeps.bind (checkSubType_keeps _ _) fun _ _ => ?_
  refine Keeps.ite (fun _ => ?_) fun _ => Keeps.pure True.intro
  refine Keeps.bind (substituteType_keeps _) fun _ _ => ?_
  refine Keeps.bind (substituteType_keeps _) fun _ _ => ?_
  exact Keeps.bind (report_keeps _ _) fun _ _ => Keeps.pure True.intro

theorem Safe.binary (here : Located Name) (op : BinaryOp) {left right : Judgement}
    (hleft : left.Safe) (hright : right.Safe) : (binary here op left right).Safe := by
  refine Safe.ofInference _ fun kind shape => ?_
  refine Keeps.bind (hleft.infer _ _) fun _ hnode => ?_
  cases op.operandRule with
  | shared operand =>
    exact Keeps.bind (sharedOperands_keeps operand hnode hright) fun _ _ => Keeps.pure rfl
  | shift => exact Keeps.bind (shiftOperands_keeps hnode hright) fun _ _ => Keeps.pure rfl
  | equality =>
    exact Keeps.bind (equalityOperands_keeps _ hnode hright) fun _ _ => Keeps.pure rfl

theorem Safe.unary (here : Located Name) (op : UnaryOp) {operand : Judgement}
    (hoperand : operand.Safe) : (unary here op operand).Safe := by
  refine Safe.ofInference _ fun kind shape => ?_
  refine Keeps.bind (hoperand.infer _ _) fun _ hnode => ?_
  refine Keeps.bind (typeOf_keeps hnode) fun _ _ => ?_
  refine Keeps.bind (acceptsOperand_keeps _ _) fun _ _ => ?_
  refine Keeps.whenThen (reportOperand_keeps _ _ _) ?_
  split
  · exact Keeps.pure rfl
  · refine Keeps.ite (fun _ => Keeps.pure rfl) fun _ => ?_
    exact Keeps.bind freshType_keeps fun _ _ => Keeps.pure rfl

theorem Safe.literal (here : Located Name) (value : Literal) : (literal here value).Safe := by
  refine Safe.ofRules (fun kind shape => Keeps.pure rfl) fun kind shape expected => ?_
  exact Keeps.bind (requireUsable_keeps _ _ _) fun _ _ => Keeps.pure rfl

end Judgement

mutual
/-- The types of well named expressions are found without a fault. -/
theorem Expr.judge_safe : ∀ node : Expr Name, node.Named → node.judge.Safe
  | .block here bindings result, h =>
    .block here
      (fun binding hmem kind shape =>
        (Binding.judgeList_keeps bindings h.1 binding hmem kind shape).trivial)
      (Expr.judgeOption_safe result h.2)
  | .conditional here condition consequent alternative, h =>
    .conditional here (Expr.judge_safe condition h.1) (Expr.judge_safe consequent h.2.1)
      (Expr.judge_safe alternative h.2.2)
  | .lambda here _ body, h => .lambda here h.1 (Expr.judge_safe body h.2)
  | .cases here scrutinee cases, h =>
    .cases here (Expr.judge_safe scrutinee h.1) (Case.judgeList_keeps cases h.2)
  | .apply here function args, h =>
    .apply here (Expr.judge_safe function h.1) (Expr.judgeList_safe args h.2)
  | .select here receiver selection, h => .select here (Expr.judge_safe receiver h) selection
  | .reference node, _ => .reference node
  | .binary here op left right, h =>
    .binary here op (Expr.judge_safe left h.1) (Expr.judge_safe right h.2)
  | .unary here op operand, h => .unary here op (Expr.judge_safe operand h)
  | .literal here value, _ => .literal here value
theorem Expr.judgeOption_safe : ∀ node : Option (Expr Name), Expr.NamedOption node →
    ∀ judgement, Expr.judgeOption node = some judgement → judgement.Safe
  | none, _ => fun _ h => by cases h
  | some node, hnode => fun judgement h => by
    obtain rfl := Option.some.inj h
    exact Expr.judge_safe node hnode
theorem Expr.judgeList_safe : ∀ nodes : List (Expr Name), Expr.NamedList nodes →
    ∀ judgement ∈ Expr.judgeList nodes, judgement.Safe
  | [], _ => by simp [Expr.judgeList]
  | node :: rest, h => by
    intro judgement hmem
    rcases List.mem_cons.1 hmem with rfl | hrest
    · exact Expr.judge_safe node h.1
    · exact Expr.judgeList_safe rest h.2 judgement hrest
theorem Binding.judge_keeps : ∀ node : Binding Name, node.Named → ∀ kind shape,
    Keeps (Checker.At (kind :: shape)) node.judge fun node' => node'.here.info.IsType
  | ⟨here, name, _, value⟩, h => fun _ _ =>
    Judgement.binding_keeps here name h.1 (Expr.judge_safe value h.2)
theorem Binding.judgeList_keeps : ∀ nodes : List (Binding Name), Binding.NamedList nodes →
    ∀ run ∈ Binding.judgeList nodes, ∀ kind shape,
      Keeps (Checker.At (kind :: shape)) run fun node' => node'.here.info.IsType
  | [], _ => by simp [Binding.judgeList]
  | node :: rest, h => by
    intro run hmem
    rcases List.mem_cons.1 hmem with rfl | hrest
    · exact Binding.judge_keeps node h.1
    · exact Binding.judgeList_keeps rest h.2 run hrest
theorem Case.judge_keeps : ∀ node : Case Name, node.Named → ∀ shape matched expected,
    Keeps (Checker.At shape) (node.judge matched expected) fun _ => True
  | ⟨here, pattern, body⟩, h => fun _ _ _ =>
    Judgement.case_keeps here pattern (Expr.judge_safe body h) _ _
theorem Case.judgeList_keeps : ∀ nodes : List (Case Name), Case.NamedList nodes →
    ∀ case ∈ Case.judgeList nodes, ∀ shape matched expected,
      Keeps (Checker.At shape) (case matched expected) fun _ => True
  | [], _ => by simp [Case.judgeList]
  | node :: rest, h => by
    intro case hmem
    rcases List.mem_cons.1 hmem with rfl | hrest
    · exact Case.judge_keeps node h.1
    · exact Case.judgeList_keeps rest h.2 case hrest
end

end PolyFront
