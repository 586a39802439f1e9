import PolyFront.Proofs.Annotation.Types
import PolyFront.Proofs.Dependencies.References
import PolyFront.Proofs.Faultless.Front

/-!
# Checking only annotates

Patterns, expressions and declarations are given back by the check with nothing but a
classifier added to each node.  Together with resolution: the front end neither loses nor
changes a node of a namespace, whatever it reports.
-/

namespace PolyFront

open Run

/-! ## Lists of parts -/

section Parts

variable {α β : Type}

theorem Expr.traverseList_eq (f : α → Id β) (exprs : List (Expr α)) :
    Expr.traverseList f exprs = exprs.mapM (Expr.traverse f) := by
  induction exprs with
  | nil => rfl
  | cons expr rest ih => rw [Expr.traverseList, List.mapM_cons, ih]

theorem Binding.traverseList_eq (f : α → Id β) (bindings : List (Binding α)) :
    Binding.traverseList f bindings = bindings.mapM (Binding.traverse f) := by
  induction bindings with
  | nil => rfl
  | cons binding rest ih => rw [Binding.traverseList, List.mapM_cons, ih]

theorem Case.traverseList_eq (f : α → Id β) (cases : List (Case α)) :
    Case.traverseList f cases = cases.mapM (Case.traverse f) := by
  induction cases with
  | nil => rfl
  | cons case rest ih => rw [Case.traverseList, List.mapM_cons, ih]

end Parts

namespace Check

/-! ## Substitution -/

section Traverse

variable {f : Attributes → Check Attributes}

theorem param_traverse_gives (hf : KeepsName f) (param : Param Attributes) :
    Gives (param.traverse f) fun param' => param'.traverse nameOnly = param.traverse nameOnly := by
  refine Gives.bind (located_traverse_gives hf param.here) fun here hhere => ?_
  refine Gives.bind (option_traverse_gives (typeNode_traverse_gives hf) _) fun node hnode => ?_
  refine Gives.pure ?_
  simp only [Param.traverse, hhere, hnode]

theorem reference_traverse_gives (hf : KeepsName f) (node : Reference Attributes) :
    Gives (node.traverse f) fun node' => node'.traverse nameOnly = node.traverse nameOnly := by
  refine Gives.bind (located_traverse_gives hf node.here) fun here hhere => Gives.pure ?_
  simp only [Reference.traverse, hhere]

mutual
theorem pattern_traverse_gives (hf : KeepsName f) : ∀ pattern : Pattern Attributes,
    Gives (pattern.traverse f) fun pattern' =>
      pattern'.traverse nameOnly = pattern.traverse nameOnly
  | .alias here name inner => by
    refine Gives.bind (located_traverse_gives hf here) fun here' hhere => ?_
    refine Gives.bind (pattern_traverse_gives hf inner) fun inner' hinner => Gives.pure ?_
    simp only [Pattern.traverse, hhere, hinner]
  | .constructor here id fields => by
    refine Gives.bind (located_traverse_gives hf here) fun here' hhere => ?_
    refine Gives.bind (fieldPatterns_traverse_gives hf fields) fun fields' hfields => ?_
    refine Gives.pure ?_
    simp only [Pattern.traverse, hhere, hfields]
  | .id here name => by
    refine Gives.bind (located_traverse_gives hf here) fun here' hhere => Gives.pure ?_
    simp only [Pattern.traverse, hhere]
  | .literal here value => by
    refine Gives.bind (located_traverse_gives hf here) fun here' hhere => Gives.pure ?_
    simp only [Pattern.traverse, hhere]
theorem fieldPattern_traverse_gives (hf : KeepsName f) : ∀ field : FieldPattern Attributes,
    Gives (field.traverse f) fun field' => field'.traverse nameOnly = field.traverse nameOnly
  | ⟨here, field, inner⟩ => by
    refine Gives.bind (located_traverse_gives hf here) fun here' hhere => ?_
    refine Gives.bind (optionalPattern_traverse_gives hf inner) fun inner' hinner => ?_
    refine Gives.pure ?_
    simp only [FieldPattern.traverse, hhere, hinner]
theorem fieldPatterns_traverse_gives (hf : KeepsName f) :
    ∀ fields : List (FieldPattern Attributes),
      Gives (FieldPattern.traverseList f fields) fun fields' =>
        FieldPattern.traverseList nameOnly fields' = FieldPattern.traverseList nameOnly fields
  | [] => Gives.pure rfl
  | field :: rest => by
    refine Gives.bind (fieldPattern_traverse_gives hf field) fun field' hfield => ?_
    refine Gives.bind (fieldPatterns_traverse_gives hf rest) fun rest' hrest => Gives.pure ?_
    simp only [FieldPattern.traverseList, hfield, hrest]
theorem optionalPattern_traverse_gives (hf : KeepsName f) :
    ∀ inner : Option (Pattern Attributes),
      Gives (Pattern.traverseOption f inner) fun inner' =>
        Pattern.traverseOption nameOnly inner' = Pattern.traverseOption nameOnly inner
  | none => Gives.pure rfl
  | some inner => by
    refine Gives.bind (pattern_traverse_gives hf inner) fun inner' hinner => Gives.pure ?_
    simp only [Pattern.traverseOption, hinner]
end

mutual
theorem expr_traverse_gives (hf : KeepsName f) : ∀ expr : Expr Attributes,
    Gives (expr.traverse f) fun expr' => expr'.traverse nameOnly = expr.traverse nameOnly
  | .block here bindings result => by
    refine Gives.bind (located_traverse_gives hf here) fun here' hhere => ?_
    refine Gives.bind (bindings_traverse_gives hf bindings) fun bindings' hbindings => ?_
    refine Gives.bind (optionalExpr_traverse_gives hf result) fun result' hresult => ?_
    refine Gives.pure ?_
    simp only [Expr.traverse, hhere, hbindings, hresult]
  | .conditional here condition consequent alternative => by
    refine Gives.bind (located_traverse_gives hf here) fun here' hhere => ?_
    refine Gives.bind (expr_traverse_gives hf condition) fun condition' hcondition => ?_
    refine Gives.bind (expr_traverse_gives hf consequent) fun consequent' hconsequent => ?_
    refine Gives.bind (expr_traverse_gives hf alternative) fun alternative' halternative => ?_
    refine Gives.pure ?_
    simp only [Expr.traverse, hhere, hcondition, hconsequent, halternative]
  | .lambda here params body => by
    refine Gives.bind (located_traverse_gives hf here) fun here' hhere => ?_
    refine Gives.bind (Gives.mapM_of (param_traverse_gives hf) params) fun params' hparams => ?_
    refine Gives.bind (expr_traverse_gives hf body) fun body' hbody => Gives.pure ?_
    simp only [Expr.traverse, hhere, hparams, hbody]
  | .cases here scrutinee cases => by
    refine Gives.bind (located_traverse_gives hf here) fun here' hhere => ?_
    refine Gives.bind (expr_traverse_gives hf scrutinee) fun scrutinee' hscrutinee => ?_
    refine Gives.bind (caseList_traverse_gives hf cases) fun cases' hcases => Gives.pure ?_
    simp only [Expr.traverse, hhere, hscrutinee, hcases]
  | .apply here function args => by
    refine Gives.bind (located_traverse_gives hf here) fun here' hhere => ?_
    refine Gives.bind (expr_traverse_gives hf function) fun function' hfunction => ?_
    refine Gives.bind (exprs_traverse_gives hf args) fun args' hargs => Gives.pure ?_
    simp only [Expr.traverse, hhere, hfunction, hargs]
  | .select here receiver selection => by
    refine Gives.bind (located_traverse_gives hf here) fun here' hhere => ?_
    refine Gives.bind (expr_traverse_gives hf receiver) fun receiver' hreceiver => ?_
    refine Gives.bind (reference_traverse_gives hf selection) fun selection' hselection => ?_
    refine Gives.pure ?_
    simp only [Expr.traverse, hhere, hreceiver, hselection]
  | .reference node => by
    refine Gives.bind (reference_traverse_gives hf node) fun node' hnode => Gives.pure ?_
    simp only [Expr.traverse, hnode]
  | .binary here op left right => by
    refine Gives.bind (located_traverse_gives hf here) fun here' hhere => ?_
    refine Gives.bind (expr_traverse_gives hf left) fun left' hleft => ?_
    refine Gives.bind (expr_traverse_gives hf right) fun right' hright => Gives.pure ?_
    simp only [Expr.traverse, hhere, hleft, hright]
  | .unary here op operand => by
    refine Gives.bind (located_traverse_gives hf here) fun here' hhere => ?_
    refine Gives.bind (expr_traverse_gives hf operand) fun operand' hoperand => Gives.pure ?_
    simp only [Expr.traverse, hhere, hoperand]
  | .literal here value => by
    refine Gives.bind (located_traverse_gives hf here) fun here' hhere => Gives.pure ?_
    simp only [Expr.traverse, hhere]
theorem optionalExpr_traverse_gives (hf : KeepsName f) : ∀ expr : Option (Expr Attributes),
    Gives (Expr.traverseOption f expr) fun expr' =>
      Expr.traverseOption nameOnly expr' = Expr.traverseOption nameOnly expr
  | none => Gives.pure rfl
  | some expr => by
    refine Gives.bind (expr_traverse_gives hf expr) fun expr' hexpr => Gives.pure ?_
    simp only [Expr.traverseOption, hexpr]
theorem exprs_traverse_gives (hf : KeepsName f) : ∀ exprs : List (Expr Attributes),
    Gives (Expr.traverseList f exprs) fun exprs' =>
      Expr.traverseList nameOnly exprs' = Expr.traverseList nameOnly exprs
  | [] => Gives.pure rfl
  | expr :: rest => by
    refine Gives.bind (expr_traverse_gives hf expr) fun expr' hexpr => ?_
    refine Gives.bind (exprs_traverse_gives hf rest) fun rest' hrest => Gives.pure ?_
    simp only [Expr.traverseList, hexpr, hrest]
theorem binding_traverse_gives (hf : KeepsName f) : ∀ binding : Binding Attributes,
    Gives (binding.traverse f) fun binding' =>
      binding'.traverse nameOnly = binding.traverse nameOnly
  | ⟨here, name, node, value⟩ => by
    refine Gives.bind (located_traverse_gives hf here) fun here' hhere => ?_
    refine Gives.bind (option_traverse_gives (typeNode_traverse_gives hf) node) ?_
    intro node' hnode
    refine Gives.bind (expr_traverse_gives hf value) fun value' hvalue => Gives.pure ?_
    simp only [Binding.traverse, hhere, hnode, hvalue]
theorem bindings_traverse_gives (hf : KeepsName f) : ∀ bindings : List (Binding Attributes),
    Gives (Binding.traverseList f bindings) fun bindings' =>
      Binding.traverseList nameOnly bindings' = Binding.traverseList nameOnly bindings
  | [] => Gives.pure rfl
  | binding :: rest => by
    refine Gives.bind (binding_traverse_gives hf binding) fun binding' hbinding => ?_
    refine Gives.bind (bindings_traverse_gives hf rest) fun rest' hrest => Gives.pure ?_
    simp only [Binding.traverseList, hbinding, hrest]
theorem case_traverse_gives (hf : KeepsName f) : ∀ case : Case Attributes,
    Gives (case.traverse f) fun case' => case'.traverse nameOnly = case.traverse nameOnly
  | ⟨here, pattern, body⟩ => by
    refine Gives.bind (located_traverse_gives hf here) fun here' hhere => ?_
    refine Gives.bind (pattern_traverse_gives hf pattern) fun pattern' hpattern => ?_
    refine Gives.bind (expr_traverse_gives hf body) fun body' hbody => Gives.pure ?_
    simp only [Case.traverse, hhere, hpattern, hbody]
theorem caseList_traverse_gives (hf : KeepsName f) : ∀ cases : List (Case Attributes),
    Gives (Case.traverseList f cases) fun cases' =>
      Case.traverseList nameOnly cases' = Case.traverseList nameOnly cases
  | [] => Gives.pure rfl
  | case :: rest => by
    refine Gives.bind (case_traverse_gives hf case) fun case' hcase => ?_
    refine Gives.bind (caseList_traverse_gives hf rest) fun rest' hrest => Gives.pure ?_
    simp only [Case.traverseList, hcase, hrest]
end

theorem constructorParam_traverse_gives (hf : KeepsName f)
    (param : ConstructorParam Attributes) :
    Gives (param.traverse f) fun param' => param'.traverse nameOnly = param.traverse nameOnly := by
  refine Gives.bind (located_traverse_gives hf param.here) fun here hhere => ?_
  refine Gives.bind (typeNode_traverse_gives hf param.ascription) fun node hnode => Gives.pure ?_
  simp only [ConstructorParam.traverse, hhere, hnode]

theorem constructor_traverse_gives (hf : KeepsName f) (node : Constructor Attributes) :
    Gives (node.traverse f) fun node' => node'.traverse nameOnly = node.traverse nameOnly := by
  refine Gives.bind (located_traverse_gives hf node.here) fun here hhere => ?_
  refine Gives.bind (Gives.mapM_of (constructorParam_traverse_gives hf) node.params) ?_
  intro params hparams
  refine Gives.bind (option_traverse_gives (typeNode_traverse_gives hf) node.result) ?_
  intro result hresult
  refine Gives.pure ?_
  simp only [Constructor.traverse, hhere, hparams, hresult]

theorem data_traverse_gives (hf : KeepsName f) (node : Data Attributes) :
    Gives (node.traverse f) fun node' => node'.traverse nameOnly = node.traverse nameOnly := by
  refine Gives.bind (located_traverse_gives hf node.here) fun here hhere => ?_
  refine Gives.bind (Gives.mapM_of (typeVarNode_traverse_gives hf) node.typeParams) ?_
  intro typeParams htypeParams
  refine Gives.bind (Gives.mapM_of (constructor_traverse_gives hf) node.constructors) ?_
  intro constructors hconstructors
  refine Gives.pure ?_
  simp only [Data.traverse, hhere, htypeParams, hconstructors]

theorem functionBinding_traverse_gives (hf : KeepsName f) (node : FunctionBinding Attributes) :
    Gives (node.traverse f) fun node' => node'.traverse nameOnly = node.traverse nameOnly := by
  refine Gives.bind (located_traverse_gives hf node.here) fun here hhere => ?_
  refine Gives.bind (Gives.mapM_of (typeVarNode_traverse_gives hf) node.typeParams) ?_
  intro typeParams htypeParams
  refine Gives.bind (Gives.mapM_of (param_traverse_gives hf) node.params) fun params hparams => ?_
  refine Gives.bind (option_traverse_gives (typeNode_traverse_gives hf) node.result) ?_
  intro result hresult
  refine Gives.bind (expr_traverse_gives hf node.body) fun body hbody => Gives.pure ?_
  simp only [FunctionBinding.traverse, hhere, htypeParams, hparams, hresult, hbody]

theorem declaration_traverse_gives (hf : KeepsName f) (node : Declaration Attributes) :
    Gives (node.traverse f) fun node' => node'.erased = node.erased := by
  cases node with
  | data d =>
    refine Gives.bind (data_traverse_gives hf d) fun d' hd => Gives.pure ?_
    simp only [Declaration.erased, Declaration.traverse, hd]
  | binding d =>
    refine Gives.bind (binding_traverse_gives hf d) fun d' hd => Gives.pure ?_
    simp only [Declaration.erased, Declaration.traverse, hd]
  | function d =>
    refine Gives.bind (functionBinding_traverse_gives hf d) fun d' hd => Gives.pure ?_
    simp only [Declaration.erased, Declaration.traverse, hd]

end Traverse

/-! ## Parameters and patterns -/

theorem ascriptionOrFresh_gives (node : Option (TypeNode Name)) :
    Gives (ascriptionOrFresh node) fun checked =>
      traverseOption (TypeNode.traverse nameOnly) checked.1 = node := by
  cases node with
  | none => exact Gives.skip fun _ => Gives.pure rfl
  | some node =>
    refine Gives.bind (ascription_gives node) fun checked hchecked => Gives.pure ?_
    rw [traverseOption, hchecked]
    rfl

theorem inferParam_gives : ∀ param : Param Name,
    Gives (inferParam param) fun param' => param'.traverse nameOnly = param
  | ⟨here, name, node⟩ => by
    refine Gives.bind (ascriptionOrFresh_gives node) fun checked hchecked => ?_
    refine Gives.skip fun _ => Gives.pure ?_
    rw [Param.traverse, hchecked]
    rfl

theorem checkParam_gives (expected : Ty) : ∀ param : Param Name,
    Gives (checkParam param expected) fun param' => param'.traverse nameOnly = param
  | ⟨here, name, node⟩ => by
    have hbound (checked : Option (TypeNode Attributes) × Ty)
        (hchecked : traverseOption (TypeNode.traverse nameOnly) checked.1 = node) :
        Gives (do
          Solve.putValue name (typed here checked.2)
          pure ⟨typed here checked.2, name, checked.1⟩ : Check (Param Attributes))
        fun param' => param'.traverse nameOnly = ⟨here, name, node⟩ := by
      refine Gives.skip fun _ => Gives.pure ?_
      rw [Param.traverse, hchecked]
      rfl
    cases node with
    | none => exact hbound (none, expected) rfl
    | some node =>
      refine Gives.bind (ascription_gives node) fun checked hchecked => Gives.skip fun _ => ?_
      refine hbound (some checked.1, checked.2) ?_
      rw [traverseOption, hchecked]
      rfl

theorem inferReference_gives (node : Reference Name) :
    Gives (inferReference node) fun node' => node'.traverse nameOnly = node :=
  Gives.skip fun _ => Gives.pure rfl

mutual
theorem checkPattern_gives : ∀ (pattern : Pattern Name) (expected : Ty),
    Gives (checkPattern pattern expected) fun pattern' => pattern'.traverse nameOnly = pattern
  | .id here name, expected => Gives.skip fun _ => Gives.pure rfl
  | .alias here name inner, expected => by
    refine Gives.bind (checkPattern_gives inner expected) fun inner' hinner => ?_
    refine Gives.skip fun _ => Gives.pure ?_
    rw [Pattern.traverse, hinner]
    rfl
  | .literal here value, expected => Gives.skip fun _ => Gives.pure rfl
  | .constructor here id fields, expected => by
    refine Gives.skip fun matched => ?_
    refine Gives.bind (checkFieldPatterns_gives _ _ fields) fun fields' hfields => Gives.pure ?_
    rw [Pattern.traverse, hfields]
    rfl
theorem checkFieldPattern_gives (owner : Name) (assignment : Table String Ty) :
    ∀ field : FieldPattern Name, Gives (checkFieldPattern owner assignment field)
      fun field' => field'.traverse nameOnly = field
  | ⟨_, field, inner⟩ => Gives.skip fun _ => checkOptionalPattern_gives rfl field inner
theorem checkOptionalPattern_gives {here : Located Attributes} {bare : Located Name}
    (hhere : here.traverse nameOnly = bare) (field : String) :
    ∀ inner : Option (Pattern Name), Gives (checkOptionalPattern here field inner)
      fun field' => field'.traverse nameOnly = ⟨bare, field, inner⟩
  | none => by
    refine Gives.skip fun _ => Gives.pure ?_
    rw [FieldPattern.traverse, hhere]
    rfl
  | some inner => by
    refine Gives.skip fun type => ?_
    refine Gives.bind (checkPattern_gives inner _) fun inner' hinner => Gives.pure ?_
    rw [FieldPattern.traverse, hhere, Pattern.traverseOption, hinner]
    rfl
theorem checkFieldPatterns_gives (owner : Name) (assignment : Table String Ty) :
    ∀ fields : List (FieldPattern Name), Gives (checkFieldPatterns owner assignment fields)
      fun fields' => FieldPattern.traverseList nameOnly fields' = fields
  | [] => Gives.pure rfl
  | field :: rest => by
    refine Gives.bind (checkFieldPattern_gives owner assignment field) fun field' hfield => ?_
    refine Gives.bind (checkFieldPatterns_gives owner assignment rest) fun rest' hrest => ?_
    refine Gives.pure ?_
    rw [FieldPattern.traverseList, hfield, hrest]
    rfl
end

/-! ## Quantifiers -/

section Quantifiers

variable {check : Ty → Check (Expr Attributes)} {expr : Expr Name}

theorem underQuantifiersWithin_gives
    (h : ∀ expected, Gives (check expected) fun expr' => expr'.traverse nameOnly = expr) :
    ∀ (fuel : Nat) (expected : Ty), Gives (underQuantifiersWithin check fuel expected)
      fun expr' => expr'.traverse nameOnly = expr
  | 0, expected => Gives.skip fun _ => h _
  | fuel + 1, expected => by
    refine Gives.skip fun expected => ?_
    split
    · refine withScope_gives (Gives.skip fun body => ?_)
      refine Gives.bind (underQuantifiersWithin_gives h fuel body) fun expr' hexpr => ?_
      exact (expr_traverse_gives keepsName_substitute expr').mono fun _ h => h.trans hexpr
    · exact h _

theorem underQuantifiers_gives
    (h : ∀ expected, Gives (check expected) fun expr' => expr'.traverse nameOnly = expr)
    (expected : Ty) :
    Gives (underQuantifiers check expected) fun expr' => expr'.traverse nameOnly = expr :=
  Gives.skip fun _ => underQuantifiersWithin_gives h _ _

end Quantifiers

end Check

/-! ## Expressions -/

/-- Both ways of typing give back the expression. -/
structure Judgement.Preserves (judgement : Judgement) (expr : Expr Name) : Prop where
  infer : Gives judgement.infer fun expr' => expr'.traverse nameOnly = expr
  check : ∀ type, Gives (judgement.check type) fun expr' => expr'.traverse nameOnly = expr

namespace Judgement

open Check

variable {here : Located Name} {expr : Expr Name}

theorem subsume_gives {range : Range} {infer : Check (Expr Attributes)}
    (h : Gives infer fun expr' => expr'.traverse nameOnly = expr) (expected : Ty) :
    Gives (subsume range infer expected) fun expr' => expr'.traverse nameOnly = expr :=
  Gives.bind h fun _ hexpr => Gives.skip fun _ => Gives.skip fun _ => Gives.pure hexpr

theorem preserves_ofRules {infer : Check (Expr Attributes)} {check : Ty → Check (Expr Attributes)}
    (hinfer : Gives infer fun expr' => expr'.traverse nameOnly = expr)
    (hcheck : ∀ type, Gives (check type) fun expr' => expr'.traverse nameOnly = expr) :
    (ofRules infer check).Preserves expr :=
  ⟨hinfer, underQuantifiers_gives hcheck⟩

theorem preserves_ofInference {range : Range} {infer : Check (Expr Attributes)}
    (h : Gives infer fun expr' => expr'.traverse nameOnly = expr) :
    (ofInference range infer).Preserves expr :=
  preserves_ofRules h (subsume_gives h)

theorem binding_gives {value : Judgement} (hvalue : value.Preserves expr) (name : String)
    (node : Option (TypeNode Name)) :
    Gives (binding here name node value) fun binding' =>
      binding'.traverse nameOnly = ⟨here, name, node, expr⟩ := by
  cases node with
  | none =>
    refine Gives.bind hvalue.infer fun value' hvalue' => Gives.skip fun type => ?_
    refine Gives.skip fun _ => Gives.pure ?_
    rw [Binding.traverse, hvalue']
    rfl
  | some node =>
    refine Gives.bind (ascription_gives node) fun checked hchecked => ?_
    have hrest : ∀ value' : Expr Attributes, value'.traverse nameOnly = expr →
        Binding.traverse nameOnly ⟨typed here checked.2, name, some checked.1, value'⟩ =
          (⟨here, name, some node, expr⟩ : Binding Name) := by
      intro value' hvalue'
      rw [Binding.traverse, traverseOption, hchecked, hvalue']
      rfl
    by_cases htop : here.info.declaration?.isSome
    · simp only [htop, if_true, Bool.not_true, Bool.false_eq_true, if_false]
      refine Gives.skip fun _ => Gives.bind (hvalue.check _) fun value' hvalue' => ?_
      exact Gives.pure (hrest value' hvalue')
    · simp only [htop, Bool.false_eq_true, if_false, Bool.not_false, if_true]
      refine Gives.bind (hvalue.check _) fun value' hvalue' => Gives.skip fun _ => ?_
      exact Gives.pure (hrest value' hvalue')

theorem preserves_block {bindings : List (Check (Binding Attributes))}
    {written : List (Binding Name)}
    {result : Option Judgement} {value : Option (Expr Name)}
    (hbindings : List.Forall₂ (fun run node => Gives run fun node' =>
      node'.traverse nameOnly = node) bindings written)
    (hresult : Option.Rel Preserves result value) :
    (block here bindings result).Preserves (.block here written value) := by
  have hall : Gives (bindings.mapM id) fun bindings' =>
      Binding.traverseList nameOnly bindings' = written :=
    (Gives.mapM_goals hbindings).mono fun _ h => (Binding.traverseList_eq _ _).trans h
  refine preserves_ofRules (withScope_gives ?_) fun expected => withScope_gives ?_
  · refine Gives.bind hall fun bindings' hbindings' => ?_
    cases hresult with
    | none =>
      refine Gives.pure ?_
      rw [Expr.traverse, hbindings']
      rfl
    | some hvalue =>
      refine Gives.bind hvalue.infer fun value' hvalue' => Gives.skip fun _ => Gives.pure ?_
      rw [Expr.traverse, hbindings', Expr.traverseOption, hvalue']
      rfl
  · refine Gives.bind hall fun bindings' hbindings' => ?_
    cases hresult with
    | none =>
      refine Gives.skip fun _ => Gives.pure ?_
      rw [Expr.traverse, hbindings']
      rfl
    | some hvalue =>
      refine Gives.bind (hvalue.check _) fun value' hvalue' => Gives.pure ?_
      rw [Expr.traverse, hbindings', Expr.traverseOption, hvalue']
      rfl

theorem preserves_conditional {condition consequent alternative : Judgement}
    {first second third : Expr Name} (hcondition : condition.Preserves first)
    (hconsequent : consequent.Preserves second) (halternative : alternative.Preserves third) :
    (conditional here condition consequent alternative).Preserves
      (.conditional here first second third) := by
  refine preserves_ofRules ?_ fun expected => ?_
  · refine Gives.bind (hcondition.check _) fun condition' hcondition' => Gives.skip fun type => ?_
    refine Gives.bind (hconsequent.check _) fun consequent' hconsequent' => ?_
    refine Gives.bind (halternative.check _) fun alternative' halternative' => Gives.pure ?_
    rw [Expr.traverse, hcondition', hconsequent', halternative']
    rfl
  · refine Gives.bind (hcondition.check _) fun condition' hcondition' => ?_
    refine Gives.bind (hconsequent.check _) fun consequent' hconsequent' => ?_
    refine Gives.bind (halternative.check _) fun alternative' halternative' => Gives.pure ?_
    rw [Expr.traverse, hcondition', hconsequent', halternative']
    rfl

theorem inferLambda_gives {body : Judgement} (hbody : body.Preserves expr)
    (params : List (Param Name)) :
    Gives (inferLambda here params body) fun expr' =>
      expr'.traverse nameOnly = .lambda here params expr := by
  refine withScope_gives ?_
  refine Gives.bind (Gives.mapM fun param _ => inferParam_gives param) fun params' hparams => ?_
  refine Gives.bind hbody.infer fun body' hbody' => Gives.skip fun _ => Gives.skip fun _ => ?_
  refine Gives.pure ?_
  rw [Expr.traverse, hparams, hbody']
  rfl

theorem preserves_lambda {body : Judgement} (hbody : body.Preserves expr)
    (params : List (Param Name)) :
    (lambda here params body).Preserves (.lambda here params expr) := by
  refine preserves_ofRules (inferLambda_gives hbody params) fun expected => ?_
  have hsubsumed : Gives (subsume here.range (inferLambda here params body) expected)
      fun expr' => expr'.traverse nameOnly = .lambda here params expr :=
    subsume_gives (inferLambda_gives hbody params) expected
  dsimp only
  split
  · refine Gives.ite (fun hlength => withScope_gives ?_) fun _ => hsubsumed
    refine Gives.bind (Gives.mapM_zip (List.forall₂_same.2 fun param _ type =>
      checkParam_gives type param) hlength) fun params' hparams => ?_
    refine Gives.bind (hbody.check _) fun body' hbody' => Gives.pure ?_
    rw [Expr.traverse, hparams, hbody']
    rfl
  · exact hsubsumed

theorem case_gives {body : Judgement} (hbody : body.Preserves expr) (pattern : Pattern Name)
    (scrutinee expected : Ty) :
    Gives (case here pattern body scrutinee expected) fun case' =>
      case'.traverse nameOnly = ⟨here, pattern, expr⟩ := by
  refine withScope_gives ?_
  refine Gives.bind (checkPattern_gives pattern _) fun pattern' hpattern => ?_
  refine Gives.bind (hbody.check _) fun body' hbody' => Gives.pure ?_
  rw [Case.traverse, hpattern, hbody']
  rfl

theorem preserves_cases {scrutinee : Judgement} (hscrutinee : scrutinee.Preserves expr)
    {cases : List (Ty → Ty → Check (Case Attributes))} {written : List (Case Name)}
    (hcases : List.Forall₂ (fun case node => ∀ matched type, Gives (case matched type)
      fun node' => node'.traverse nameOnly = node) cases written) :
    (Judgement.cases here scrutinee cases).Preserves (.cases here expr written) := by
  have hall (matched type : Ty) : Gives (cases.mapM fun case => case matched type) fun cases' =>
      Case.traverseList nameOnly cases' = written :=
    (Gives.mapM_goals (hcases.imp fun _ _ h => h matched type)).mono fun _ h =>
      (Case.traverseList_eq _ _).trans h
  refine preserves_ofRules ?_ fun expected => ?_
  · refine Gives.bind hscrutinee.infer fun scrutinee' hscrutinee' => ?_
    refine Gives.skip fun matched => Gives.skip fun type => ?_
    refine Gives.bind (hall matched type) fun cases' hcases' => Gives.pure ?_
    rw [Expr.traverse, hscrutinee', hcases']
    rfl
  · refine Gives.bind hscrutinee.infer fun scrutinee' hscrutinee' => Gives.skip fun matched => ?_
    refine Gives.bind (hall matched expected) fun cases' hcases' => Gives.pure ?_
    rw [Expr.traverse, hscrutinee', hcases']
    rfl

/-- There are as many parameter types as arguments. -/
theorem applied_gives (range : Range) (arity : Nat) (function : Ty) :
    Gives (applied range arity function) fun types => types.1.length = arity := by
  have hunknown : Gives (do
      let params ← (List.replicate arity ()).mapM fun _ => freshType
      let result ← freshType
      let expected := Ty.function params result
      let solved ← if function.isUnsolved then
          (Solve.checkSubType function expected : Check Bool)
        else pure false
      if !solved then
        report range (TypeError.mismatchedApplication expected function).message
      pure (params, result)) fun types => types.1.length = arity := by
    refine Gives.bind (Gives.length_replicate _ arity) fun params hparams => ?_
    refine Gives.skip fun result => ?_
    refine Gives.ite (fun _ => Gives.skip fun _ => ?_) fun _ => Gives.skip fun _ => ?_
    · exact Gives.whenThen (Gives.pure hparams)
    · exact Gives.whenThen (Gives.pure hparams)
  unfold applied
  dsimp only
  split
  · exact Gives.ite (fun hlength => Gives.pure hlength) fun _ => hunknown
  · exact hunknown

theorem preserves_apply {function : Judgement} (hfunction : function.Preserves expr)
    {args : List Judgement} {exprs : List (Expr Name)} (hargs : List.Forall₂ Preserves args exprs) :
    (apply here function args).Preserves (.apply here expr exprs) := by
  refine preserves_ofInference ?_
  refine Gives.bind hfunction.infer fun function' hfunction' => ?_
  refine Gives.skip fun _ => Gives.skip fun type => ?_
  refine Gives.bind (applied_gives _ _ _) fun types htypes => ?_
  refine Gives.bind (Gives.mapM_zip (hargs.imp fun _ _ harg => harg.check) htypes) ?_
  intro args' hargs'
  refine Gives.pure ?_
  rw [Expr.traverse, hfunction', Expr.traverseList_eq, hargs']
  rfl

theorem preserves_select {receiver : Judgement} (hreceiver : receiver.Preserves expr)
    (selection : Reference Name) :
    (select here receiver selection).Preserves (.select here expr selection) := by
  refine preserves_ofInference ?_
  refine Gives.bind (inferReference_gives selection) fun selection' hselection => ?_
  refine Gives.skip fun _ => Gives.skip fun selected => ?_
  split
  · refine Gives.bind (hreceiver.check _) fun receiver' hreceiver' => Gives.pure ?_
    rw [Expr.traverse, hreceiver', hselection]
    rfl
  · refine Gives.bind hreceiver.infer fun receiver' hreceiver' => Gives.skip fun _ => ?_
    refine Gives.pure ?_
    rw [Expr.traverse, hreceiver', hselection]
    rfl

theorem preserves_reference (node : Reference Name) : (reference node).Preserves
    (.reference node) := by
  refine preserves_ofInference ?_
  refine Gives.bind (inferReference_gives node) fun node' hnode => Gives.pure ?_
  rw [Expr.traverse, hnode]
  rfl

theorem sharedOperands_gives {right : Judgement} (h : right.Preserves expr) (operand : Operand)
    (left : Expr Attributes) :
    Gives (sharedOperands operand left right) fun operands =>
      operands.1.traverse nameOnly = expr := by
  refine Gives.skip fun _ => Gives.skip fun _ => ?_
  refine Gives.ite (fun _ => ?_) fun _ => Gives.skip fun _ => ?_
  · exact Gives.bind (h.check _) fun _ hright => Gives.pure hright
  · refine Gives.bind h.infer fun right' hright => Gives.skip fun _ => Gives.skip fun _ => ?_
    refine Gives.ite (fun _ => Gives.pure hright) fun _ => ?_
    exact Gives.skip fun _ => Gives.skip fun _ => Gives.pure hright

theorem shiftOperands_gives {right : Judgement} (h : right.Preserves expr)
    (left : Expr Attributes) :
    Gives (shiftOperands left right) fun operands => operands.1.traverse nameOnly = expr := by
  refine Gives.skip fun _ => Gives.skip fun _ => Gives.whenThen ?_
  refine Gives.bind h.infer fun right' hright => Gives.skip fun _ => Gives.skip fun _ => ?_
  refine Gives.whenThen (Gives.ite (fun _ => Gives.pure hright) fun _ => ?_)
  exact Gives.skip fun _ => Gives.pure hright

theorem equalityOperands_gives {right : Judgement} (h : right.Preserves expr) (range : Range)
    (left : Expr Attributes) :
    Gives (equalityOperands range left right) fun operands =>
      operands.1.traverse nameOnly = expr := by
  refine Gives.skip fun _ => Gives.bind h.infer fun right' hright => Gives.skip fun _ => ?_
  refine Gives.skip fun _ => Gives.ite (fun _ => ?_) fun _ => Gives.pure hright
  refine Gives.skip fun _ => Gives.ite (fun _ => ?_) fun _ => Gives.pure hright
  exact Gives.skip fun _ => Gives.skip fun _ => Gives.skip fun _ => Gives.pure hright

theorem preserves_binary {left right : Judgement} {first second : Expr Name}
    (hleft : left.Preserves first) (hright : right.Preserves second) (op : BinaryOp) :
    (binary here op left right).Preserves (.binary here op first second) := by
  refine preserves_ofInference (Gives.bind hleft.infer fun left' hleft' => ?_)
  have hboth (type : Ty) {right' : Expr Attributes} (hright' : right'.traverse nameOnly = second) :
      (Expr.binary (typed here type) op left' right').traverse nameOnly =
        (.binary here op first second : Expr Name) := by
    rw [Expr.traverse, hleft', hright']
    rfl
  cases op.operandRule with
  | shared operand =>
    exact Gives.bind (sharedOperands_gives hright operand left') fun _ h =>
      Gives.pure (hboth _ h)
  | shift => exact Gives.bind (shiftOperands_gives hright left') fun _ h => Gives.pure (hboth _ h)
  | equality =>
    exact Gives.bind (equalityOperands_gives hright _ left') fun _ h => Gives.pure (hboth _ h)

theorem preserves_unary {operand : Judgement} (h : operand.Preserves expr) (op : UnaryOp) :
    (unary here op operand).Preserves (.unary here op expr) := by
  refine preserves_ofInference (Gives.bind h.infer fun operand' hoperand => ?_)
  have hwhole (type : Ty) : (Expr.unary (typed here type) op operand').traverse nameOnly =
      (.unary here op expr : Expr Name) := by
    rw [Expr.traverse, hoperand]
    rfl
  refine Gives.skip fun _ => Gives.skip fun _ => Gives.whenThen ?_
  split
  · exact Gives.pure (hwhole _)
  · refine Gives.ite (fun _ => Gives.pure (hwhole _)) fun _ => ?_
    exact Gives.skip fun _ => Gives.pure (hwhole _)

theorem preserves_literal (value : Literal) : (literal here value).Preserves
    (.literal here value) :=
  preserves_ofRules (Gives.pure rfl) fun _ => Gives.skip fun _ => Gives.pure rfl

end Judgement

mutual
theorem Expr.judge_preserves : ∀ node : Expr Name, node.judge.Preserves node
  | .block _ bindings result =>
    Judgement.preserves_block (Binding.judgeList_gives bindings) (Expr.judgeOption_preserves result)
  | .conditional _ condition consequent alternative =>
    Judgement.preserves_conditional condition.judge_preserves consequent.judge_preserves
      alternative.judge_preserves
  | .lambda _ params body => Judgement.preserves_lambda body.judge_preserves params
  | .cases _ scrutinee cases =>
    Judgement.preserves_cases scrutinee.judge_preserves (Case.judgeList_gives cases)
  | .apply _ function args =>
    Judgement.preserves_apply function.judge_preserves (Expr.judgeList_preserves args)
  | .select _ receiver selection => Judgement.preserves_select receiver.judge_preserves selection
  | .reference node => Judgement.preserves_reference node
  | .binary _ op left right =>
    Judgement.preserves_binary left.judge_preserves right.judge_preserves op
  | .unary _ op operand => Judgement.preserves_unary operand.judge_preserves op
  | .literal _ value => Judgement.preserves_literal value
theorem Expr.judgeOption_preserves : ∀ node : Option (Expr Name),
    Option.Rel Judgement.Preserves (Expr.judgeOption node) node
  | none => .none
  | some node => .some node.judge_preserves
theorem Expr.judgeList_preserves : ∀ nodes : List (Expr Name),
    List.Forall₂ Judgement.Preserves (Expr.judgeList nodes) nodes
  | [] => .nil
  | node :: rest => .cons node.judge_preserves (Expr.judgeList_preserves rest)
theorem Binding.judge_gives : ∀ node : Binding Name,
    Gives node.judge fun node' => node'.traverse nameOnly = node
  | ⟨_, name, node, value⟩ => Judgement.binding_gives value.judge_preserves name node
theorem Binding.judgeList_gives : ∀ nodes : List (Binding Name),
    List.Forall₂ (fun run node => Gives run fun node' => node'.traverse nameOnly = node)
      (Binding.judgeList nodes) nodes
  | [] => .nil
  | node :: rest => .cons node.judge_gives (Binding.judgeList_gives rest)
theorem Case.judge_gives : ∀ (node : Case Name) (matched type : Ty),
    Gives (node.judge matched type) fun node' => node'.traverse nameOnly = node
  | ⟨_, pattern, body⟩, matched, type =>
    Judgement.case_gives body.judge_preserves pattern matched type
theorem Case.judgeList_gives : ∀ nodes : List (Case Name),
    List.Forall₂ (fun case node => ∀ matched type, Gives (case matched type) fun node' =>
      node'.traverse nameOnly = node) (Case.judgeList nodes) nodes
  | [] => .nil
  | node :: rest => .cons node.judge_gives (Case.judgeList_gives rest)
end

/-! ## Declarations -/

namespace Check

theorem checkResultTypes_gives {P : Data Attributes → Prop} {data : Data Attributes}
    (h : P data) : Gives (do
      match data.here.info.name with
      | .data name => data.constructors.forM (checkResultType data name)
      | _ => pure ()
      pure data) P := by
  split
  · exact Gives.skip fun _ => Gives.pure h
  · exact Gives.pure h

theorem inferDataDeclaration_gives (node : Data Name) :
    Gives (inferDataDeclaration node) fun node' => node'.traverse nameOnly = node := by
  refine Gives.skip fun _ => Gives.bind (inferData_gives node) fun data hdata => ?_
  have hresults := checkResultTypes_gives
    (P := fun node' => node'.traverse nameOnly = node) hdata
  dsimp only
  split
  · refine Gives.skip fun _ => Gives.skip fun _ => Gives.ite (fun _ => ?_) fun _ => hresults
    exact Gives.skip fun _ => Gives.skip fun _ => hresults
  · exact hresults

/-- The parts of a checked function, put together, are the one that was resolved. -/
theorem inferFunction_gives (node : FunctionBinding Name) :
    Gives (inferFunction node) fun node' => node'.traverse nameOnly = node := by
  unfold inferFunction
  split
  · refine Gives.bind (?_ : Gives _ fun parts => FunctionBinding.traverse nameOnly
      ⟨parts.1, node.name, parts.2.1, parts.2.2.1, parts.2.2.2.1, parts.2.2.2.2⟩ = node)
      fun _ hparts => Gives.skip fun _ => Gives.pure hparts
    refine withScope_gives ?_
    refine Gives.bind (Gives.mapM fun var _ => inferTypeVar_gives var) fun vars hvars => ?_
    refine withScope_gives ?_
    refine Gives.bind (Gives.mapM fun param _ => inferParam_gives param) ?_
    intro params hparams
    refine Gives.bind (ascriptionOrFresh_gives node.result) fun checked hchecked => ?_
    refine Gives.skip fun _ => Gives.skip fun _ => ?_
    have hbody {body : Expr Attributes} (hbody : body.traverse nameOnly = node.body) :
        Gives (do
          let type ← functionType vars params (← typeOf body.here)
          pure (typed node.here type, vars, params, checked.1, body)) fun parts =>
            FunctionBinding.traverse nameOnly
              ⟨parts.1, node.name, parts.2.1, parts.2.2.1, parts.2.2.2.1, parts.2.2.2.2⟩ =
            node := by
      refine Gives.skip fun _ => Gives.skip fun _ => Gives.pure ?_
      simp only [FunctionBinding.traverse, hvars, hparams, hchecked, hbody]
      rfl
    dsimp only
    split
    · exact Gives.bind (node.body.judge_preserves.check _) fun _ h => hbody h
    · refine Gives.bind node.body.judge_preserves.infer fun body h => ?_
      exact Gives.skip fun _ => Gives.skip fun _ => hbody h
  · exact Gives.throw _

theorem inferDeclaration_gives (node : Declaration Name) :
    Gives (inferDeclaration node) fun node' => node'.erased = node := by
  cases node with
  | data d =>
    refine Gives.bind (inferDataDeclaration_gives d) fun d' hd => Gives.pure ?_
    rw [Declaration.erased, Declaration.traverse, hd]
    rfl
  | binding d =>
    refine Gives.bind d.judge_gives fun d' hd => Gives.pure ?_
    rw [Declaration.erased, Declaration.traverse, hd]
    rfl
  | function d =>
    refine Gives.bind (inferFunction_gives d) fun d' hd => Gives.pure ?_
    rw [Declaration.erased, Declaration.traverse, hd]
    rfl

theorem finishDeclaration_gives (node : Declaration Attributes) :
    Gives (finishDeclaration node) fun node' => node'.erased = node.erased := by
  refine Gives.bind (declaration_traverse_gives keepsName_default node) fun node' hnode => ?_
  dsimp only
  split
  · exact Gives.pure hnode
  · exact Gives.skip fun _ => Gives.skip fun _ => Gives.pure hnode

theorem inferGroup_gives (group : List (Declaration Name)) :
    Gives (inferGroup group) fun group' => group'.map Declaration.erased = group := by
  refine Gives.bind (Gives.mapM fun node _ => inferDeclaration_gives node) ?_
  intro inferred hinferred
  refine (Gives.mapM_of finishDeclaration_gives inferred).mono fun group' hgroup => ?_
  exact List.idRun_mapM.symm.trans (hgroup.trans hinferred)

/-- A checked namespace is the one that was resolved. -/
theorem namespaceNode_gives (ns : Namespace Name) :
    Gives (namespaceNode ns) fun checked => checked.1.erased = ns := by
  refine Gives.skip fun _ => Gives.skip fun _ => ?_
  refine Gives.bind (Gives.mapM fun group _ => inferGroup_gives group) fun groups hgroups => ?_
  refine Gives.skip fun _ => Gives.pure ?_
  have hmap : groups.map (List.map Declaration.erased) = ns.groups :=
    List.idRun_mapM.symm.trans hgroups
  rw [Namespace.erased, hmap]
  rfl

end Check

/-! ## The front end -/

theorem Resolve.namespaceNode_here (ns : Namespace Unit) :
    Gives (Resolve.namespaceNode ns) fun resolved =>
      resolved.here.written = ns.here ∧ resolved.id = ns.id ∧ resolved.imports = ns.imports := by
  refine Gives.skip fun _ => Gives.skip fun _ => Gives.skip fun _ => Gives.skip fun _ => ?_
  exact Gives.skip fun _ => Gives.skip fun _ => Gives.skip fun _ => Gives.pure ⟨rfl, rfl, rfl⟩

/-- The front end only annotates.  A resolved namespace has the written declarations, in groups,
and the checked one is the resolved one, whatever is reported. -/
theorem Namespace.check_only_annotates (uri : String) (ns : Namespace Unit) :
    ∃ resolved resolver, ns.resolve uri = .ok resolved resolver ∧
      resolved.here.written = ns.here ∧ resolved.id = ns.id ∧ resolved.imports = ns.imports ∧
      (resolved.declarations.map Declaration.written).Perm ns.declarations ∧
      ∃ tree bindings checker,
        Check.namespaceNode resolved (Checker.start uri) = .ok (tree, bindings) checker ∧
          tree.erased = resolved := by
  obtain ⟨resolved, resolver, hresolve, -, hnamed⟩ := ns.resolve_ok uri
  obtain ⟨hhere, hid, himports⟩ := Resolve.namespaceNode_here ns _ _ _ hresolve
  obtain ⟨graph, declarations, hgroups, -, hwritten, -⟩ :=
    Resolve.namespaceNode_ends ns _ _ hresolve
  have hstart : Checker.At [] (Checker.start uri) := rfl
  obtain ⟨⟨tree, bindings⟩, checker, hcheck, -⟩ := Check.namespaceNode_ok hnamed hstart
  refine ⟨resolved, resolver, hresolve, hhere, hid, himports, ?_, tree, bindings, checker,
    hcheck, Check.namespaceNode_gives resolved _ _ _ hcheck⟩
  rw [Namespace.declarations, hgroups, ← hwritten]
  exact ((graph.groups_perm declarations).map _).trans (.of_eq List.idRun_mapM.symm)

end PolyFront
