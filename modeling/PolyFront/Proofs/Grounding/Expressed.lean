import PolyFront.Checking.Exprs
import PolyFront.Proofs.Grounding.Valued

/-!
# Expressions

All that the nodes of a checked pattern or of a checked expression carry fits.  Where a frame of
variables is popped under a quantifier, the nodes are substituted before.
-/

namespace PolyFront

open Run Check World

namespace Check

variable {among : ScopeTag → Prop} {w : World}

/-! ## Patterns -/

/-- Binders are replaced by types that fit. -/
def FitsTable (w : World) (assignment : Table String Ty) : Prop :=
  ∀ name type, assignment.get? name = some type → w.Fits type

theorem FitsTable.later : Stays FitsTable := fun _ _ _ hlater h name type hfound =>
  hlater.fits (h name type hfound)

theorem instantiateConstructor_yields {type : Ty} (h : w.Fits type) :
    Check.Yields among w (instantiateConstructor type) fun w' result =>
      w'.Fits result.1 ∧ FitsTable w' result.2 := by
  have hplain : ∀ type : Ty, w.Fits type →
      Check.Yields among w (pure (type, Table.empty) : Check (Ty × Table String Ty))
        fun w' result => w'.Fits result.1 ∧ FitsTable w' result.2 := fun type htype =>
    Yields.pure fun _ hlater => ⟨hlater.fits htype, fun name other hfound => by
      rw [Table.get?_empty] at hfound
      cases hfound⟩
  cases type with
  | quantified binders body kind =>
    obtain ⟨hbinders, hbody, -⟩ := Ty.fits_quantified.1 h
    exact (Solve.freshBinders_yields _ fun binder hbinder => (hbinders binder hbinder).2).lift.bind
      fun _ _ hlater hassignment => Yields.pure fun _ hlater' =>
        ⟨(hlater'.fits (hlater.fits hbody)).instantiate (FitsTable.later hlater' hassignment),
          FitsTable.later hlater' hassignment⟩
  | _ => exact hplain _ h

/-- The type of the values that a constructor matches. -/
theorem fits_matched {type : Ty} (h : w.Fits type) : w.Fits (match type.function? with
    | some (_, result) => result
    | none => type) := by
  split
  · rename_i hfunction
    exact (Ty.Fits.of_function? h hfunction).2
  · exact h

theorem matchConstructor_yields (here : Located Name) {expected : Ty} (h : w.Fits expected) :
    Check.Yields among w (matchConstructor here expected) fun w' result =>
      w'.Fits result.1 ∧ FitsTable w' result.2 :=
  (typeOfName_yields here.info).bind fun _ _ hlater₁ htype =>
    (instantiateConstructor_yields htype).bind fun _ _ hlater₂ ⟨htype, hassignment⟩ =>
      (requireUsable_yields here.range (hlater₂.fits (hlater₁.fits h)) (fits_matched htype)).bind
        fun _ _ hlater₃ _ => Yields.pure fun _ hlater₄ =>
          ⟨(hlater₃.trans hlater₄).fits (fits_matched htype),
            FitsTable.later (hlater₃.trans hlater₄) hassignment⟩

theorem fieldType_yields (owner : Name) (field : String) {assignment : Table String Ty}
    (h : FitsTable w assignment) :
    Check.Yields among w (fieldType owner field assignment) fun w' type => w'.Fits type := by
  refine Yields.get fun w₁ c hlater hcalm hc => ?_
  dsimp only
  split
  · rename_i type hbound
    rw [hc] at hbound
    cases owner with
    | constructor name =>
      have htype := fits_of_found hcalm.toKept (.field name field) hbound
      exact Yields.pure fun _ hlater' => (hlater'.fits htype).instantiate
        (FitsTable.later (hlater.trans hlater') h)
    | _ => cases hbound
  · exact freshType_yields

mutual
theorem checkPattern_yields : ∀ {w : World} (node : Pattern Name) {expected : Ty}, w.Fits expected →
    YieldsFit among w Pattern.infos (checkPattern node expected)
  | w, .id here name, expected, h => by
    rw [checkPattern]
    exact (putValue_yields name h).bind fun _ _ hlater _ => Yields.pure fun _ hlater' =>
      .cons ((hlater.trans hlater').fits h) (.nil _)
  | w, .alias here name inner, expected, h => by
    rw [checkPattern]
    exact (checkPattern_yields inner h).bind fun _ _ hlater hinner =>
      (putValue_yields name (hlater.fits h)).bind fun _ _ hlater' _ => Yields.pure fun _ hlater'' =>
        .cons ((hlater'.trans hlater'').fits (hlater.fits h))
          ((hlater'.trans hlater'').fitsAll hinner)
  | w, .literal here value, expected, h => by
    rw [checkPattern]
    exact (requireUsable_yields here.range h (Ty.fits_builtIn _)).bind fun _ _ hlater _ =>
      Yields.pure fun _ hlater' => .cons ((hlater.trans hlater').fits h) (.nil _)
  | w, .constructor here id fields, expected, h => by
    rw [checkPattern]
    exact (matchConstructor_yields here h).bind fun _ _ _ ⟨hmatched, hassignment⟩ =>
      (checkFieldPatterns_yields here.info fields hassignment).bind fun _ _ hlater hfields =>
        Yields.pure fun _ hlater' =>
          .cons ((hlater.trans hlater').fits hmatched) (hlater'.fitsAll hfields)
theorem checkFieldPattern_yields : ∀ {w : World} (owner : Name) (node : FieldPattern Name)
    {assignment : Table String Ty}, FitsTable w assignment →
    YieldsFit among w FieldPattern.infos (checkFieldPattern owner assignment node)
  | w, owner, ⟨here, field, inner⟩, assignment, h => by
    rw [checkFieldPattern]
    exact (fieldType_yields owner field h).bind fun _ _ _ htype =>
      checkOptionalPattern_yields here field inner htype
theorem checkOptionalPattern_yields : ∀ {w : World} (here : Located Name) (field : String)
    (inner : Option (Pattern Name)) {type : Ty}, w.Fits type →
    YieldsFit among w FieldPattern.infos (checkOptionalPattern (typed here type) field inner)
  | w, here, field, none, type, h => by
    rw [checkOptionalPattern]
    exact (putValue_yields field h).bind fun _ _ hlater _ => Yields.pure fun _ hlater' =>
      .cons ((hlater.trans hlater').fits h) (.nil _)
  | w, here, field, some inner, type, h => by
    rw [checkOptionalPattern]
    exact (typeOf_yields (fits_typed h)).bind fun _ _ hlater htype =>
      (checkPattern_yields inner htype).bind fun _ _ hlater' hinner => Yields.pure fun _ hlater'' =>
        .cons (((hlater.trans hlater').trans hlater'').fits h) (hlater''.fitsAll hinner)
theorem checkFieldPatterns_yields : ∀ {w : World} (owner : Name) (nodes : List (FieldPattern Name))
    {assignment : Table String Ty}, FitsTable w assignment →
    YieldsFit among w FieldPattern.infosList (checkFieldPatterns owner assignment nodes)
  | w, owner, [], assignment, _ => by
    rw [checkFieldPatterns]
    exact Yields.pure fun _ _ => .nil _
  | w, owner, node :: rest, assignment, h => by
    rw [checkFieldPatterns]
    exact (checkFieldPattern_yields owner node h).bind fun _ _ hlater hnode =>
      (checkFieldPatterns_yields owner rest (FitsTable.later hlater h)).bind
        fun _ _ hlater' hrest => Yields.pure fun _ hlater'' =>
          .append ((hlater'.trans hlater'').fitsAll hnode) (hlater''.fitsAll hrest)
end

end Check

/-! ## Judgements -/

theorem Expr.here_mem_infos {α : Type} (node : Expr α) : node.here.info ∈ node.infos := by
  cases node <;> simp [Expr.here, Expr.infos]

theorem Expr.infosList_eq_flatMap {α : Type} (nodes : List (Expr α)) :
    Expr.infosList nodes = nodes.flatMap Expr.infos := by
  induction nodes with
  | nil => rfl
  | cons node rest ih => rw [Expr.infosList, ih, List.flatMap_cons]

theorem Binding.infosList_eq_flatMap {α : Type} (nodes : List (Binding α)) :
    Binding.infosList nodes = nodes.flatMap Binding.infos := by
  induction nodes with
  | nil => rfl
  | cons node rest ih => rw [Binding.infosList, ih, List.flatMap_cons]

theorem Case.infosList_eq_flatMap {α : Type} (nodes : List (Case α)) :
    Case.infosList nodes = nodes.flatMap Case.infos := by
  induction nodes with
  | nil => rfl
  | cons node rest ih => rw [Case.infosList, ih, List.flatMap_cons]

/-- Both ways to find the types of an expression lead to nodes that fit. -/
structure Judgement.Fits (judgement : Judgement) : Prop where
  infer : ∀ {among : ScopeTag → Prop} {w : World}, YieldsFit among w Expr.infos judgement.infer
  check : ∀ {among : ScopeTag → Prop} {w : World} {expected : Ty}, w.Fits expected →
    YieldsFit among w Expr.infos (judgement.check expected)

theorem World.Kept.classifier_substitute {w : World} (h : w.Kept) {classifier : Classifier}
    (hfits : classifier.Fits w) : (w.store.substitute classifier).Fits w := by
  cases classifier with
  | ofKind kind => exact h.kinds.substitute_proper hfits
  | ofType type => exact h.fits_substitute hfits

namespace Check

variable {among : ScopeTag → Prop} {w : World}

/-- The type of a node that was found. -/
theorem typeOfNode_yields {node : Expr Attributes} (h : w.FitsAll node.infos) :
    Check.Yields among w (typeOf node.here) fun w' type => w'.Fits type :=
  typeOf_yields (h _ node.here_mem_infos)

theorem substituteExpr_yields {node : Expr Attributes} (h : w.FitsAll node.infos) :
    YieldsFit among w Expr.infos (substituteExpr node) := by
  rintro w₁ ⟨uri, log, _⟩ hlater hcalm rfl
  refine (traverse_substitute_ends (Expr.infos_traverse _ _)).mono ?_
  rintro node' _ ⟨rfl, hinfos⟩
  refine ⟨w₁, rfl, hcalm.toKept.steps, fun info hinfo => ?_⟩
  rw [hinfos] at hinfo
  obtain ⟨old, hold, rfl⟩ := List.mem_map.1 hinfo
  exact hcalm.toKept.classifier_substitute (hlater.fitsAll h old hold)

theorem underQuantifiersWithin_yields {check : Ty → Check (Expr Attributes)}
    (hcheck : ∀ {among : ScopeTag → Prop} {w : World} {expected : Ty}, w.Fits expected →
      YieldsFit among w Expr.infos (check expected)) (fuel : Nat) :
    ∀ {among : ScopeTag → Prop} {w : World} {expected : Ty}, w.Fits expected →
      YieldsFit among w Expr.infos (underQuantifiersWithin check fuel expected) := by
  induction fuel with
  | zero => exact fun h => (substituteType_yields h).bind fun _ _ _ htype => hcheck htype
  | succ fuel ih =>
    intro among w expected h
    refine (substituteType_yields h).bind fun w₁ type _ htype => ?_
    cases type with
    | quantified binders body kind =>
      obtain ⟨hbinders, hbody, -⟩ := Ty.fits_quantified.1 htype
      refine Check.withScope_yields (stays_fitsAll _) ?_
      refine (Solve.instantiateBinders_yields .sup (fun binder hbinder =>
        (hbinders binder hbinder).2) hbody).lift.bind fun _ _ _ hbody' => ?_
      exact (ih hbody').bind fun _ _ _ hnode => substituteExpr_yields hnode
    | _ => exact hcheck htype

theorem typeFuel_yields (types : List Ty) :
    Check.Yields among w (liftM (Solve.typeFuel types) : Check Nat) fun _ _ => True :=
  Solve.Yields.lift (Yields.get fun _ _ _ _ _ => Yields.pure fun _ _ => True.intro)

end Check

namespace Judgement

variable {among : ScopeTag → Prop} {w : World}

theorem Fits.ofRules {infer : Check (Expr Attributes)} {check : Ty → Check (Expr Attributes)}
    (hinfer : ∀ {among : ScopeTag → Prop} {w : World}, YieldsFit among w Expr.infos infer)
    (hcheck : ∀ {among : ScopeTag → Prop} {w : World} {expected : Ty}, w.Fits expected →
      YieldsFit among w Expr.infos (check expected)) : (ofRules infer check).Fits where
  infer := hinfer
  check h := (typeFuel_yields _).bind fun _ fuel hlater _ =>
    underQuantifiersWithin_yields hcheck fuel (hlater.fits h)

theorem subsume_yields (range : Range) {infer : Check (Expr Attributes)}
    (hinfer : YieldsFit among w Expr.infos infer) {expected : Ty} (h : w.Fits expected) :
    YieldsFit among w Expr.infos (subsume range infer expected) :=
  hinfer.bind fun _ _ hlater₁ hnode => (typeOfNode_yields hnode).bind fun _ _ hlater₂ htype =>
    (requireUsable_yields range (hlater₂.fits (hlater₁.fits h)) htype).bind fun _ _ hlater₃ _ =>
      Yields.pure fun _ hlater₄ => (hlater₂.trans (hlater₃.trans hlater₄)).fitsAll hnode

theorem Fits.ofInference (range : Range) {infer : Check (Expr Attributes)}
    (hinfer : ∀ {among : ScopeTag → Prop} {w : World}, YieldsFit among w Expr.infos infer) :
    (ofInference range infer).Fits := .ofRules hinfer fun h => subsume_yields range hinfer h

/-! ## Bindings and blocks -/

theorem binding_yields (here : Located Name) (name : String) {node : Option (TypeNode Name)}
    (hbinds : TypeNode.BindsOption node) {value : Judgement} (hvalue : value.Fits) :
    YieldsFit among w Binding.infos (binding here name node value) := by
  cases node with
  | none =>
    exact hvalue.infer.bind fun _ _ _ hnode => (typeOfNode_yields hnode).bind
      fun _ _ hlater₁ htype => (bindValue_yields name htype).bind fun _ _ hlater₂ _ =>
        Yields.pure fun _ hlater₃ => .cons ((hlater₂.trans hlater₃).fits htype)
          ((hlater₁.trans (hlater₂.trans hlater₃)).fitsAll hnode)
  | some written =>
    refine (ascription_yields (hbinds written rfl)).bind fun w₁ result _ ⟨hnode, htype⟩ => ?_
    refine Yields.whenThen (bindValue_yields name htype.fits) ?_
    refine (hvalue.check htype.fits).bind fun w₂ checked hlater₂ hchecked => ?_
    refine Yields.whenThen (bindValue_yields name (hlater₂.grounded htype).fits)
      (Yields.pure fun w₃ hlater₃ => ?_)
    exact .cons ((hlater₂.trans hlater₃).grounded htype).fits
      (.append (fitsAll_of_ground _ hnode) (hlater₃.fitsAll hchecked))

theorem block_yields {here : Located Name} {type : Ty} (htype : w.Fits type)
    {nodes : List (Binding Attributes)} (hnodes : ∀ node ∈ nodes, w.FitsAll node.infos)
    {result : Option (Expr Attributes)} (hresult : w.FitsAll (Expr.infosOption result)) :
    YieldsFit among w Expr.infos
      (pure (.block (typed here type) nodes result) : Check (Expr Attributes)) :=
  Yields.pure fun _ hlater => .cons (hlater.fits htype)
    (.append (hlater.fitsAll (Binding.infosList_eq_flatMap nodes ▸ .flatMap hnodes))
      (hlater.fitsAll hresult))

theorem Fits.block (here : Located Name) {bindings : List (Check (Binding Attributes))}
    (hbindings : ∀ binding ∈ bindings, ∀ {among : ScopeTag → Prop} {w : World},
      YieldsFit among w Binding.infos binding)
    {result : Option Judgement} (hresult : ∀ judgement, result = some judgement → judgement.Fits) :
    (block here bindings result).Fits := by
  have hall : ∀ {among : ScopeTag → Prop} {w : World}, Check.Yields among w (bindings.mapM id)
      fun w' nodes => ∀ node ∈ nodes, w'.FitsAll node.infos := fun {among w} =>
    Yields.mapM (stays_fitsAll Binding.infos) fun binding hbinding => hbindings binding hbinding
  refine .ofRules (fun {among w} => ?_) fun {among w expected} h => ?_
  · refine Check.withScope_yields (stays_fitsAll _) (hall.bind fun w₁ nodes _ hnodes => ?_)
    cases result with
    | none => exact block_yields (Ty.fits_builtIn _) hnodes (.nil _)
    | some judgement =>
      refine (hresult judgement rfl).infer.bind fun w₂ node hlater₂ hnode => ?_
      exact (typeOfNode_yields hnode).bind fun _ _ hlater₃ htype => block_yields htype
        (fun other hother => (hlater₂.trans hlater₃).fitsAll (hnodes other hother))
        (hlater₃.fitsAll hnode)
  · refine Check.withScope_yields (stays_fitsAll _) (hall.bind fun w₁ nodes hlater₁ hnodes => ?_)
    cases result with
    | none =>
      exact (requireUsable_yields here.range (hlater₁.fits h) (Ty.fits_builtIn _)).bind
        fun _ _ hlater₂ _ => block_yields (hlater₂.fits (hlater₁.fits h))
          (fun other hother => hlater₂.fitsAll (hnodes other hother)) (.nil _)
    | some judgement =>
      exact ((hresult judgement rfl).check (hlater₁.fits h)).bind fun _ _ hlater₂ hnode =>
        block_yields (hlater₂.fits (hlater₁.fits h))
          (fun other hother => hlater₂.fitsAll (hnodes other hother)) hnode

/-! ## Conditionals, lambdas and cases -/

theorem Fits.conditional (here : Located Name) {condition consequent alternative : Judgement}
    (hcondition : condition.Fits) (hconsequent : consequent.Fits)
    (halternative : alternative.Fits) :
    (conditional here condition consequent alternative).Fits := by
  have hbranches : ∀ {among : ScopeTag → Prop} {w : World} {type : Ty}
      {condition : Expr Attributes}, w.Fits type → w.FitsAll condition.infos →
      YieldsFit among w Expr.infos (do
        let consequent ← consequent.check type
        let alternative ← alternative.check type
        pure (.conditional (typed here type) condition consequent alternative)) :=
    fun htype hcondition => (hconsequent.check htype).bind fun _ _ hlater₁ hconsequent =>
      (halternative.check (hlater₁.fits htype)).bind fun _ _ hlater₂ halternative =>
        Yields.pure fun _ hlater₃ => .cons ((hlater₁.trans (hlater₂.trans hlater₃)).fits htype)
          (.append ((hlater₁.trans (hlater₂.trans hlater₃)).fitsAll hcondition)
            (.append ((hlater₂.trans hlater₃).fitsAll hconsequent) (hlater₃.fitsAll halternative)))
  refine .ofRules ?_ fun h => ?_
  · exact (hcondition.check (Ty.fits_builtIn _)).bind fun _ _ _ hcondition =>
      freshType_yields.bind fun _ _ hlater htype => hbranches htype (hlater.fitsAll hcondition)
  · exact (hcondition.check (Ty.fits_builtIn _)).bind fun _ _ hlater hcondition =>
      hbranches (hlater.fits h) hcondition

theorem inferLambda_yields (here : Located Name) {params : List (Param Name)}
    (hparams : ∀ param ∈ params, param.Binds) {body : Judgement} (hbody : body.Fits) :
    YieldsFit among w Expr.infos (inferLambda here params body) := by
  refine Check.withScope_yields (stays_fitsAll _) ?_
  refine (Yields.mapM (stays_fitsAll _) fun param hparam =>
    inferParam_yields (hparams param hparam)).bind fun w₁ nodes _ hnodes => ?_
  refine hbody.infer.bind fun w₂ node hlater₂ hnode => ?_
  refine (Yields.mapM stays_fits fun param hparam =>
      typeOf_yields (hlater₂.fitsAll (hnodes param hparam)).head).bind
        fun w₃ types hlater₃ htypes => ?_
  refine (typeOfNode_yields (hlater₃.fitsAll hnode)).bind fun w₄ type hlater₄ htype => ?_
  refine Yields.pure fun w₅ hlater₅ => .cons ?_ (.append (.flatMap fun param hparam => ?_) ?_)
  · exact Fits.function (fun arg harg => (hlater₄.trans hlater₅).fits (htypes arg harg))
      (hlater₅.fits htype)
  · exact (hlater₂.trans (hlater₃.trans (hlater₄.trans hlater₅))).fitsAll (hnodes param hparam)
  · exact (hlater₃.trans (hlater₄.trans hlater₅)).fitsAll hnode

theorem Fits.lambda (here : Located Name) {params : List (Param Name)}
    (hparams : ∀ param ∈ params, param.Binds) {body : Judgement} (hbody : body.Fits) :
    (lambda here params body).Fits := by
  refine .ofRules (inferLambda_yields here hparams hbody) fun {among w expected} h => ?_
  have hinferred : YieldsFit among w Expr.infos
      (subsume here.range (inferLambda here params body) expected) :=
    subsume_yields here.range (inferLambda_yields here hparams hbody) h
  dsimp only
  split
  · rename_i args result hfunction
    obtain ⟨hargs, hresult⟩ := Ty.Fits.of_function? h hfunction
    refine Yields.ite (fun _ => ?_) fun _ => hinferred
    refine Check.withScope_yields (stays_fitsAll _) ?_
    refine (Yields.mapM (stays_fitsAll _) fun pair hpair => checkParam_yields
      (hparams _ (List.of_mem_zip hpair).1) (hargs _ (List.of_mem_zip hpair).2)).bind
        fun w₁ nodes hlater₁ hnodes => ?_
    refine (hbody.check (hlater₁.fits hresult)).bind fun w₂ node hlater₂ hnode =>
      Yields.pure fun w₃ hlater₃ => ?_
    exact .cons ((hlater₁.trans (hlater₂.trans hlater₃)).fits h)
      (.append (.flatMap fun param hparam => (hlater₂.trans hlater₃).fitsAll (hnodes param hparam))
        (hlater₃.fitsAll hnode))
  · exact hinferred

/-- A case leads to nodes that fit. -/
def CaseFits (case : Ty → Ty → Check (Case Attributes)) : Prop :=
  ∀ {among : ScopeTag → Prop} {w : World} {scrutinee expected : Ty}, w.Fits scrutinee →
    w.Fits expected → YieldsFit among w Case.infos (case scrutinee expected)

theorem case_fits (here : Located Name) (pattern : Pattern Name) {body : Judgement}
    (hbody : body.Fits) : CaseFits (case here pattern body) := fun hscrutinee hexpected =>
  Check.withScope_yields (stays_fitsAll _) ((checkPattern_yields pattern hscrutinee).bind
    fun _ _ hlater₁ hpattern => (hbody.check (hlater₁.fits hexpected)).bind
      fun _ _ hlater₂ hnode => Yields.pure fun _ hlater₃ =>
        .cons ((hlater₁.trans (hlater₂.trans hlater₃)).fits hexpected)
          (.append ((hlater₂.trans hlater₃).fitsAll hpattern) (hlater₃.fitsAll hnode)))

theorem Fits.cases (here : Located Name) {scrutinee : Judgement} (hscrutinee : scrutinee.Fits)
    {cases : List (Ty → Ty → Check (Case Attributes))} (hcases : ∀ case ∈ cases, CaseFits case) :
    (Judgement.cases here scrutinee cases).Fits := by
  have hall : ∀ {among : ScopeTag → Prop} {w : World} {matched type : Ty}
      {scrutinee : Expr Attributes}, w.FitsAll scrutinee.infos → w.Fits matched → w.Fits type →
      YieldsFit among w Expr.infos (do
        let cases ← cases.mapM fun case => case matched type
        pure (.cases (typed here type) scrutinee cases)) := fun hscrutinee hmatched htype =>
    (Yields.mapM (stays_fitsAll _) fun case hcase => hcases case hcase hmatched htype).bind
      fun _ nodes hlater₁ hnodes => Yields.pure fun _ hlater₂ =>
        .cons ((hlater₁.trans hlater₂).fits htype)
          (.append ((hlater₁.trans hlater₂).fitsAll hscrutinee)
            (hlater₂.fitsAll (Case.infosList_eq_flatMap nodes ▸ .flatMap hnodes)))
  refine .ofRules ?_ fun h => ?_
  · exact hscrutinee.infer.bind fun _ _ _ hnode => (typeOfNode_yields hnode).bind
      fun _ _ hlater₁ hmatched => freshType_yields.bind fun _ _ hlater₂ htype =>
        hall ((hlater₁.trans hlater₂).fitsAll hnode) (hlater₂.fits hmatched) htype
  · exact hscrutinee.infer.bind fun _ _ hlater₁ hnode => (typeOfNode_yields hnode).bind
      fun _ _ hlater₂ hmatched =>
        hall (hlater₂.fitsAll hnode) hmatched ((hlater₁.trans hlater₂).fits h)

/-! ## Applications -/

/-- The types of arguments and of a result fit. -/
def PartsFit (w : World) (parts : List Ty × Ty) : Prop :=
  (∀ arg ∈ parts.1, w.Fits arg) ∧ w.Fits parts.2

theorem PartsFit.later : Stays PartsFit := fun _ _ _ hlater h =>
  ⟨fun arg harg => hlater.fits (h.1 arg harg), hlater.fits h.2⟩

theorem applied_yields (range : Range) (arity : Nat) {function : Ty} (h : w.Fits function) :
    Check.Yields among w (applied range arity function) PartsFit := by
  have hunknown : Check.Yields among w (do
      let params ← (List.replicate arity ()).mapM fun _ => freshType
      let result ← freshType
      let expected := Ty.function params result
      let solved ← if function.isUnsolved then
          (Solve.checkSubType function expected : Check Bool)
        else pure false
      if !solved then
        report range (TypeError.mismatchedApplication expected function).message
      pure (params, result) : Check (List Ty × Ty)) PartsFit := by
    refine (Yields.mapM stays_fits fun _ _ => freshType_yields).bind
        fun w₁ params hlater₁ hparams => ?_
    refine freshType_yields.bind fun w₂ result hlater₂ hresult => ?_
    have hparts : PartsFit w₂ (params, result) :=
      ⟨fun arg harg => hlater₂.fits (hparams arg harg), hresult⟩
    have hrest : ∀ (solved : Bool) {w₃ : World}, Later w₂ w₃ → Check.Yields among w₃ (do
        if !solved then
          report range
            (TypeError.mismatchedApplication (Ty.function params result) function).message
        pure (params, result) : Check (List Ty × Ty)) PartsFit := fun _ _ hlater₃ =>
      Yields.whenThen (report_yields _ _)
        (Yields.pure fun _ hlater₄ => PartsFit.later (hlater₃.trans hlater₄) hparts)
    refine Yields.ite (fun _ => ?_) fun _ => ?_
    · exact (checkSubType_yields ((hlater₁.trans hlater₂).fits h)
        (Fits.function hparts.1 hresult)).bind fun _ solved hlater₃ _ => hrest solved hlater₃
    · exact hrest false (.refl w₂)
  unfold applied
  dsimp only
  split
  · rename_i params result hfunction
    exact Yields.ite (fun _ => Yields.pure fun _ hlater =>
      PartsFit.later hlater (Ty.Fits.of_function? h hfunction)) fun _ => hunknown
  · exact hunknown

theorem instantiatePolymorphic_yields {type : Ty} (h : w.Fits type) :
    Check.Yields among w (liftM (Solve.instantiatePolymorphic type) : Check Ty) fun w' type' =>
      w'.Fits type' := (Solve.instantiatePolymorphic_yields h).lift

theorem Fits.apply (here : Located Name) {function : Judgement} (hfunction : function.Fits)
    {args : List Judgement} (hargs : ∀ arg ∈ args, arg.Fits) :
    (apply here function args).Fits := by
  refine .ofInference here.range (fun {among w} => ?_)
  refine hfunction.infer.bind fun w₁ node _ hnode => ?_
  refine (typeOfNode_yields hnode).bind fun w₂ type hlater₂ htype => ?_
  refine (instantiatePolymorphic_yields htype).bind fun w₃ type' hlater₃ htype' => ?_
  refine (applied_yields here.range args.length htype').bind fun w₄ parts hlater₄ hparts => ?_
  refine (Yields.mapM (stays_fitsAll Expr.infos) fun pair hpair =>
    (hargs _ (List.of_mem_zip hpair).1).check (hparts.1 _ (List.of_mem_zip hpair).2)).bind
    fun w₅ nodes hlater₅ hnodes =>
      Yields.pure fun w₆ hlater₆ => .cons ((hlater₅.trans hlater₆).fits hparts.2) (.append ?_ ?_)
  · exact (hlater₂.trans (hlater₃.trans (hlater₄.trans (hlater₅.trans hlater₆)))).fitsAll hnode
  · exact hlater₆.fitsAll (Expr.infosList_eq_flatMap nodes ▸ .flatMap hnodes)

theorem Fits.select (here : Located Name) {receiver : Judgement} (hreceiver : receiver.Fits)
    (selection : Reference Name) : (select here receiver selection).Fits := by
  refine .ofInference here.range (fun {among w} => ?_)
  refine (inferReference_yields selection).bind fun w₁ node _ hnode => ?_
  refine (typeOf_yields hnode.head).bind fun w₂ type hlater₂ htype => ?_
  refine (instantiatePolymorphic_yields htype).bind fun w₃ selected hlater₃ hselected => ?_
  have hnode₃ := (hlater₂.trans hlater₃).fitsAll hnode
  split
  · rename_i first rest result hfunction
    obtain ⟨hargs, hresult⟩ := Ty.Fits.of_function? hselected hfunction
    refine (hreceiver.check (hargs first List.mem_cons_self)).bind fun w₄ inner hlater₄ hinner =>
      Yields.pure fun w₅ hlater₅ => ?_
    refine .cons ?_ (.append (hlater₅.fitsAll hinner) ((hlater₄.trans hlater₅).fitsAll hnode₃))
    exact (hlater₄.trans hlater₅).fits
      (Fits.function (fun arg harg => hargs arg (List.mem_cons_of_mem _ harg)) hresult)
  · exact hreceiver.infer.bind fun _ _ hlater₄ hinner => freshType_yields.bind
      fun _ _ hlater₅ htype => Yields.pure fun _ hlater₆ => .cons (hlater₆.fits htype)
        (.append ((hlater₅.trans hlater₆).fitsAll hinner)
          ((hlater₄.trans (hlater₅.trans hlater₆)).fitsAll hnode₃))

theorem Fits.reference (node : Reference Name) : (reference node).Fits :=
  .ofInference node.here.range ((inferReference_yields node).bind fun _ _ _ hnode =>
    Yields.pure fun _ hlater => hlater.fitsAll hnode)

/-! ## Operators -/

/-- An operand and the type that an operator gives. -/
def OperandFits (w : World) (result : Expr Attributes × Ty) : Prop :=
  w.FitsAll result.1.infos ∧ w.Fits result.2

theorem OperandFits.later : Stays OperandFits := fun _ _ _ hlater h =>
  ⟨hlater.fitsAll h.1, hlater.fits h.2⟩

theorem operand_yields {result : Expr Attributes × Ty} (h : OperandFits w result) :
    Check.Yields among w (pure result : Check (Expr Attributes × Ty)) OperandFits :=
  Yields.pure fun _ hlater => OperandFits.later hlater h

theorem sharedOperands_yields (operand : Operand) {left : Expr Attributes}
    (hleft : w.FitsAll left.infos) {right : Judgement} (hright : right.Fits) :
    Check.Yields among w (sharedOperands operand left right) OperandFits := by
  refine (typeOfNode_yields hleft).bind fun w₁ type _ htype => ?_
  refine (acceptsOperand_yields operand htype).bind fun w₂ accepted hlater₂ _ => ?_
  refine Yields.ite (fun _ => ?_) fun _ => ?_
  · exact (hright.check (hlater₂.fits htype)).bind fun _ _ hlater₃ hnode =>
      operand_yields ⟨hnode, hlater₃.fits (hlater₂.fits htype)⟩
  · refine (reportOperand_yields _ operand (hlater₂.fits htype)).bind fun _ _ _ _ => ?_
    refine hright.infer.bind fun w₃ node _ hnode => ?_
    refine (typeOfNode_yields hnode).bind fun w₄ type' hlater₄ htype' => ?_
    refine (acceptsOperand_yields operand htype').bind fun w₅ accepted' hlater₅ _ => ?_
    refine Yields.ite (fun _ => ?_) fun _ => ?_
    · exact operand_yields ⟨(hlater₄.trans hlater₅).fitsAll hnode, hlater₅.fits htype'⟩
    · refine (reportOperand_yields _ operand (hlater₅.fits htype')).bind fun w₆ _ hlater₆ _ => ?_
      exact freshType_yields.bind fun _ _ hlater₇ hfresh =>
        operand_yields
          ⟨(hlater₄.trans (hlater₅.trans (hlater₆.trans hlater₇))).fitsAll hnode, hfresh⟩

theorem shiftOperands_yields {left : Expr Attributes} (hleft : w.FitsAll left.infos)
    {right : Judgement} (hright : right.Fits) :
    Check.Yields among w (shiftOperands left right) OperandFits := by
  refine (typeOfNode_yields hleft).bind fun w₁ type _ htype => ?_
  refine (acceptsOperand_yields .integral htype).bind fun w₂ accepted hlater₂ _ => ?_
  refine Yields.whenThen (reportOperand_yields _ .integral (hlater₂.fits htype)) ?_
  refine hright.infer.bind fun w₃ node hlater₃ hnode => ?_
  refine (typeOfNode_yields hnode).bind fun w₄ type' hlater₄ htype' => ?_
  refine (acceptsOperand_yields .int htype').bind fun w₅ accepted' hlater₅ _ => ?_
  refine Yields.whenThen (reportOperand_yields _ .int (hlater₅.fits htype')) ?_
  have hnode₅ := (hlater₄.trans hlater₅).fitsAll hnode
  have htype₅ := (hlater₂.trans (hlater₃.trans (hlater₄.trans hlater₅))).fits htype
  exact Yields.ite (fun _ => operand_yields ⟨hnode₅, htype₅⟩) fun _ => freshType_yields.bind
    fun _ _ hlater₆ hfresh => operand_yields ⟨hlater₆.fitsAll hnode₅, hfresh⟩

theorem equalityOperands_yields (range : Range) {left : Expr Attributes}
    (hleft : w.FitsAll left.infos) {right : Judgement} (hright : right.Fits) :
    Check.Yields among w (equalityOperands range left right) OperandFits := by
  refine (typeOfNode_yields hleft).bind fun w₁ type _ htype => ?_
  refine hright.infer.bind fun w₂ node hlater₂ hnode => ?_
  refine (typeOfNode_yields hnode).bind fun w₃ type' hlater₃ htype' => ?_
  have htype₃ := (hlater₂.trans hlater₃).fits htype
  refine (checkSubType_yields htype₃ htype').bind fun w₄ usable hlater₄ _ => ?_
  have hresult : ∀ {w₅ : World}, Later w₄ w₅ → Check.Yields among w₅
      (pure (node, type) : Check (Expr Attributes × Ty)) OperandFits := fun hlater₅ =>
    operand_yields ⟨(hlater₃.trans (hlater₄.trans hlater₅)).fitsAll hnode,
      (hlater₄.trans hlater₅).fits htype₃⟩
  refine Yields.ite (fun _ => ?_) fun _ => hresult (.refl w₄)
  refine (checkSubType_yields (hlater₄.fits htype') (hlater₄.fits htype₃)).bind
    fun w₅ usable' hlater₅ _ => Yields.ite (fun _ => ?_) fun _ => hresult hlater₅
  have hlater := hlater₄.trans hlater₅
  refine (substituteType_yields (hlater.fits htype₃)).bind fun _ _ hlater₆ _ => ?_
  refine (substituteType_yields (hlater₆.fits (hlater.fits htype'))).bind fun _ _ hlater₇ _ => ?_
  exact (report_yields _ _).bind fun _ _ hlater₈ _ =>
    hresult (hlater₅.trans (hlater₆.trans (hlater₇.trans hlater₈)))

theorem Fits.binary (here : Located Name) (op : BinaryOp) {left right : Judgement}
    (hleft : left.Fits) (hright : right.Fits) : (binary here op left right).Fits := by
  refine .ofInference here.range (fun {among w} => ?_)
  refine hleft.infer.bind fun w₁ node _ hnode => ?_
  have hrest : ∀ {w₂ : World} (result : Expr Attributes × Ty), Later w₁ w₂ →
      OperandFits w₂ result → YieldsFit among w₂ Expr.infos (pure
        (.binary (typed here (if op.isPredicate then .builtIn .boolean else result.2)) op node
          result.1)) := by
    refine fun result hlater₂ hresult => Yields.pure fun w₃ hlater₃ => .cons ?_
      (.append ((hlater₂.trans hlater₃).fitsAll hnode) (hlater₃.fitsAll hresult.1))
    refine fits_typed ?_
    split
    · exact Ty.fits_builtIn _
    · exact hlater₃.fits hresult.2
  dsimp only
  split
  · exact (sharedOperands_yields _ hnode hright).bind fun _ result => hrest result
  · exact (shiftOperands_yields hnode hright).bind fun _ result => hrest result
  · exact (equalityOperands_yields _ hnode hright).bind fun _ result => hrest result

theorem Fits.unary (here : Located Name) (op : UnaryOp) {operand : Judgement}
    (hoperand : operand.Fits) : (unary here op operand).Fits := by
  refine .ofInference here.range (fun {among w} => ?_)
  refine hoperand.infer.bind fun w₁ node _ hnode => ?_
  refine (typeOfNode_yields hnode).bind fun w₂ type hlater₂ htype => ?_
  refine (acceptsOperand_yields op.operand htype).bind fun w₃ accepted hlater₃ _ => ?_
  refine Yields.whenThen (reportOperand_yields _ op.operand (hlater₃.fits htype)) ?_
  have hrest : ∀ {w₄ : World} (result : Ty), Later w₃ w₄ → w₄.Fits result →
      YieldsFit among w₄ Expr.infos (pure (.unary (typed here result) op node)) :=
    fun result hlater₄ hresult => Yields.pure fun _ hlater₅ => .cons (hlater₅.fits hresult)
      ((hlater₂.trans (hlater₃.trans (hlater₄.trans hlater₅))).fitsAll hnode)
  cases op with
  | booleanNot => exact hrest _ (.refl w₃) (Ty.fits_builtIn _)
  | _ =>
    exact Yields.ite (fun _ => hrest type (.refl w₃) (hlater₃.fits htype)) fun _ =>
      freshType_yields.bind fun _ result => hrest result

theorem Fits.literal (here : Located Name) (value : Literal) : (literal here value).Fits :=
  .ofRules (Yields.pure fun _ _ => .cons (Ty.fits_builtIn _) (.nil _)) fun h =>
    (requireUsable_yields here.range h (Ty.fits_builtIn _)).bind fun _ _ hlater _ =>
      Yields.pure fun _ hlater' => .cons ((hlater.trans hlater').fits h) (.nil _)

end Judgement

/-! ## Expressions -/

open Judgement

mutual
theorem Expr.judge_fits : ∀ node : Expr Name, node.Binds → node.judge.Fits
  | .block here bindings result, h =>
    .block here (Binding.judgeList_fits bindings h.1) (Expr.judgeOption_fits result h.2)
  | .conditional here condition consequent alternative, h =>
    .conditional here (Expr.judge_fits condition h.1) (Expr.judge_fits consequent h.2.1)
      (Expr.judge_fits alternative h.2.2)
  | .lambda here _ body, h => .lambda here h.1 (Expr.judge_fits body h.2)
  | .cases here scrutinee cases, h =>
    .cases here (Expr.judge_fits scrutinee h.1) (Case.judgeList_fits cases h.2)
  | .apply here function args, h =>
    .apply here (Expr.judge_fits function h.1) (Expr.judgeList_fits args h.2)
  | .select here receiver selection, h => .select here (Expr.judge_fits receiver h) selection
  | .reference node, _ => .reference node
  | .binary here op left right, h =>
    .binary here op (Expr.judge_fits left h.1) (Expr.judge_fits right h.2)
  | .unary here op operand, h => .unary here op (Expr.judge_fits operand h)
  | .literal here value, _ => .literal here value
theorem Expr.judgeOption_fits : ∀ node : Option (Expr Name), Expr.BindsOption node →
    ∀ judgement, Expr.judgeOption node = some judgement → judgement.Fits
  | none, _ => nofun
  | some node, h => fun _ heq => Option.some.inj heq ▸ Expr.judge_fits node h
theorem Expr.judgeList_fits : ∀ nodes : List (Expr Name), Expr.BindsList nodes →
    ∀ judgement ∈ Expr.judgeList nodes, judgement.Fits
  | [], _ => fun _ h => (List.not_mem_nil h).elim
  | node :: rest, h => fun judgement hmem => by
    rcases List.mem_cons.1 hmem with rfl | hmem
    · exact Expr.judge_fits node h.1
    · exact Expr.judgeList_fits rest h.2 judgement hmem
theorem Binding.judge_fits : ∀ node : Binding Name, node.Binds →
    ∀ {among : ScopeTag → Prop} {w : World}, YieldsFit among w Binding.infos node.judge
  | ⟨here, name, _, value⟩, h => binding_yields here name h.1 (Expr.judge_fits value h.2)
theorem Binding.judgeList_fits : ∀ nodes : List (Binding Name), Binding.BindsList nodes →
    ∀ run ∈ Binding.judgeList nodes, ∀ {among : ScopeTag → Prop} {w : World},
      YieldsFit among w Binding.infos run
  | [], _ => fun _ h => (List.not_mem_nil h).elim
  | node :: rest, h => fun run hmem {_ _} => by
    rcases List.mem_cons.1 hmem with rfl | hmem
    · exact Binding.judge_fits node h.1
    · exact Binding.judgeList_fits rest h.2 run hmem
theorem Case.judge_fits : ∀ node : Case Name, node.Binds → CaseFits node.judge
  | ⟨here, pattern, body⟩, h => case_fits here pattern (Expr.judge_fits body h)
theorem Case.judgeList_fits : ∀ nodes : List (Case Name), Case.BindsList nodes →
    ∀ run ∈ Case.judgeList nodes, CaseFits run
  | [], _ => fun _ h => (List.not_mem_nil h).elim
  | node :: rest, h => fun run hmem {_ _ _ _} => by
    rcases List.mem_cons.1 hmem with rfl | hmem
    · exact Case.judge_fits node h.1
    · exact Case.judgeList_fits rest h.2 run hmem
end

end PolyFront
