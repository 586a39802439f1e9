import PolyFront.Checking.Declarations
import PolyFront.Proofs.Grounding.Expressed

/-!
# Declarations

While a function is checked, the kinds of its type parameters are unknown and parameters of the
world.  No frame around it forgets its variables, so that they last.  Once the declaration is
finished, all kinds in it are known.
-/

namespace PolyFront

open Run Check World

theorem Declaration.here_mem_infos {α : Type} (node : Declaration α) :
    node.here.info ∈ node.infos := by
  cases node with
  | data d => exact List.mem_cons_self
  | binding d =>
    cases d
    exact List.mem_cons_self
  | function d => exact List.mem_cons_self

namespace World

variable {w w' : World}

/-- The node of a type parameter whose kind is live. -/
def Parameter (w : World) (var : TypeVarNode Attributes) : Prop :=
  ∃ quantifier name kind, var.here.info = ⟨.typeVar quantifier name, .ofKind kind⟩ ∧ w.Live kind

theorem Later.parameter (h : Later w w') {var : TypeVarNode Attributes} (hvar : w.Parameter var) :
    w'.Parameter var := by
  obtain ⟨quantifier, name, kind, heq, hlive⟩ := hvar
  exact ⟨quantifier, name, kind, heq, h.live hlive⟩

theorem Parameter.fits {var : TypeVarNode Attributes} (h : w.Parameter var) :
    var.here.info.classifier.Fits w := by
  obtain ⟨quantifier, name, kind, heq, hlive⟩ := h
  rw [heq]
  exact hlive.proper

theorem fitsAll_params {vars : List (TypeVarNode Attributes)} (h : ∀ var ∈ vars, w.Parameter var) :
    w.FitsAll (vars.map fun var => var.here.info) := by
  intro info hinfo
  obtain ⟨var, hvar, rfl⟩ := List.mem_map.1 hinfo
  exact (h var hvar).fits

end World

namespace Check

variable {α : Type} {among : ScopeTag → Prop} {w : World}

/-! ## Type parameters -/

/-- A type parameter is bound in the frame of a function, and no frame forgets its variables. -/
theorem inferTypeVar_ends {var : TypeVarNode Name} (hbinds : var.Binds) {c : Checker} (hw : w.Kept)
    (hc : c.store = w.store) (hfirm : Stack.Firm w.store.stack.frames)
    (htop : ∀ frame ∈ w.store.stack.frames.head?, frame.tag = .binding) :
    Ends (inferTypeVar var) c fun var' c' => ∃ w', w'.store = c'.store ∧ Steps [] w w' ∧
      w'.Parameter var' := by
  obtain ⟨quantifier, name, hname⟩ := hbinds
  refine Ends.bind (lift_ends ?_)
  rw [hc]
  refine Solve.freshKind_newKind.mono ?_
  rintro _ _ ⟨frame, rest, hframes, rfl, rfl⟩
  have hadd := hw.addParam hframes (hframes ▸ hfirm)
  have hlive := hadd.kept.live_param w.store.nextKind (.inr rfl)
  have htag : frame.tag = .binding := htop frame (by rw [hframes]; exact Option.mem_some_iff.2 rfl)
  refine Ends.bind (lift_ends (Ends.within (Stack.updateTop_ends fun frame' rest' hframes' => ?_)))
  obtain ⟨rfl, rfl⟩ := List.cons.inj hframes'
  have htop : (w.store.newKind frame rest).stack.frames =
      frame.addKinds [w.store.nextKind] :: rest := rfl
  have hbound : (w.withParam frame rest).Bound frame.tag
      (kinded var.here (.unsolved w.store.nextKind)) := ⟨hlive.proper, fun hne => (hne htag).elim⟩
  have hput := hadd.kept.put htop hbound (.type var.name)
  refine Ends.pure ⟨_, rfl, hadd.trans hput.toSteps, quantifier, name, _, ?_, hput.live hlive⟩
  show Attributes.mk var.here.info _ = _
  rw [hname]

theorem inferTypeVars_ends : ∀ {vars : List (TypeVarNode Name)} {w : World} {c : Checker},
    (∀ var ∈ vars, var.Binds) → w.Kept → c.store = w.store →
    Stack.Firm w.store.stack.frames →
    (∀ frame ∈ w.store.stack.frames.head?, frame.tag = .binding) →
    Ends (vars.mapM inferTypeVar) c fun vars' c' => ∃ w', w'.store = c'.store ∧ Steps [] w w' ∧
      ∀ var ∈ vars', w'.Parameter var
  | [], w, c, _, hw, hc, _, _ =>
    Ends.pure ⟨w, hc.symm, hw.steps, fun _ h => (List.not_mem_nil h).elim⟩
  | var :: rest, w, c, hbinds, hw, hc, hfirm, htop => by
    rw [List.mapM_cons]
    refine Ends.bind ((inferTypeVar_ends (hbinds var List.mem_cons_self) hw hc hfirm htop).mono ?_)
    rintro var' c₁ ⟨w₁, hc₁, hsteps, hvar⟩
    obtain ⟨frame, below, hframes⟩ := List.exists_cons_of_ne_nil hw.nonempty
    obtain ⟨frame', hframes', htag, -⟩ := hsteps.stack.frames hframes
    have hfirm₁ : Stack.Firm w₁.store.stack.frames := by
      rw [hframes] at hfirm
      rw [hframes']
      intro other hother
      rcases List.mem_cons.1 hother with rfl | hother
      · rw [htag]
        exact hfirm frame List.mem_cons_self
      · exact hfirm other (List.mem_cons_of_mem _ hother)
    have htop₁ : ∀ other ∈ w₁.store.stack.frames.head?, other.tag = .binding := by
      rw [hframes'] at *
      intro other hother
      obtain rfl := Option.some.inj hother
      rw [htag]
      exact htop frame (by rw [hframes]; exact Option.mem_some_iff.2 rfl)
    refine Ends.bind ((inferTypeVars_ends (fun other hother => hbinds other
      (List.mem_cons_of_mem _ hother)) hsteps.kept hc₁.symm hfirm₁ htop₁).mono ?_)
    rintro vars' c₂ ⟨w₂, hc₂, hsteps', hvars⟩
    refine Ends.pure ⟨w₂, hc₂, hsteps.trans hsteps', fun other hother => ?_⟩
    rcases List.mem_cons.1 hother with rfl | hother
    · exact hsteps'.toLater.parameter hvar
    · exact hvars other hother

/-- Frames that are apart from functions and forget no variables. -/
def TopLevel (among : ScopeTag → Prop) : Prop :=
  ∀ tag, among tag → tag ≠ .binding ∧ tag.dropsVariables = false

/-- Type parameters in the frame of a function. -/
theorem withParams_yields (hamong : TopLevel among) (name : QualifiedName)
    {vars : List (TypeVarNode Name)} (hbinds : ∀ var ∈ vars, var.Binds)
    {body : List (TypeVarNode Attributes) → Check α} {good : World → α → Prop} (hstays : Stays good)
    (hbody : ∀ {w' : World} {vars' : List (TypeVarNode Attributes)}, Later w w' →
      (∀ var ∈ vars', w'.Parameter var) →
      Check.Yields (fun tag => among tag ∨ tag = .binding) w' (body vars') good) :
    Check.Yields among w (withScope (.binding name) do body (← vars.mapM inferTypeVar)) good := by
  intro w₁ c hlater hcalm hc
  have hpushed := hcalm.pushed (.binding name)
  refine Ends.bind (Ends.within (Ends.modify (Ends.bind (Ends.bind ((inferTypeVars_ends hbinds
    (w := w₁.pushed (.binding name)) hpushed.toKept ?_ ?_ ?_).mono ?_)))))
  · show c.store.pushed _ = _
    rw [hc]
    rfl
  · intro frame hframe
    rcases hpushed.scopes frame hframe with htag | htag
    · exact (hamong _ htag).2
    · rw [htag]
      rfl
  · intro frame hframe
    obtain rfl := Option.some.inj hframe
    rfl
  rintro vars' c₂ ⟨w₂, hc₂, hsteps, hvars⟩
  refine (hbody (hlater.trans ((w₁.later_pushed _).trans hsteps.toLater)) hvars w₂ c₂ (.refl w₂)
    (hpushed.steps hsteps) hc₂.symm).mono ?_
  rintro a c₃ ⟨w₃, hc₃, hsteps', ha⟩
  refine Ends.bind (Ends.within ?_)
  rw [← hc₃]
  refine (Solve.popScope_steps (.binding name) hcalm.toKept (hsteps.trans hsteps')).mono ?_
  rintro _ _ ⟨w₄, rfl, hpopped, hlater'⟩
  exact Ends.pure ⟨w₄, rfl, hpopped, hstays hlater' ha⟩

/-- The parameter of a function is read as a named variable. -/
theorem typeOfParameter_yields {var : TypeVarNode Attributes} (h : w.Parameter var) :
    Check.Yields among w (typeOfVarNode var) fun w' type => type.isVar = true ∧ w'.Fits type := by
  obtain ⟨quantifier, name, kind, heq, hlive⟩ := h
  have hkind : Check.Yields among w (kindOf var.here) fun _ other => other = kind := by
    intro w₁ c _ hcalm hc
    exact kindOf_ends (by rw [heq]) ⟨w₁, hc.symm, hcalm.toKept.steps, rfl⟩
  refine hkind.bind fun w₁ _ hlater hother => ?_
  rw [hother, heq]
  exact Yields.pure fun _ hlater' => ⟨rfl, Ty.fits_var.2 ((hlater.trans hlater').live hlive)⟩

/-! ## Functions -/

/-- A binder stays a fitting variable. -/
theorem stays_fittingBinder : Stays fun w type => type.isVar = true ∧ World.Fits w type :=
  fun _ _ _ hlater h => ⟨h.1, hlater.fits h.2⟩

theorem functionType_yields {typeParams : List (TypeVarNode Attributes)}
    {params : List (Param Attributes)} {result : Ty} (hvars : ∀ var ∈ typeParams, w.Parameter var)
    (hparams : ∀ param ∈ params, w.FitsAll param.infos) (hresult : w.Fits result) :
    Check.Yields among w (functionType typeParams params result) fun w' type => w'.Fits type := by
  refine (Yields.mapM stays_fits fun param hparam =>
      typeOf_yields (hparams param hparam).head).bind fun w₁ types hlater₁ htypes => ?_
  have hfunction : w₁.Fits (Ty.function types result) :=
    World.Fits.function htypes (hlater₁.fits hresult)
  refine Yields.ite (fun _ => Yields.pure fun _ hlater => hlater.fits hfunction) fun _ => ?_
  refine (Yields.mapM stays_fittingBinder fun var hvar =>
      typeOfParameter_yields (hlater₁.parameter (hvars var hvar))).bind
        fun w₂ binders hlater₂ hbinders => Yields.pure fun w₃ hlater₃ => ?_
  exact Ty.fits_quantified.2 ⟨fun binder hbinder => ⟨(hbinders binder hbinder).1,
    hlater₃.fits (hbinders binder hbinder).2⟩, (hlater₂.trans hlater₃).fits hfunction,
      World.live_of_ground _ Kind.ground_type⟩

/-- What is known of the parts of a function. -/
structure FunctionFits (here : Located Name) (w : World)
    (parts : Located Attributes × List (TypeVarNode Attributes) × List (Param Attributes) ×
      Option (TypeNode Attributes) × Expr Attributes) : Prop where
  here : ∃ type, parts.1 = typed here type ∧ w.Fits type
  typeParams : ∀ var ∈ parts.2.1, w.Parameter var
  params : ∀ param ∈ parts.2.2.1, w.FitsAll param.infos
  result : w.FitsAll (infosOption TypeNode.infos parts.2.2.2.1)
  body : w.FitsAll parts.2.2.2.2.infos

theorem FunctionFits.later (here : Located Name) : Stays (FunctionFits here) := by
  rintro w w' parts hlater ⟨⟨type, heq, htype⟩, hvars, hparams, hresult, hbody⟩
  exact ⟨⟨type, heq, hlater.fits htype⟩, fun var hvar => hlater.parameter (hvars var hvar),
    fun param hparam => hlater.fitsAll (hparams param hparam), hlater.fitsAll hresult,
    hlater.fitsAll hbody⟩

theorem FunctionFits.infos {here : Located Name} {name : String}
    {parts : Located Attributes × List (TypeVarNode Attributes) × List (Param Attributes) ×
      Option (TypeNode Attributes) × Expr Attributes} (h : FunctionFits here w parts) :
    w.FitsAll (FunctionBinding.infos
      ⟨parts.1, name, parts.2.1, parts.2.2.1, parts.2.2.2.1, parts.2.2.2.2⟩) := by
  obtain ⟨type, heq, htype⟩ := h.here
  refine .cons ?_ (.append (World.fitsAll_params h.typeParams)
    (.append (.flatMap h.params) (.append h.result h.body)))
  rw [heq]
  exact htype

/-- The type of a function once the type of its body is known. -/
theorem typedFunction_yields {here : Located Name} {vars : List (TypeVarNode Attributes)}
    {params : List (Param Attributes)} {result : Option (TypeNode Attributes)}
    {body : Expr Attributes} (hvars : ∀ var ∈ vars, w.Parameter var)
    (hparams : ∀ param ∈ params, w.FitsAll param.infos)
    (hresult : w.FitsAll (infosOption TypeNode.infos result)) (hbody : w.FitsAll body.infos) :
    Check.Yields among w (do
      let type ← functionType vars params (← typeOf body.here)
      pure (typed here type, vars, params, result, body)) (FunctionFits here) := by
  refine (typeOfNode_yields hbody).bind fun w₁ bodyType hlater₁ hbodyType => ?_
  refine (functionType_yields (fun var hvar => hlater₁.parameter (hvars var hvar))
    (fun param hparam => hlater₁.fitsAll (hparams param hparam)) hbodyType).bind
      fun w₂ type hlater₂ htype => Yields.pure fun w₃ hlater₃ => ?_
  have hlater := hlater₁.trans (hlater₂.trans hlater₃)
  exact ⟨⟨type, rfl, hlater₃.fits htype⟩, fun var hvar => hlater.parameter (hvars var hvar),
    fun param hparam => hlater.fitsAll (hparams param hparam), hlater.fitsAll hresult,
    hlater.fitsAll hbody⟩

theorem inferFunction_yields (hamong : TopLevel among) {node : FunctionBinding Name}
    (hbinds : node.Binds) : YieldsFit among w FunctionBinding.infos (inferFunction node) := by
  obtain ⟨hvarBinds, hparamBinds, hresultBinds, hbodyBinds⟩ := hbinds
  have hjudge := Expr.judge_fits node.body hbodyBinds
  unfold inferFunction
  split
  · rename_i name _
    refine Yields.bind ?_ fun w₁ parts _ (hparts : FunctionFits node.here w₁ parts) => ?_
    · refine withParams_yields hamong name hvarBinds (FunctionFits.later node.here)
        fun {w₁ vars} _ hvars => ?_
      refine Check.withScope_yields (FunctionFits.later node.here) ?_
      refine (Yields.mapM (stays_fitsAll _) fun param hparam =>
        inferParam_yields (hparamBinds param hparam)).bind fun w₂ params hlater₂ hparams => ?_
      refine (ascriptionOrFresh_yields hresultBinds).bind fun w₃ written hlater₃ hwritten => ?_
      have hparams₃ : ∀ param ∈ params, w₃.FitsAll param.infos := fun param hparam =>
        hlater₃.fitsAll (hparams param hparam)
      have hvars₃ : ∀ var ∈ vars, w₃.Parameter var := fun var hvar =>
        (hlater₂.trans hlater₃).parameter (hvars var hvar)
      refine (functionType_yields hvars₃ hparams₃ hwritten.2).bind fun w₄ type hlater₄ htype => ?_
      refine (bindValue_yields node.name htype).bind fun w₅ _ hlater₅ _ => ?_
      have hlater := hlater₄.trans hlater₅
      have hrest : ∀ {among : ScopeTag → Prop} {w₆ : World} (body : Expr Attributes), Later w₅ w₆ →
          w₆.FitsAll body.infos → Check.Yields among w₆ (do
            let type ← functionType vars params (← typeOf body.here)
            pure (typed node.here type, vars, params, written.1, body)) (FunctionFits node.here) :=
        fun body hlater₆ hbody => typedFunction_yields
          (fun var hvar => (hlater.trans hlater₆).parameter (hvars₃ var hvar))
          (fun param hparam => (hlater.trans hlater₆).fitsAll (hparams₃ param hparam))
          ((hlater.trans hlater₆).fitsAll hwritten.1) hbody
      dsimp only
      split
      · exact (hjudge.check (hlater.fits hwritten.2)).bind fun _ body hlater₆ hbody =>
          hrest body hlater₆ hbody
      · refine hjudge.infer.bind fun w₆ body hlater₆ hbody => ?_
        refine (typeOfNode_yields hbody).bind fun w₇ bodyType hlater₇ hbodyType => ?_
        exact (checkSubType_yields hbodyType ((hlater.trans (hlater₆.trans hlater₇)).fits
          hwritten.2)).bind fun w₈ _ hlater₈ _ => hrest body (hlater₆.trans (hlater₇.trans hlater₈))
            ((hlater₇.trans hlater₈).fitsAll hbody)
    · obtain ⟨here, vars, params, result, body⟩ := parts
      obtain ⟨type, heq, htype⟩ := hparts.here
      obtain rfl : here = typed node.here type := heq
      exact (bindValue_yields node.name htype).bind fun _ _ hlater₂ _ => Yields.pure
        fun _ hlater₃ => (FunctionFits.later node.here (hlater₂.trans hlater₃) hparts).infos
  · exact Yields.throw _

/-! ## Data declarations -/

theorem checkSubKind_free_yields {sub sup : Kind} (hsub : FreeKind w sub) (hsup : FreeKind w sup) :
    Check.Yields among w (liftM (Solve.checkSubKind sub sup) : Check Bool) fun _ _ => True := by
  refine Solve.Yields.lift (Solve.yields_of_ends fun w₁ hlater hcalm => ?_)
  have hsub' := FreeKind.later hlater hsub
  have hsup' := FreeKind.later hlater hsup
  refine (Solve.checkSubKind_free hcalm.toKept hsub'.1 hsup'.1 hsub'.2 hsup'.2).mono ?_
  rintro _ _ ⟨w₂, rfl, hchecks⟩
  exact ⟨w₂, rfl, hchecks.toSteps, True.intro⟩

theorem checkResultType_yields {data : Data Attributes} (hdata : DeclaredData w data)
    (name : QualifiedName) {node : Constructor Attributes} (hnode : node ∈ data.constructors) :
    Check.Yields among w (checkResultType data name node) fun _ _ => True := by
  unfold checkResultType
  split
  · rename_i constructorName written _ hwritten
    refine Check.withScope_yields (.const fun _ => True) ?_
    refine (Yields.mapM stays_grounded fun var hvar =>
        (kindOf_yields (hdata.typeParams var hvar)).bind fun _ _ _ hkind =>
          freshType_grounded hkind).bind fun w₁ params hlater₁ hparams => ?_
    refine (kindOf_yields hdata.here).bind fun w₂ kind hlater₂ hkind => ?_
    obtain ⟨hground, hbinds⟩ := (hdata.constructors node hnode).result written hwritten
    refine (toType_of_node hground hbinds).bind fun w₃ type hlater₃ htype => ?_
    refine requireAccepting_yields _ (World.Grounded.fits ?_) htype.fits
    split
    · exact Ty.fits_constructor.2 hkind
    · exact Ty.fits_apply.2 ⟨Ty.fits_constructor.2 hkind, fun param hparam =>
        (hlater₂.trans hlater₃).grounded (hparams param hparam), Kind.ground_type⟩
  · exact Yields.pure fun _ _ => True.intro

theorem checkResultTypes_yields {data : Data Attributes} (hdata : DeclaredData w data) :
    YieldsFit among w Data.infos (do
      match data.here.info.name with
      | .data name => data.constructors.forM (checkResultType data name)
      | _ => pure ()
      pure data) := by
  have hpure : ∀ {w' : World}, Later w w' → YieldsFit among w' Data.infos (pure data) :=
    fun hlater => Yields.pure fun _ hlater' info hinfo =>
      ((DeclaredData.later (hlater.trans hlater') hdata).infos info hinfo).fits
  split
  · exact (Yields.forM fun node hnode => checkResultType_yields hdata _ hnode).bind
      fun _ _ hlater _ => hpure hlater
  · exact hpure (.refl w)

theorem inferDataDeclaration_yields (hamong : TopLevel among) {node : Data Name}
    (hbinds : node.Binds) : YieldsFit among w Data.infos (inferDataDeclaration node) := by
  refine Yields.get fun w₁ c hlater₁ hcalm hc => ?_
  have hplaceholder : ∀ placeholder, ((c.store.stack.type? node.here.info.canonical).bind
      fun here => here.info.classifier.kind?) = some placeholder → FreeKind w₁ placeholder := by
    intro placeholder hfound
    rw [hc] at hfound
    refine free_of_found hcalm.toKept (.type node.here.info.canonical) hfound ?_
    exact fun frame hframe => (hamong _ (hcalm.scopes frame hframe)).1
  refine (inferData_yields hbinds fun tag htag => (hamong tag htag).1).bind
    fun w₂ data hlater₂ hdata => ?_
  dsimp only
  split
  · rename_i placeholder hfound
    have hfree := FreeKind.later hlater₂ (hplaceholder placeholder hfound)
    refine (kindOf_yields hdata.here).bind fun w₃ kind hlater₃ hkind => ?_
    refine (checkSubKind_free_yields (freeKind_of_ground w₃ hkind)
      (FreeKind.later hlater₃ hfree)).bind fun w₄ _ hlater₄ _ => Yields.ite (fun _ => ?_) fun _ =>
        checkResultTypes_yields (DeclaredData.later (hlater₃.trans hlater₄) hdata)
    have hsubstituted : Check.Yields among w₄
        (liftM (Solve.substituteKind placeholder) : Check Kind) fun _ _ => True := Solve.Yields.lift
      (Yields.get fun _ _ _ _ _ => Yields.pure fun _ _ => True.intro)
    refine hsubstituted.bind fun _ _ hlater₅ _ => (report_yields _ _).bind fun _ _ hlater₆ _ => ?_
    exact checkResultTypes_yields (DeclaredData.later
      (hlater₃.trans (hlater₄.trans (hlater₅.trans hlater₆))) hdata)
  · exact checkResultTypes_yields hdata

/-! ## Declarations -/

theorem inferDeclaration_yields (hamong : TopLevel among) {node : Declaration Name}
    (hbinds : node.Binds) : YieldsFit among w Declaration.infos (inferDeclaration node) := by
  cases node with
  | data d =>
    exact (inferDataDeclaration_yields hamong hbinds).bind fun _ _ _ h =>
      Yields.pure fun _ hlater => hlater.fitsAll h
  | binding d =>
    exact (d.judge_fits hbinds).bind fun _ _ _ h => Yields.pure fun _ hlater => hlater.fitsAll h
  | function d =>
    exact (inferFunction_yields hamong hbinds).bind fun _ _ _ h =>
      Yields.pure fun _ hlater => hlater.fitsAll h

/-- What is carried fits, and all kinds in it are known. -/
def SettledInfo (w : World) (info : Attributes) : Prop :=
  info.classifier.Ground ∧ info.classifier.Fits w

theorem SettledInfo.later : Stays SettledInfo := fun _ _ _ hlater h => ⟨h.1, hlater.classifier h.2⟩

/-- A classifier that fits is defaulted, after which all kinds in it are known. -/
theorem default_yields (among : ScopeTag → Prop) {info : Attributes} (h : info.classifier.Fits w) :
    Check.Yields among w (liftM (Solve.default info) : Check Attributes) SettledInfo := by
  refine Solve.Yields.lift (Solve.yields_of_ends fun w₁ hlater hcalm => ?_)
  obtain ⟨hchecks, hground, hfits⟩ := hcalm.toKept.default_classifier (hlater.classifier h)
  exact Ends.bind (Ends.bind (Ends.get (Ends.bind (Ends.set (Ends.pure (Ends.pure
    ⟨_, rfl, hchecks.toSteps, hground, hfits⟩))))))

theorem defaultDeclaration_yields {node : Declaration Attributes} (h : w.FitsAll node.infos) :
    Check.Yields among w
      (node.traverse fun attributes => (Solve.default attributes : Check Attributes))
      fun w' node' => ∀ info ∈ node'.infos, SettledInfo w' info := by
  intro w₁ c hlater hcalm hc
  refine Ends.of_map Declaration.infos (fun infos (c' : Checker) => ∃ w₂,
    World.store w₂ = c'.store ∧ Steps [] w₁ w₂ ∧ ∀ info ∈ infos, SettledInfo w₂ info) ?_
  rw [Declaration.infos_traverse]
  exact Yields.mapM SettledInfo.later
    (fun info hinfo => default_yields among (hlater.fitsAll h info hinfo)) w₁ c (.refl w₁) hcalm hc

/-- A node that carries a type is bound. -/
theorem bindTopLevel_yields (name : String) {here : Located Attributes} {type : Ty}
    (htype : here.info.classifier = .ofType type) (h : w.Fits type) :
    Check.Yields among w (bindTopLevel name here) fun _ _ => True :=
  (put_yields (.value name) rfl fun _ => bound_of_type htype h).bind fun _ _ hlater _ =>
    put_yields (.value here.info.name.canonical) rfl fun _ =>
      bound_of_type htype (hlater.fits h)

theorem reportAmbiguous_yields (name : String) {here : Located Attributes}
    (h : here.info.classifier.Fits w) :
    Check.Yields among w (reportAmbiguous name here) fun w' _ =>
      ∃ type, here.info.classifier = .ofType type ∧ w'.Fits type := by
  have htyped : Check.Yields among w (typeOf here) fun w' _ =>
      ∃ type, here.info.classifier = .ofType type ∧ w'.Fits type := by
    unfold typeOf
    split
    · rename_i type heq
      rw [heq] at h
      exact Yields.pure fun _ hlater => ⟨type, heq, hlater.fits h⟩
    · exact Yields.throw _
  refine htyped.bind fun w₁ _ _ ⟨type, heq, htype⟩ => ?_
  refine (Yields.when (report_yields here.range _)).mono fun w' _ hlater _ => ?_
  exact ⟨type, heq, hlater.fits htype⟩

/-- A declaration is settled: all kinds in it are known. -/
theorem finishDeclaration_yields {node : Declaration Attributes} (h : w.FitsAll node.infos) :
    Check.Yields among w (finishDeclaration node) fun _ node' =>
      ∀ info ∈ node'.infos, info.classifier.Ground := by
  refine (defaultDeclaration_yields h).bind fun w₁ node' _ hnode' => ?_
  have hdone : ∀ {w' : World}, Check.Yields among w' (pure node' : Check (Declaration Attributes))
      fun _ node => ∀ info ∈ node.infos, info.classifier.Ground :=
    Yields.pure fun _ _ info hinfo => (hnode' info hinfo).1
  have hbind : node'.here.info.classifier.Fits w₁ → Check.Yields among w₁ (do
      reportAmbiguous node'.name node'.here
      bindTopLevel node'.name node'.here
      pure node') fun _ node => ∀ info ∈ node.infos, info.classifier.Ground := fun hfits =>
    (reportAmbiguous_yields _ hfits).bind fun _ _ _ ⟨_, heq, htype⟩ =>
      (bindTopLevel_yields _ heq htype).bind fun _ _ _ _ => hdone
  cases node' with
  | data d => exact hdone
  | binding d => exact hbind (hnode' _ (Declaration.here_mem_infos _)).2
  | function d => exact hbind (hnode' _ (Declaration.here_mem_infos _)).2

theorem inferGroup_yields (hamong : TopLevel among) {group : List (Declaration Name)}
    (hbinds : ∀ node ∈ group, node.Binds) :
    Check.Yields among w (inferGroup group) fun _ nodes =>
      ∀ node ∈ nodes, ∀ info ∈ node.infos, info.classifier.Ground :=
  (Yields.mapM (stays_fitsAll _) fun node hnode =>
    inferDeclaration_yields hamong (hbinds node hnode)).bind fun _ _ _ hnodes =>
      Yields.mapM (.const fun node : Declaration Attributes =>
        ∀ info ∈ node.infos, info.classifier.Ground) fun node hnode =>
          finishDeclaration_yields (hnodes node hnode)

/-! ## Placeholders -/

theorem bindUnknown_yields (name : String) (here : Located Name) :
    Check.Yields among w (do bindTopLevel name (typed here (← freshType))) fun _ _ => True :=
  freshType_yields.bind fun _ _ _ htype => bindTopLevel_yields name rfl htype

theorem populateConstructor_yields (node : Constructor Name) :
    Check.Yields among w (populateConstructor node) fun _ _ => True := by
  refine freshType_yields.bind fun _ _ _ htype => ?_
  refine (bindTopLevel_yields node.name rfl htype).bind fun _ _ _ _ => ?_
  split
  · rename_i name _
    refine Yields.forM fun param _ => freshType_yields.bind fun _ _ _ htype => ?_
    exact put_yields (.field name param.name) rfl (bound_typed _ htype)
  · exact Yields.pure fun _ _ => True.intro

theorem freshKind_yields :
    Check.Yields among w (liftM Solve.freshKind : Check Kind) FreeKind := by
  intro w₁ c _ hcalm hc
  refine (freshKind_finds hcalm.toKept hc).mono ?_
  rintro kind c' ⟨w₂, hc', hsteps, hfree⟩
  exact ⟨w₂, hc', hsteps.toSteps, hfree⟩

theorem populateDeclaration_yields (node : Declaration Name) :
    Check.Yields among w (populateDeclaration node) fun _ _ => True := by
  cases node with
  | data d =>
    refine freshKind_yields.bind fun w₁ kind _ hkind => ?_
    have hput : ∀ {w' : World} (slot : Slot) {run : Solve Unit}, FreeKind w' kind →
        run = Solve.onStack (Stack.updateTop fun frame => frame.put (kinded d.here kind) slot) →
        Check.Yields among w' (liftM run : Check Unit) fun _ _ => True := fun slot _ hkind hrun =>
      put_yields slot hrun (bound_of_free _ rfl hkind.1 hkind.2)
    refine (hput (.type d.name) hkind rfl).bind fun w₂ _ hlater₂ _ => ?_
    refine (hput (.type d.here.info.canonical) (FreeKind.later hlater₂ hkind) rfl).bind
      fun w₃ _ _ _ => ?_
    exact Yields.forM fun inner _ => populateConstructor_yields inner
  | binding d => exact bindUnknown_yields d.name d.here
  | function d => exact bindUnknown_yields d.name d.here

end Check

end PolyFront
