import PolyFront.Proofs.Grounding.Placeholders

/-!
# Values

What is known of values fits, and so does all that the nodes of parameters and references carry.
-/

namespace PolyFront

open Run Check

namespace World

variable {w w' : World} {infos infos' : List Attributes}

/-- All that is carried fits. -/
def FitsAll (w : World) (infos : List Attributes) : Prop :=
  ∀ info ∈ infos, info.classifier.Fits w

theorem FitsAll.nil (w : World) : w.FitsAll [] := fun _ h => (List.not_mem_nil h).elim

theorem FitsAll.cons {info : Attributes} (h : info.classifier.Fits w) (hrest : w.FitsAll infos) :
    w.FitsAll (info :: infos) := by
  intro other hother
  rcases List.mem_cons.1 hother with rfl | hother
  · exact h
  · exact hrest other hother

theorem FitsAll.append (h : w.FitsAll infos) (h' : w.FitsAll infos') :
    w.FitsAll (infos ++ infos') := fun info hinfo =>
  (List.mem_append.1 hinfo).elim (h info) (h' info)

theorem FitsAll.flatMap {α : Type} {infos : α → List Attributes} {items : List α}
    (h : ∀ item ∈ items, w.FitsAll (infos item)) : w.FitsAll (items.flatMap infos) := by
  intro info hinfo
  obtain ⟨item, hitem, hinfo⟩ := List.mem_flatMap.1 hinfo
  exact h item hitem info hinfo

theorem FitsAll.head {info : Attributes} (h : w.FitsAll (info :: infos)) :
    info.classifier.Fits w := h info List.mem_cons_self

theorem Later.fitsAll (h : Later w w') (hinfos : w.FitsAll infos) : w'.FitsAll infos :=
  fun info hinfo => h.classifier (hinfos info hinfo)

/-- What is known fits. -/
theorem fitsAll_of_ground (w : World) (h : ∀ info ∈ infos, info.GroundKind) : w.FitsAll infos :=
  fun info hinfo => (h info hinfo).fits w

end World

open World

namespace Check

variable {α : Type} {among : ScopeTag → Prop} {w : World}

/-- A run that leads to items of which all that they carry fits. -/
abbrev YieldsFit (among : ScopeTag → Prop) (w : World) (infos : α → List Attributes)
    (run : Check α) : Prop := Check.Yields among w run fun w' item => w'.FitsAll (infos item)

theorem stays_fitsAll (infos : α → List Attributes) :
    Stays fun (w : World) (item : α) => w.FitsAll (infos item) :=
  fun _ _ _ hlater h => hlater.fitsAll h

theorem fits_typed {here : Located Name} {type : Ty} (h : w.Fits type) :
    (typed here type).info.classifier.Fits w := h

/-! ## Types of values -/

theorem freshType_yields : Check.Yields among w freshType fun w' type => w'.Fits type :=
  (Solve.freshType_yields (w.live_of_ground Kind.ground_type)).lift

theorem typeOf_yields {here : Located Attributes} (h : here.info.classifier.Fits w) :
    Check.Yields among w (typeOf here) fun w' type => w'.Fits type := by
  unfold typeOf
  split
  · rename_i type heq
    rw [heq] at h
    exact Yields.pure fun _ hlater => hlater.fits h
  · exact Yields.throw _

theorem report_yields (range : Range) (message : String) :
    Check.Yields among w (report range message) fun _ _ => True := Yields.modify fun _ => rfl

theorem substituteType_yields {type : Ty} (h : w.Fits type) :
    Check.Yields among w (liftM (Solve.substituteType type) : Check Ty) fun w' type' =>
      w'.Fits type' := (Solve.substituteType_yields h).lift

theorem checkSubType_yields {sub sup : Ty} (hsub : w.Fits sub) (hsup : w.Fits sup) :
    Check.Yields among w (liftM (Solve.checkSubType sub sup) : Check Bool) fun _ _ => True :=
  (Solve.checkSubType_yields hsub hsup).lift

theorem reportMismatch_yields (range : Range) {expected actual : Ty} (hexpected : w.Fits expected)
    (hactual : w.Fits actual) :
    Check.Yields among w (reportMismatch range expected actual) fun _ _ => True :=
  (substituteType_yields hexpected).bind fun _ _ hlater _ =>
    (substituteType_yields (hlater.fits hactual)).bind fun _ _ _ _ => report_yields _ _

theorem reportOperand_yields (range : Range) (expected : Operand) {actual : Ty}
    (hactual : w.Fits actual) :
    Check.Yields among w (reportOperand range expected actual) fun _ _ => True :=
  (substituteType_yields hactual).bind fun _ _ _ _ => report_yields _ _

theorem requireUsable_yields (range : Range) {expected actual : Ty} (hexpected : w.Fits expected)
    (hactual : w.Fits actual) :
    Check.Yields among w (requireUsable range expected actual) fun _ _ => True :=
  (checkSubType_yields hactual hexpected).bind fun _ _ hlater _ =>
    Yields.when (reportMismatch_yields range (hlater.fits hexpected) (hlater.fits hactual))

theorem requireAccepting_yields (range : Range) {expected written : Ty}
    (hexpected : w.Fits expected) (hwritten : w.Fits written) :
    Check.Yields among w (requireAccepting range expected written) fun _ _ => True :=
  (checkSubType_yields hexpected hwritten).bind fun _ _ hlater _ =>
    Yields.when (reportMismatch_yields range (hlater.fits hexpected) (hlater.fits hwritten))

theorem acceptsOperand_yields (operand : Operand) {type : Ty} (h : w.Fits type) :
    Check.Yields among w (acceptsOperand operand type) fun _ _ => True :=
  Yields.anyM fun _ _ => checkSubType_yields h (Ty.fits_builtIn _)

/-! ## Names -/

theorem typeOfName_yields (name : Name) :
    Check.Yields among w (typeOfName name) fun w' type => w'.Fits type := by
  refine Yields.ite (fun _ => freshType_yields) fun _ => ?_
  intro w₁ c hlater hcalm hc
  refine Ends.bind (Ends.bind (Ends.get (Ends.pure ?_)))
  split
  · rename_i type hbound
    rw [hc] at hbound
    have htype := fits_of_found hcalm.toKept (.value name.canonical) hbound
    exact substituteType_yields htype w₁ c (.refl w₁) hcalm hc
  · exact freshType_yields w₁ c (.refl w₁) hcalm hc

theorem putValue_yields (text : String) {here : Located Name} {type : Ty} (h : w.Fits type) :
    Check.Yields among w (liftM (Solve.putValue text (typed here type)) : Check Unit)
      fun _ _ => True := put_yields (.value text) rfl (bound_typed here h)

theorem bindValue_yields (text : String) {here : Located Name} {type : Ty} (h : w.Fits type) :
    Check.Yields among w (bindValue text (typed here type)) fun _ _ => True := by
  refine Yields.ite (fun _ => ?_) fun _ => putValue_yields text h
  refine (settlePlaceholder_yields _ h).bind fun _ _ hlater _ => ?_
  refine (putValue_yields _ (hlater.fits h)).bind fun _ _ hlater' _ => ?_
  exact putValue_yields text (hlater'.fits (hlater.fits h))

/-! ## Parameters -/

theorem ascriptionOrFresh_yields {node : Option (TypeNode Name)}
    (hbinds : TypeNode.BindsOption node) :
    Check.Yields among w (ascriptionOrFresh node) fun w' result =>
      w'.FitsAll (infosOption TypeNode.infos result.1) ∧ w'.Fits result.2 := by
  cases node with
  | none =>
    exact freshType_yields.bind fun _ _ _ htype => Yields.pure fun _ hlater =>
      ⟨.nil _, hlater.fits htype⟩
  | some written =>
    refine (ascription_yields (hbinds written rfl)).bind fun _ _ _ ⟨hnode, htype⟩ =>
      Yields.pure fun _ hlater => ⟨fitsAll_of_ground _ hnode, (hlater.grounded htype).fits⟩

theorem inferParam_yields {param : Param Name} (hbinds : param.Binds) :
    YieldsFit among w Param.infos (inferParam param) :=
  (ascriptionOrFresh_yields hbinds).bind fun _ _ _ ⟨hnode, htype⟩ =>
    (putValue_yields param.name htype).bind fun _ _ hlater _ => Yields.pure fun _ hlater' =>
      .cons ((hlater.trans hlater').fits htype) ((hlater.trans hlater').fitsAll hnode)

theorem checkParam_yields {param : Param Name} (hbinds : param.Binds) {expected : Ty}
    (hexpected : w.Fits expected) : YieldsFit among w Param.infos (checkParam param expected) := by
  have hput : ∀ {w₁ : World} (node : Option (TypeNode Attributes)) {type : Ty},
      w₁.FitsAll (infosOption TypeNode.infos node) → w₁.Fits type →
      YieldsFit among w₁ Param.infos (do
        let here := typed param.here type
        Solve.putValue param.name here
        pure ⟨here, param.name, node⟩) := fun node _ hnode htype =>
    (putValue_yields param.name htype).bind fun _ _ hlater _ => Yields.pure fun _ hlater' =>
      .cons ((hlater.trans hlater').fits htype) ((hlater.trans hlater').fitsAll hnode)
  unfold checkParam
  cases hascription : param.ascription with
  | none => exact hput none (.nil _) hexpected
  | some written =>
    refine (ascription_yields (hbinds written hascription)).bind
      fun w₁ result hlater ⟨hnode, htype⟩ => ?_
    refine (requireAccepting_yields _ (hlater.fits hexpected) htype.fits).bind
      fun w₂ _ hlater' _ => ?_
    exact hput (some result.1) (fitsAll_of_ground _ hnode) (hlater'.grounded htype).fits

theorem inferReference_yields (node : Reference Name) :
    YieldsFit among w (fun node => [node.here.info]) (inferReference node) :=
  (typeOfName_yields _).bind fun _ _ _ htype => Yields.pure fun _ hlater =>
    .cons (hlater.fits htype) (.nil _)

end Check

end PolyFront
