import PolyFront.Checking.DataKinds
import PolyFront.Proofs.Grounding.Ascribed
import PolyFront.Proofs.Kinding.Trees

/-!
# Data declarations

The kinds of a data declaration are found outside of functions, where all names have kinds that are
free.  They are known once the declaration is done, and so are the kinds in the types of its
constructors.
-/

namespace PolyFront

open Run Check World

namespace World

variable {w w' : World} {tag : ScopeTag}

/-- A kind or all kinds in a type are known. -/
def Grounds (w : World) (info : Attributes) : Prop :=
  match info.classifier with
  | .ofKind kind => kind.Ground
  | .ofType type => w.Grounded type

theorem Later.grounds (h : Later w w') {info : Attributes} (hinfo : w.Grounds info) :
    w'.Grounds info := by
  unfold Grounds at hinfo ⊢
  split
  · rename_i kind heq
    rw [heq] at hinfo
    exact hinfo
  · rename_i type heq
    rw [heq] at hinfo
    exact h.grounded hinfo

theorem Grounds.fits {info : Attributes} (h : w.Grounds info) : info.classifier.Fits w := by
  unfold Grounds at h
  split at h
  · rename_i kind heq
    rw [heq]
    exact h.proper _
  · rename_i type heq
    rw [heq]
    exact h.fits

theorem Grounds.ground {info : Attributes} (h : w.Grounds info) : info.classifier.Ground := by
  unfold Grounds at h
  split at h
  · rename_i kind heq
    rw [heq]
    exact h
  · rename_i type heq
    rw [heq]
    exact Ty.Fits.kinds h fun _ hkind => hkind

theorem Grounds.of_groundKind {info : Attributes} (h : info.GroundKind) : w.Grounds info := by
  obtain ⟨kind, heq, hground⟩ := h
  rw [Grounds, heq]
  exact hground

/-- A type is bound. -/
theorem bound_of_type {here : Located Attributes} {type : Ty}
    (htype : here.info.classifier = .ofType type) (hfits : w.Fits type) : w.Bound tag here where
  fits := by
    rw [htype]
    exact hfits
  free _ kind heq := by
    rw [htype] at heq
    cases heq

end World

namespace Check

variable {among : ScopeTag → Prop} {w : World}

theorem put_yields (slot : Slot) {item : Located Attributes} {run : Solve Unit}
    (hrun : run = Solve.onStack (Stack.updateTop fun frame => frame.put item slot))
    (hitem : ∀ tag, w.Bound tag item) :
    Check.Yields among w (liftM run : Check Unit) fun _ _ => True := by
  intro w₁ c hlater hcalm hc
  refine (put_finds hcalm.toKept hc slot hrun fun tag => hlater.bound (hitem tag)).mono ?_
  rintro _ c₁ ⟨w₂, hc₁, hsteps⟩
  exact ⟨w₂, hc₁, hsteps.toSteps, True.intro⟩

/-! ## Written types -/

/-- The kinds in a written type are free. -/
def CarriesFree (w : World) (node : TypeNode Attributes) : Prop :=
  ∀ info ∈ node.infos, w.Carries info

theorem CarriesFree.later : Stays CarriesFree :=
  fun _ _ _ hlater h info hinfo => hlater.carries (h info hinfo)

theorem fieldTypeNode_yields (node : TypeNode Name) (hamong : ∀ tag, among tag → tag ≠ .binding) :
    Check.Yields among w (fieldTypeNode node) CarriesFree := by
  intro w₁ c hlater hcalm hc
  have hapart : w₁.Apart false := fun _ frame hframe => hamong _ (hcalm.scopes frame hframe)
  have hfound : Ends (fieldTypeNode node) c fun node' c' => ∃ w₂, w₂.store = c'.store ∧
      Found false node'.infos w₁ w₂ := by
    refine Ends.bind (((node.judge_shows false).check hcalm.toKept hapart (Kind.proper_type _)
      Kind.free_type c hc).mono ?_)
    rintro node₁ c₁ ⟨w₂, hc₁, hfound⟩
    refine (traverse_substitute_ends (TypeNode.infos_traverse _ _)).mono ?_
    rintro node' _ ⟨rfl, hinfos⟩
    obtain ⟨w₃, hw₃, hsubstituted⟩ := hfound.substitute
    rw [← hc₁] at hinfos
    exact ⟨w₃, hw₃.trans hc₁, hinfos ▸ hsubstituted⟩
  refine hfound.mono ?_
  rintro node' c' ⟨w₂, hc', hfound⟩
  exact ⟨w₂, hc', hfound.toSteps, hfound.carries⟩

/-- The kinds in the written types of a constructor are free. -/
def CarriesAll (w : World) (checked : CheckedConstructor) : Prop :=
  (∀ node ∈ checked.fields, CarriesFree w node) ∧
    ∀ node, checked.result = some node → CarriesFree w node

theorem CarriesAll.later : Stays CarriesAll := fun _ _ _ hlater h =>
  ⟨fun node hnode => CarriesFree.later hlater (h.1 node hnode),
    fun node hnode => CarriesFree.later hlater (h.2 node hnode)⟩

/-- A type that may be left out. -/
theorem traverseOption_yields {run : TypeNode Name → Check (TypeNode Attributes)}
    {good : World → TypeNode Attributes → Prop} (hstays : Stays good)
    (hrun : ∀ node, Check.Yields among w (run node) good) (node : Option (TypeNode Name)) :
    Check.Yields among w (traverseOption run node) fun w' result =>
      ∀ node', result = some node' → good w' node' := by
  cases node with
  | none => exact Yields.pure fun _ _ => nofun
  | some written =>
    refine (hrun written).bind fun _ node' _ hnode' => Yields.pure fun _ hlater _ heq => ?_
    exact Option.some.inj heq ▸ hstays hlater hnode'

theorem checkConstructor_yields (node : Constructor Name)
    (hamong : ∀ tag, among tag → tag ≠ .binding) :
    Check.Yields among w (checkConstructor node) CarriesAll := by
  unfold checkConstructor
  split
  · rename_i name _
    refine Check.withScope_yields CarriesAll.later ?_
    have hamong' : ∀ tag, among tag ∨ tag = (ScopeKind.constructor name).tag → tag ≠ .binding := by
      rintro tag (htag | rfl)
      · exact hamong tag htag
      · exact nofun
    refine (Yields.mapM CarriesFree.later fun param _ =>
      fieldTypeNode_yields param.ascription hamong').bind fun w₁ fields _ hfields => ?_
    refine (traverseOption_yields CarriesFree.later (fun node => fieldTypeNode_yields node hamong')
      node.result).bind fun w₂ result hlater hresult => Yields.pure fun w₃ hlater' => ?_
    exact ⟨fun node hnode => CarriesFree.later (hlater.trans hlater') (hfields node hnode),
      fun node hnode => CarriesFree.later hlater' (hresult node hnode)⟩
  · exact Yields.throw _

/-! ## The kind of a declaration -/

/-- The kind was created and is free. -/
def FreeKind (w : World) (kind : Kind) : Prop := kind.Proper w.store.nextKind ∧ w.Free kind

theorem FreeKind.later : Stays FreeKind := fun _ _ _ hlater h =>
  ⟨h.1.mono hlater.kinds, hlater.free h.1 h.2⟩

theorem freeKind_of_ground (w : World) {kind : Kind} (h : kind.Ground) : FreeKind w kind := by
  refine ⟨h.proper _, Kind.free_iff_forall.2 fun id hid => ?_⟩
  rw [h] at hid
  exact (List.not_mem_nil hid).elim

theorem inferTypeVar_yields (var : TypeVarNode Name) :
    Check.Yields among w (inferTypeVar var) fun w' var' => w'.Carries var'.here.info := by
  intro w₁ c hlater hcalm hc
  refine (KindJudgement.inferTypeVar_finds false var hcalm.toKept c hc).mono ?_
  rintro var' c₁ ⟨w₂, hc₁, hfound⟩
  exact ⟨w₂, hc₁, hfound.toSteps, hfound.carries _ List.mem_cons_self⟩

theorem kindOf_carried {here : Located Attributes} (h : w.Carries here.info) :
    Check.Yields among w (kindOf here) FreeKind := by
  obtain ⟨kind, hkind, hfree⟩ := h
  intro w₁ c hlater hcalm hc
  exact kindOf_ends hkind ⟨w₁, hc.symm, hcalm.toKept.steps, FreeKind.later hlater hfree⟩

theorem freeKind_dataKind {kinds : List Kind} (h : ∀ kind ∈ kinds, FreeKind w kind) :
    FreeKind w (dataKind kinds) := by
  rw [dataKind]
  split
  · exact ⟨Kind.proper_type _, Kind.free_type⟩
  · exact ⟨Kind.proper_higher.2 ⟨fun kind hkind => (h kind hkind).1, Kind.proper_type _⟩,
      Kind.free_higher.2 ⟨fun kind hkind => (h kind hkind).2, Kind.free_type⟩⟩

theorem bindData_yields (text : String) (name : QualifiedName) (here : Located Attributes)
    {kind : Kind} (hkind : here.info.classifier = .ofKind kind) (hfree : FreeKind w kind) :
    Check.Yields among w (bindData text name here) fun _ _ => True :=
  (put_yields (.type text) rfl (bound_of_free _ hkind hfree.1 hfree.2)).bind
    fun _ _ hlater _ => put_yields (.type name.canonical) rfl
      fun tag => hlater.bound (bound_of_free _ hkind hfree.1 hfree.2 tag)

theorem defaultKind_yields {kind : Kind} (h : kind.Proper w.store.nextKind) :
    Check.Yields among w (liftM (Solve.defaultKind kind) : Check Kind) fun _ kind' =>
      kind'.Ground := by
  refine Solve.Yields.lift (Solve.yields_of_ends fun w₁ hlater hcalm => ?_)
  obtain ⟨hchecks, hground, -⟩ := hcalm.toKept.default_kind (h.mono hlater.kinds)
  exact Ends.bind (Ends.get (Ends.bind (Ends.modify (Ends.pure
    ⟨_, rfl, hchecks.toSteps, hground⟩))))

/-- The binder of a declaration is defaulted. -/
theorem default_var_yields {var : TypeVarNode Attributes} (h : w.Carries var.here.info) :
    Check.Yields among w (var.traverse fun info => (Solve.default info : Check Attributes))
      fun _ var' => var'.here.info.GroundKind := by
  obtain ⟨kind, hkind, hproper, -⟩ := h
  have hdefault : Check.Yields among w (liftM (Solve.default var.here.info) : Check Attributes)
      fun _ info' => info'.GroundKind := by
    intro w₁ c hlater hcalm hc
    obtain ⟨hchecks, hground, -⟩ := hcalm.toKept.default_kind (hproper.mono hlater.kinds)
    refine (default_kind_ends hkind).mono ?_
    rintro info' c₁ ⟨hinfo', hc₁⟩
    rw [hc] at hinfo' hc₁
    exact ⟨_, hc₁.symm, hchecks.toSteps, _, hinfo', hground⟩
  refine Yields.bind (hdefault.bind fun _ _ _ hinfo => Yields.pure fun _ _ => hinfo)
    fun _ (here : Located Attributes) _ (hinfo : here.info.GroundKind) => ?_
  exact Yields.pure fun _ _ => hinfo

/-- All kinds in a written type are known. -/
def GroundNode (_ : World) (node : TypeNode Attributes) : Prop :=
  ∀ info ∈ node.infos, info.GroundKind

theorem GroundNode.later : Stays GroundNode := fun _ _ _ _ h => h

theorem defaultNode_yields {node : TypeNode Attributes} (h : CarriesFree w node) :
    Check.Yields among w (defaultNode node) GroundNode := by
  intro w₁ c hlater hcalm hc
  have hfound : Found false node.infos w₁ w₁ :=
    ⟨hcalm.toKept.kindSteps, CarriesFree.later hlater h⟩
  refine (defaultNode_ends hfound hc).mono ?_
  rintro node' c' ⟨w₂, hc', hsteps, hground⟩
  exact ⟨w₂, hc', hsteps.toSteps, hground⟩

/-- All kinds in the written types of a constructor are known. -/
def GroundAll (w : World) (checked : CheckedConstructor) : Prop :=
  (∀ node ∈ checked.fields, GroundNode w node) ∧
    ∀ node, checked.result = some node → GroundNode w node

theorem GroundAll.later : Stays GroundAll := fun _ _ _ _ h => h

theorem defaultConstructor_yields {checked : CheckedConstructor} (h : CarriesAll w checked) :
    Check.Yields among w (defaultConstructor checked) GroundAll := by
  refine (Yields.mapM GroundNode.later fun node hnode => defaultNode_yields (h.1 node hnode)).bind
    fun w₁ fields hlater hfields => ?_
  have hresult : Check.Yields among w₁ (traverseOption defaultNode checked.result)
      fun w' result => ∀ node, result = some node → GroundNode w' node := by
    cases hchecked : checked.result with
    | none => exact Yields.pure fun _ _ => nofun
    | some node =>
      refine (defaultNode_yields (CarriesFree.later hlater (h.2 node hchecked))).bind
        fun _ node' _ hnode' => Yields.pure fun _ _ _ heq => ?_
      exact Option.some.inj heq ▸ hnode'
  exact hresult.bind fun _ _ _ hnode => Yields.pure fun _ _ => ⟨hfields, hnode⟩

/-- What the parameters, the kind and the constructors of a declaration are known to be. -/
structure DataDone (parts : List (TypeVarNode Attributes) × Kind × List CheckedConstructor) :
    Prop where
  typeParams : ∀ var ∈ parts.1, var.here.info.GroundKind
  kind : parts.2.1.Ground
  constructors : ∀ checked ∈ parts.2.2, ∀ w, GroundAll w checked

theorem checkData_yields (node : Data Name) (name : QualifiedName)
    (hamong : ∀ tag, among tag → tag ≠ .binding) :
    Check.Yields among w (checkData node name) fun _ parts => DataDone parts := by
  refine Check.withScope_yields (.const DataDone) ?_
  have hamong' : ∀ tag, among tag ∨ tag = (ScopeKind.data name).tag → tag ≠ .binding := by
    rintro tag (htag | rfl)
    · exact hamong tag htag
    · exact nofun
  have hcarries : Stays fun (w : World) (var : TypeVarNode Attributes) => w.Carries var.here.info :=
    fun _ _ _ hlater h => hlater.carries h
  refine (Yields.mapM hcarries fun var _ => inferTypeVar_yields var).bind
    fun w₁ vars _ hvars => ?_
  refine (Yields.mapM FreeKind.later fun var hvar => kindOf_carried (hvars var hvar)).bind
    fun w₂ kinds hlater₂ hkinds => ?_
  have hkind := freeKind_dataKind hkinds
  refine (bindData_yields node.name name (kinded node.here (dataKind kinds)) rfl hkind).bind
    fun w₃ _ hlater₃ _ => ?_
  refine (Yields.mapM CarriesAll.later fun inner _ => checkConstructor_yields inner hamong').bind
    fun w₄ checked hlater₄ hchecked => ?_
  have hlater := (hlater₂.trans hlater₃).trans hlater₄
  refine (Yields.mapM (.const fun var : TypeVarNode Attributes => var.here.info.GroundKind)
    fun var hvar =>
      default_var_yields (hlater.carries (hvars var hvar))).bind fun w₅ vars' hlater₅ hvars' => ?_
  refine (defaultKind_yields (hkind.1.mono ((hlater₃.trans hlater₄).trans hlater₅).kinds)).bind
    fun w₆ kind hlater₆ hground => ?_
  refine (Yields.mapM GroundAll.later fun item hitem => defaultConstructor_yields
    (CarriesAll.later (hlater₅.trans hlater₆) (hchecked item hitem))).bind
      fun w₇ done _ hdone => Yields.pure fun _ _ => ?_
  exact ⟨hvars', hground, fun item hitem _ => hdone item hitem⟩

/-! ## Constructors -/

/-- All kinds that the node carries are known. -/
def GroundsAll {α : Type} (infos : α → List Attributes) (w : World) (item : α) : Prop :=
  ∀ info ∈ infos item, w.Grounds info

theorem GroundsAll.later {α : Type} {infos : α → List Attributes} : Stays (GroundsAll infos) :=
  fun _ _ _ hlater h info hinfo => hlater.grounds (h info hinfo)

theorem grounds_typed {here : Located Name} {type : Ty} (h : w.Grounded type) :
    w.Grounds (typed here type).info := h

theorem bound_typed (here : Located Name) {type : Ty} (h : w.Fits type) (tag : ScopeTag) :
    w.Bound tag (typed here type) := bound_of_type rfl h

theorem bindFields_yields (name : ConstructorName) (params : List (ConstructorParam Name))
    (fields : List (TypeNode Attributes × Ty))
    (hfields : ∀ field ∈ fields, (∀ w, GroundNode w field.1) ∧ w.Grounded field.2) :
    Check.Yields among w (bindFields name params fields) fun w' params =>
      ∀ param ∈ params, GroundsAll ConstructorParam.infos w' param := by
  refine Yields.mapM GroundsAll.later ?_
  rintro ⟨param, node, type⟩ hpair
  obtain ⟨hnode, htype⟩ := hfields _ (List.of_mem_zip hpair).2
  refine (put_yields (.field name param.name) rfl fun tag =>
    bound_typed param.here htype.fits tag).bind fun w₁ _ hlater _ =>
      Yields.pure fun w₂ hlater' info hinfo => ?_
  rcases List.mem_cons.1 hinfo with rfl | hinfo
  · exact grounds_typed ((hlater.trans hlater').grounded htype)
  · exact Grounds.of_groundKind (hnode w₂ info hinfo)

/-- The types that a constructor is written with bind named variables. -/
def BindsAll (checked : CheckedConstructor) : Prop :=
  (∀ node ∈ checked.fields, TypeNode.Binds (node.traverse nameOnly)) ∧
    ∀ node, checked.result = some node → TypeNode.Binds (node.traverse nameOnly)

theorem CheckedConstructor.Of.bindsAll {node : Constructor Name} {checked : CheckedConstructor}
    (h : checked.Of node) (hnode : node.Binds) : BindsAll checked := by
  refine ⟨fun field hfield => ?_, fun written hwritten => ?_⟩
  · obtain ⟨param, hparam, heq⟩ := exists_related_left h.fields hfield
    rw [heq]
    exact hnode.1 param hparam
  · refine hnode.2 _ ?_
    rw [← h.result, hwritten]
    rfl

/-- What a constructor is known to be. -/
structure ConstructorDone (w : World) (node : Constructor Attributes) : Prop where
  infos : GroundsAll Constructor.infos w node
  result : ∀ written, node.result = some written →
    (∀ w, GroundNode w written) ∧ TypeNode.Binds (written.traverse nameOnly)

theorem ConstructorDone.later : Stays ConstructorDone := fun _ _ _ hlater h =>
  ⟨GroundsAll.later hlater h.infos, h.result⟩

theorem toType_of_node {node : TypeNode Attributes} (hground : ∀ w, GroundNode w node)
    (hbinds : TypeNode.Binds (node.traverse nameOnly)) :
    Check.Yields among w (toType node) fun w' type => w'.Grounded type :=
  toType_yields node (hground w) hbinds

/-- A constructor of a given result is bound. -/
theorem bindBody_yields (among : ScopeTag → Prop) (result : Ty) {params : List Ty} {kind : Kind}
    (node : Constructor Name) {checked : CheckedConstructor} {fields : List Ty}
    (hparams : ∀ param ∈ params, param.isVar = true ∧ w.Grounded param)
    (hfields : ∀ field ∈ fields, w.Grounded field) (hresult : w.Grounded result)
    (hkind : kind.Ground) (hchecked : ∀ w, GroundAll w checked) (hbinds : BindsAll checked) :
    Check.Yields among w (do
      let body := if fields.isEmpty then result else Ty.function fields result
      let type := if params.isEmpty then body else .quantified params body .type
      let here := typed node.here type
      let canonical := checked.name.name.canonical
      Solve.putValue node.name here
      Solve.putValue canonical here
      Solve.putType node.name (kinded node.here kind)
      Solve.putType canonical (kinded node.here kind)
      let params ← bindFields checked.name node.params (checked.fields.zip fields)
      pure ⟨here, node.name, params, checked.result⟩ : Check (Constructor Attributes))
      ConstructorDone := by
  have hbody : w.Grounded (if fields.isEmpty then result else Ty.function fields result) := by
    split
    · exact hresult
    · exact Grounded.function hfields hresult
  dsimp only
  generalize (if fields.isEmpty then result else Ty.function fields result) = body at hbody
  have htype : w.Grounded (if params.isEmpty then body else .quantified params body .type) := by
    split
    · exact hbody
    · exact Ty.fits_quantified.2 ⟨hparams, hbody, Kind.ground_type⟩
  generalize (if params.isEmpty then body else .quantified params body .type) = type at htype
  have hkinded : ∀ {w' : World} {tag : ScopeTag}, w'.Bound tag (kinded node.here kind) :=
    fun {w' tag} =>
      bound_of_free _ rfl (freeKind_of_ground w' hkind).1 (freeKind_of_ground w' hkind).2 tag
  refine (put_yields (.value node.name) rfl
    (bound_typed node.here htype.fits)).bind fun w₁ _ hlater₁ _ => ?_
  refine (put_yields (.value checked.name.name.canonical) rfl
    (bound_typed node.here (hlater₁.grounded htype).fits)).bind fun w₂ _ hlater₂ _ => ?_
  refine (put_yields (.type node.name) rfl fun _ => hkinded).bind fun w₃ _ hlater₃ _ => ?_
  refine (put_yields (.type checked.name.name.canonical) rfl fun _ => hkinded).bind
    fun w₄ _ hlater₄ _ => ?_
  have hlater := ((hlater₁.trans hlater₂).trans hlater₃).trans hlater₄
  refine (bindFields_yields checked.name node.params (checked.fields.zip fields)
    fun field hfield => ?_).bind fun w₅ params' hlater₅ hparams' => Yields.pure fun w₆ hlater₆ => ?_
  · obtain ⟨hnode, hfield⟩ := List.of_mem_zip hfield
    exact ⟨fun w => (hchecked w).1 _ hnode, hlater.grounded (hfields _ hfield)⟩
  refine ⟨fun info hinfo => ?_, fun written hwritten =>
    ⟨fun w => (hchecked w).2 written hwritten, hbinds.2 written hwritten⟩⟩
  rcases List.mem_cons.1 hinfo with rfl | hinfo
  · exact grounds_typed (((hlater.trans hlater₅).trans hlater₆).grounded htype)
  · rcases List.mem_append.1 hinfo with hinfo | hinfo
    · obtain ⟨param, hparam, hinfo⟩ := List.mem_flatMap.1 hinfo
      exact hlater₆.grounds (hparams' param hparam info hinfo)
    · cases hwritten : checked.result with
      | none =>
        rw [hwritten] at hinfo
        exact (List.not_mem_nil hinfo).elim
      | some written =>
        rw [hwritten] at hinfo
        exact Grounds.of_groundKind ((hchecked w₆).2 written hwritten info hinfo)

theorem bindConstructor_yields {params : List Ty} {applied : Ty} {kind : Kind}
    (node : Constructor Name) {checked : CheckedConstructor}
    (hparams : ∀ param ∈ params, param.isVar = true ∧ w.Grounded param)
    (happlied : w.Grounded applied) (hkind : kind.Ground) (hchecked : ∀ w, GroundAll w checked)
    (hbinds : BindsAll checked) :
    Check.Yields among w (bindConstructor params applied kind node checked) ConstructorDone := by
  refine (Yields.mapM stays_grounded fun field hfield => toType_of_node
    (fun w => (hchecked w).1 field hfield) (hbinds.1 field hfield)).bind
      fun w₁ fields hlater₁ hfields => ?_
  have hrest := fun {w₂ : World} {result : Ty} (hlater₂ : Later w₁ w₂)
      (hresult : w₂.Grounded result) =>
    bindBody_yields among result node
      (fun param hparam => ⟨(hparams param hparam).1,
        (hlater₁.trans hlater₂).grounded (hparams param hparam).2⟩)
      (fun field hfield => hlater₂.grounded (hfields field hfield)) hresult hkind hchecked hbinds
  cases hwritten : checked.result with
  | none =>
    rw [hwritten] at hrest
    exact hrest (.refl w₁) (hlater₁.grounded happlied)
  | some written =>
    rw [hwritten] at hrest
    exact (toType_of_node (fun w => (hchecked w).2 written hwritten)
      (hbinds.2 written hwritten)).bind fun _ _ hlater₂ hresult => hrest hlater₂ hresult

/-- What a data declaration is known to be. -/
structure DeclaredData (w : World) (data : Data Attributes) : Prop where
  here : data.here.info.GroundKind
  typeParams : ∀ var ∈ data.typeParams, var.here.info.GroundKind
  constructors : ∀ node ∈ data.constructors, ConstructorDone w node

theorem DeclaredData.infos {data : Data Attributes} (h : DeclaredData w data) :
    GroundsAll Data.infos w data := by
  intro info hinfo
  rcases List.mem_cons.1 hinfo with rfl | hinfo
  · exact Grounds.of_groundKind h.here
  · rcases List.mem_append.1 hinfo with hinfo | hinfo
    · obtain ⟨var, hvar, rfl⟩ := List.mem_map.1 hinfo
      exact Grounds.of_groundKind (h.typeParams var hvar)
    · obtain ⟨node, hnode, hinfo⟩ := List.mem_flatMap.1 hinfo
      exact (h.constructors node hnode).infos info hinfo

theorem DeclaredData.later : Stays DeclaredData := fun _ _ _ hlater h =>
  ⟨h.here, h.typeParams, fun node hnode => ConstructorDone.later hlater (h.constructors node hnode)⟩

/-- A data declaration is inferred, and all kinds in it are known. -/
theorem inferData_yields {node : Data Name} (hbinds : node.Binds)
    (hamong : ∀ tag, among tag → tag ≠ .binding) :
    Check.Yields among w (inferData node) DeclaredData := by
  unfold inferData
  split
  · rename_i name _
    have hparts : Check.Yields among w (checkData node name) fun _ parts => DataDone parts ∧
        parts.1.mapM (TypeVarNode.traverse nameOnly) = node.typeParams ∧
          List.Forall₂ CheckedConstructor.Of node.constructors parts.2.2 := by
      intro w₁ c hlater hcalm hc
      refine ((checkData_yields node name hamong w₁ c hlater hcalm hc).and
        (checkData_gives node name c)).mono ?_
      rintro parts c' ⟨⟨w₂, hc', hsteps, hdone⟩, hof⟩
      exact ⟨w₂, hc', hsteps, hdone, hof⟩
    refine hparts.bind ?_
    rintro w₁ ⟨vars, kind, checked⟩ _ ⟨hdone, hvars, hof⟩
    have hkind : kind.Ground := hdone.kind
    refine (bindData_yields node.name name (kinded node.here kind) rfl
      (freeKind_of_ground w₁ hkind)).bind fun w₂ _ _ _ => ?_
    refine (Yields.mapM stays_binder fun var hvar =>
        typeOfBinder_yields (hdone.typeParams var hvar) ?_).bind fun w₃ params _ hparams => ?_
    · refine hbinds.1 _ ?_
      rw [← hvars]
      exact mem_mapM_id hvar
    have hdata : w₃.Grounded (.constructor name kind) := Ty.fits_constructor.2 hkind
    have happlied : w₃.Grounded (if params.isEmpty then .constructor name kind
        else .apply (.constructor name kind) params .type) := by
      split
      · exact hdata
      · exact Ty.fits_apply.2
          ⟨hdata, fun param hparam => (hparams param hparam).2, Kind.ground_type⟩
    refine (Yields.mapM ConstructorDone.later fun pair hpair => ?_).bind
      fun w₄ constructors _ hconstructors => Yields.pure fun w₅ hlater₅ => ?_
    · obtain ⟨hnode, hitem⟩ := List.of_mem_zip hpair
      exact bindConstructor_yields pair.1 hparams happlied hkind (hdone.constructors pair.2 hitem)
        (CheckedConstructor.Of.bindsAll ((List.forall₂_iff_zip.1 hof).2 hpair)
          (hbinds.2 pair.1 hnode))
    · exact ⟨⟨kind, rfl, hkind⟩, hdone.typeParams, fun inner hinner =>
        ConstructorDone.later hlater₅ (hconstructors inner hinner)⟩
  · exact Yields.throw _

end Check

end PolyFront
