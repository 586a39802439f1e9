import PolyFront.Proofs.Kinding.Quiet

/-!
# Kind checking is sound

When the kinds of a written type are found without a diagnostic, and no variable is applied
whose kind only its uses tell, then the kinds of all nodes fit together.  Every check is one
against a ground kind then, so that each kind is final as soon as it is known.
-/

namespace PolyFront

open Run Check

mutual
/-- Every use of a name in a written type is of a name that is bound around it or that satisfies
the condition. -/
def TypeNode.NamesWithin (names : String → Prop) : TypeNode Name → Prop
  | .quantified _ binders body =>
    body.NamesWithin fun key => key ∈ binders.map TypeVarNode.name ∨ names key
  | .function _ args result => TypeNode.AllNamesWithin names args ∧ result.NamesWithin names
  | .apply _ head args => head.NamesWithin names ∧ TypeNode.AllNamesWithin names args
  | .reference here _ => here.info.isNameless = false ∧ names here.info.canonical
  | .var node => node.here.info.isNameless = false ∧ names node.here.info.canonical
def TypeNode.AllNamesWithin (names : String → Prop) : List (TypeNode Name) → Prop
  | [] => True
  | node :: rest => node.NamesWithin names ∧ TypeNode.AllNamesWithin names rest
end

mutual
theorem TypeNode.NamesWithin.mono {names names' : String → Prop} (h : ∀ key,
    names key → names' key) :
    ∀ {node : TypeNode Name}, node.NamesWithin names → node.NamesWithin names'
  | .quantified _ _ _, hnode => by
    rw [NamesWithin] at hnode ⊢
    exact hnode.mono fun key hkey => hkey.imp_right (h key)
  | .function _ _ _, hnode => ⟨TypeNode.AllNamesWithin.mono h hnode.1, hnode.2.mono h⟩
  | .apply _ _ _, hnode => ⟨hnode.1.mono h, TypeNode.AllNamesWithin.mono h hnode.2⟩
  | .reference _ _, hnode => ⟨hnode.1, h _ hnode.2⟩
  | .var _, hnode => ⟨hnode.1, h _ hnode.2⟩
theorem TypeNode.AllNamesWithin.mono {names names' : String → Prop}
    (h : ∀ key, names key → names' key) :
    ∀ {nodes : List (TypeNode Name)}, TypeNode.AllNamesWithin names nodes →
      TypeNode.AllNamesWithin names' nodes
  | [], _ => True.intro
  | _ :: _, hnodes => ⟨hnodes.1.mono h, hnodes.2.mono h⟩
end

/-- Names are bound in the store as the context says, and all that are not loose to kinds that
are known. -/
structure KindContext.Fits (known : KindContext) (loose : List String) (s : Store) : Prop where
  sound : s.Sound
  lone : Kind.Lone s.kinds
  bound : ∀ {key kind}, known key = some kind → s.kindBound key = some kind
  proper : ∀ {key kind}, known key = some kind → kind.Proper s.nextKind
  ground : ∀ {key kind}, known key = some kind → key ∉ loose → (s.substituteKind kind).Ground

/-- The tree is well kinded as the store shows it, and all its kinds are known. -/
structure TypeNode.Settled (known : KindContext) (s : Store) (node : TypeNode Attributes) :
    Prop where
  wellKinded : node.WellKindedBy s.substituteKind known
  proper : node.Carries (Located.HasKind (Kind.Proper s.nextKind))
    (Located.HasKind (Kind.Proper s.nextKind))
  ground : node.Carries (Located.HasKind fun kind => (s.substituteKind kind).Ground) fun _ => True

variable {known : KindContext} {loose : List String} {s s' : Store}

namespace KindContext.Fits

theorem calm (h : known.Fits loose s) (hcalm : Store.Calm s s') : known.Fits loose s' where
  sound := hcalm.sound
  lone := hcalm.lone
  bound hkey := (hcalm.kindBound _).trans (h.bound hkey)
  proper hkey := (h.proper hkey).mono hcalm.kinds
  ground hkey hloose := by
    rw [hcalm.ground (h.proper hkey) (h.ground hkey hloose)]
    exact h.ground hkey hloose

end KindContext.Fits

namespace TypeNode

/-- What is settled stays so, with the same kinds. -/
theorem Settled.steady {node : TypeNode Attributes} (h : node.Settled known s)
    (hsteady : Store.Steady s s') (hproper : ∀ {key kind}, known key = some kind →
      kind.Proper s.nextKind) : node.Settled known s' := by
  have hself : node.Turned (fun kind kind' => kind' = kind ∧ kind.Proper s.nextKind) node :=
    h.proper.turned_self (fun hkind => hkind.turned_self fun _ hkind => ⟨rfl, hkind⟩)
      fun hkind => hkind.turned_self fun _ hkind => ⟨rfl, hkind⟩
  have hrel : ∀ kind kind', kind' = kind ∧ kind.Proper s.nextKind →
      (s.substituteKind kind).Ground → s'.substituteKind kind' = s.substituteKind kind := by
    rintro kind _ ⟨rfl, hkind⟩ hground
    exact hsteady.ground hkind hground
  refine ⟨?_, h.proper.mono fun _ hkind => hkind.mono hsteady.kinds, ?_⟩
  · refine h.wellKinded.turned hrel hself h.ground fun key kind hkey hground => ?_
    exact ⟨kind, hkey, hrel kind kind ⟨rfl, hproper hkey⟩ hground⟩
  · refine h.ground.turned (fun hturned => hturned.hasKind ?_) (fun _ _ => True.intro) hself
    intro kind kind' hkinds hground
    rwa [hrel kind kind' hkinds hground]

theorem Settled.kindBy {node : TypeNode Attributes} (h : node.Settled known s)
    (hsteady : Store.Steady s s') {kind : Kind}
    (hkind : node.here.kindBy s.substituteKind = some kind) :
    node.here.kindBy s'.substituteKind = some kind := by
  obtain ⟨own, hown, hproper⟩ := h.proper.here
  obtain ⟨own', hown', hground⟩ := h.ground.here
  rw [hown, Option.some.injEq] at hown'
  subst hown'
  rw [Located.kindBy_eq hown, Option.some.injEq] at hkind ⊢
  rw [hsteady.ground hproper hground, hkind]

theorem wellKindedListBy_iff {view : Kind → Kind} {nodes : List (TypeNode Attributes)} :
    WellKindedListBy view known nodes ↔ ∀ node ∈ nodes, node.WellKindedBy view known := by
  induction nodes with
  | nil => simp [WellKindedListBy]
  | cons node rest ih => simp [WellKindedListBy, ih]

theorem carriesAll_iff {sure binder : Located Attributes → Prop}
    {nodes : List (TypeNode Attributes)} :
    CarriesAll sure binder nodes ↔ ∀ node ∈ nodes, node.Carries sure binder := by
  induction nodes with
  | nil => simp [CarriesAll]
  | cons node rest ih => simp [CarriesAll, ih]

end TypeNode

/-! ## What a run finds -/

/-- A run that finds the kinds of a type. The kind of its root can still be open when the type is
the use of a loose name. -/
def Infers (known : KindContext) (loose : List String) (run : Check (TypeNode Attributes)) : Prop :=
  ∀ c : Checker, known.Fits loose c.store → Quietly run c fun node c' =>
    node.appliesLoose loose = false → Store.Calm c.store c'.store ∧
      ∃ kind, node.here.kindBy id = some kind ∧ kind.Proper c'.store.nextKind ∧
        (node.isUseOf loose = false → (c'.store.substituteKind kind).Ground) ∧
        ∀ s, Store.Steady c'.store s → (s.substituteKind kind).Ground → node.Settled known s

/-- A run that finds the kinds of a type of the given kind. -/
def Checks (known : KindContext) (loose : List String) (run : Check (TypeNode Attributes))
    (expected : Kind) : Prop :=
  ∀ c : Checker, known.Fits loose c.store → Quietly run c fun node c' =>
    node.appliesLoose loose = false → Store.Calm c.store c'.store ∧ node.Settled known c'.store ∧
      node.here.kindBy c'.store.substituteKind = some expected

/-- Inferring a kind and comparing it with a ground one. -/
theorem Infers.subsume {infer : Check (TypeNode Attributes)} (h : Infers known loose infer)
    (hadds : Appends infer) (range : Range) {expected : Kind} (hground : expected.Ground) :
    Checks known loose (KindJudgement.subsume range infer expected) expected := by
  intro c hfits
  unfold KindJudgement.subsume
  have hmismatch := KindJudgement.appends_mismatch range
  refine Quietly.bind hadds (fun node => (Appends.kindOf _).bind fun actual =>
    (Appends.lift _).bind fun ok => hmismatch node expected actual ok) ?_
  refine (h c hfits).mono fun node c₁ hinfer => ?_
  cases hloose : node.appliesLoose loose with
  | true =>
    refine Always.quietly (Always.bind fun actual => Always.bind fun ok => ?_)
    split
    · exact Always.bind fun _ => Always.bind fun _ => Always.bind fun _ => Always.pure hloose
    · exact Always.pure hloose
  | false =>
    obtain ⟨hcalm, kind, hkind, hproper, -, hsettled⟩ := hinfer hloose
    refine Quietly.bind (Appends.kindOf _) (fun actual => (Appends.lift _).bind fun ok =>
      hmismatch node expected actual ok) (Quietly.kindOf fun actual hactual => ?_)
    obtain rfl : actual = kind := by
      rw [hkind] at hactual
      exact (Option.some.inj hactual).symm
    refine Quietly.bind (Appends.lift _) (fun ok => hmismatch node expected actual ok) ?_
    refine Quietly.lift ((Solve.checkSubKind_calm hcalm.sound hcalm.lone hproper hground).mono ?_)
    rintro ok s₂ ⟨hcalm₂, hsame⟩
    cases ok with
    | true =>
      refine Quietly.pure fun _ => ⟨hcalm.trans hfits.sound hcalm₂, ?_, ?_⟩
      · refine hsettled s₂ hcalm₂.toSteady ?_
        rwa [hsame rfl]
      · rw [Located.kindBy_eq hkind, hsame rfl]
    | false => exact KindJudgement.quietly_mismatch range node expected actual

/-- Types that are checked one after the other. -/
theorem checks_mapM {ι : Type} (run : ι → Check (TypeNode Attributes)) (expected : ι → Kind) :
    ∀ {items : List ι}, (∀ item ∈ items, Appends (run item)) →
    (∀ item ∈ items, Checks known loose (run item) (expected item)) →
    ∀ c : Checker, known.Fits loose c.store → Quietly (items.mapM run) c fun nodes c' =>
      TypeNode.anyAppliesLoose loose nodes = false → Store.Calm c.store c'.store ∧
        (∀ node ∈ nodes, node.Settled known c'.store) ∧
        nodes.map (fun node => node.here.kindBy c'.store.substituteKind) =
          items.map fun item => some (expected item) := by
  intro items hadds hchecks
  induction items with
  | nil =>
    intro c hfits
    refine Quietly.pure fun _ => ⟨hfits.sound.calm hfits.lone, ?_, rfl⟩
    exact fun node hnode => (List.not_mem_nil hnode).elim
  | cons item rest ih =>
    intro c hfits
    have haddsRest : Appends (rest.mapM run) := Appends.mapM fun other hother =>
      hadds other (List.mem_cons_of_mem _ hother)
    rw [List.mapM_cons]
    refine Quietly.bind (hadds item List.mem_cons_self)
      (fun node => haddsRest.bind fun _ => Appends.pure _) ?_
    refine (hchecks item List.mem_cons_self c hfits).mono fun node c₁ hnode => ?_
    cases hloose : node.appliesLoose loose with
    | true =>
      have hany : ∀ nodes, TypeNode.anyAppliesLoose loose (node :: nodes) = true := by
        intro nodes
        rw [TypeNode.anyAppliesLoose, hloose, Bool.true_or]
      exact Always.quietly (Always.bind fun nodes => Always.pure (hany nodes))
    | false =>
      obtain ⟨hcalm, hsettled, hkind⟩ := hnode hloose
      refine Quietly.bind haddsRest (fun _ => Appends.pure _) ?_
      refine (ih (fun other hother => hadds other (List.mem_cons_of_mem _ hother))
        (fun other hother => hchecks other (List.mem_cons_of_mem _ hother)) c₁
        (hfits.calm hcalm)).mono fun nodes c₂ hnodes => Quietly.pure fun hany => ?_
      rw [TypeNode.anyAppliesLoose, hloose, Bool.false_or] at hany
      obtain ⟨hcalm', hrest, hkinds⟩ := hnodes hany
      refine ⟨hcalm.trans hfits.sound hcalm', ?_, ?_⟩
      · intro other hother
        rcases List.mem_cons.1 hother with rfl | hother
        · exact hsettled.steady hcalm'.toSteady fun hkey => (hfits.calm hcalm).proper hkey
        · exact hrest other hother
      · rw [List.map_cons, List.map_cons, hkinds, hsettled.kindBy hcalm'.toSteady hkind]

/-! ## The forms of types -/

/-- A kind that a node is given is the kind that it carries. -/
theorem kindBy_kinded (here : Located Name) (kind : Kind) :
    (kinded here kind).kindBy id = some kind := rfl

/-- The kind of a name that is bound. -/
theorem kindOfName_quietly {c : Checker} {name : Name} (hname : name.isNameless = false)
    {kind : Kind} (hkind : c.store.kindBound name.canonical = some kind) :
    Quietly (kindOfName name) c fun found c' => found = c.store.substituteKind kind ∧ c' = c := by
  unfold kindOfName
  rw [hname]
  refine Ends.bind (Ends.get ?_)
  have hbound : (c.store.stack.type? name.canonical).bind (fun here => here.info.classifier.kind?) =
      some kind := hkind
  simp only [hbound]
  exact Quietly.lift (Ends.bind (Ends.get (Ends.pure ⟨rfl, rfl⟩)))

/-- The use of a name has the kind of the name, which is open at most when it is loose. -/
theorem name_settles {c : Checker} (hfits : known.Fits loose c.store) {here : Located Name}
    {kind : Kind} (hkind : known here.info.canonical = some kind) {node : TypeNode Attributes}
    (hhere : node.here = kinded here (c.store.substituteKind kind))
    (hwell : ∀ view : Kind → Kind, node.WellKindedBy view known ↔
      ∃ kind, known node.here.info.name.canonical = some kind ∧
        node.here.kindBy view = some (view kind))
    (hcarries : ∀ sure binder : Located Attributes → Prop, node.Carries sure binder ↔
        sure node.here)
    (huse : node.isUseOf loose = loose.contains node.here.info.name.canonical) :
    Store.Calm c.store c.store ∧ ∃ kind, node.here.kindBy id = some kind ∧
      kind.Proper c.store.nextKind ∧
      (node.isUseOf loose = false → (c.store.substituteKind kind).Ground) ∧
      ∀ s, Store.Steady c.store s → (s.substituteKind kind).Ground → node.Settled known s := by
  have hproper := hfits.proper hkind
  have hproper' : (c.store.substituteKind kind).Proper c.store.nextKind :=
    hfits.sound.substitute_proper hproper
  have hown : node.here.kindBy id = some (c.store.substituteKind kind) := by
    rw [hhere]
    rfl
  have hcanonical : node.here.info.name.canonical = here.info.canonical := by
    rw [hhere]
    rfl
  refine ⟨hfits.sound.calm hfits.lone, _, hown, hproper', fun hloose => ?_, ?_⟩
  · rw [huse, hcanonical, ← Bool.not_eq_true, List.contains_iff_mem] at hloose
    have hground := hfits.ground hkind hloose
    rw [Store.substituteKind, hground.substitute]
    exact hground
  · intro s hsteady hground
    refine ⟨(hwell _).2 ⟨kind, hcanonical ▸ hkind, ?_⟩, (hcarries _ _).2 ⟨_, hown, ?_⟩,
      (hcarries _ _).2 ⟨_, hown, hground⟩⟩
    · rw [Located.kindBy_eq hown, hsteady.absorbs kind hproper]
    · exact hproper'.mono hsteady.kinds

theorem infers_reference {here : Located Name} (id : QualifiedId)
    (hname : here.info.isNameless = false) {kind : Kind}
    (hkind : known here.info.canonical = some kind) :
    Infers known loose (KindJudgement.reference here id).infer := by
  intro c hfits
  refine Quietly.bind (Appends.kindOfName _) (fun _ => Appends.pure _) ?_
  refine (kindOfName_quietly hname (hfits.bound hkind)).mono ?_
  rintro _ _ ⟨rfl, rfl⟩
  refine Quietly.pure fun _ => name_settles hfits hkind rfl (fun _ =>
      Iff.rfl) (fun _ _ => Iff.rfl) ?_
  rfl

theorem infers_var {node : TypeVarNode Name} (hname : node.here.info.isNameless = false)
    {kind : Kind} (hkind : known node.here.info.canonical = some kind) :
    Infers known loose (KindJudgement.var node).infer := by
  intro c hfits
  refine Quietly.bind (Appends.kindOfName _) (fun _ => Appends.pure _) ?_
  refine (kindOfName_quietly hname (hfits.bound hkind)).mono ?_
  rintro _ _ ⟨rfl, rfl⟩
  refine Quietly.pure fun _ => name_settles hfits hkind rfl (fun _ =>
      Iff.rfl) (fun _ _ => Iff.rfl) ?_
  rfl

/-- The kinds of a judgement are found in both ways. -/
structure KindJudgement.Finds (judgement : KindJudgement) (known : KindContext)
    (loose : List String) : Prop where
  infers : Infers known loose judgement.infer
  checks : ∀ {expected : Kind}, expected.Ground → Checks known loose
      (judgement.check expected) expected

theorem KindJudgement.Finds.ofInference {range : Range} {infer : Check (TypeNode Attributes)}
    (h : Infers known loose infer) (hadds : Appends infer) :
    (KindJudgement.ofInference range infer).Finds known loose := by
  refine ⟨h, fun {expected} hground => ?_⟩
  intro c hfits
  refine Quietly.bind (Appends.lift _) (fun _ => KindJudgement.appends_subsume range hadds _) ?_
  refine Quietly.lift (Ends.bind (Ends.get (Ends.pure ?_)))
  rw [Store.substituteKind, hground.substitute]
  exact h.subsume hadds range hground c hfits

theorem infers_function {here : Located Name} {args : List KindJudgement} {result : KindJudgement}
    (hargs : ∀ arg ∈ args, arg.Adds ∧ arg.Finds known loose) (hresult : result.Adds)
    (hresultFinds : result.Finds known loose) :
    Infers known loose (KindJudgement.function here args result).infer := by
  intro c hfits
  have haddsLast : ∀ nodes, Appends (do
      let result ← result.check .type
      pure (.function (kinded here .type) nodes result) : Check
          (TypeNode Attributes)) := fun nodes =>
    (hresult.check _).bind fun _ => Appends.pure _
  refine Quietly.bind (Appends.mapM fun arg harg => (hargs arg harg).1.check _) haddsLast ?_
  refine (checks_mapM (fun arg => arg.check .type) (fun _ => .type)
    (fun arg harg => (hargs arg harg).1.check _)
    (fun arg harg => (hargs arg harg).2.checks Kind.ground_type) c hfits).mono
        fun nodes c₁ hnodes => ?_
  cases hany : TypeNode.anyAppliesLoose loose nodes with
  | true =>
    refine Always.quietly (Always.bind fun node => Always.pure ?_)
    rw [TypeNode.appliesLoose, hany, Bool.true_or]
  | false =>
    obtain ⟨hcalm, hsettled, hkinds⟩ := hnodes hany
    refine Quietly.bind (hresult.check _) (fun _ => Appends.pure _) ?_
    refine (hresultFinds.checks Kind.ground_type c₁ (hfits.calm hcalm)).mono fun node c₂ hnode => ?_
    refine Quietly.pure fun hloose => ?_
    rw [TypeNode.appliesLoose, hany, Bool.false_or] at hloose
    obtain ⟨hcalm', hnodeSettled, hkind⟩ := hnode hloose
    have hdone := hcalm.trans hfits.sound hcalm'
    refine ⟨hdone, .type, rfl, Kind.proper_type _, fun _ => Kind.ground_type, ?_⟩
    intro s hsteady _
    have hproper : ∀ {key kind}, known key = some kind → kind.Proper c₂.store.nextKind :=
      fun hkey => (hfits.calm hdone).proper hkey
    have hresultSettled := hnodeSettled.steady hsteady hproper
    have hargsSteady : Store.Steady c₁.store s := hcalm'.toSteady.trans hcalm.sound hsteady
    have hargsSettled : ∀ node ∈ nodes, node.Settled known s := fun node hmem =>
      (hsettled node hmem).steady hargsSteady fun hkey => (hfits.calm hcalm).proper hkey
    refine ⟨⟨rfl, fun node hmem => ?_, hnodeSettled.kindBy hsteady hkind,
      TypeNode.wellKindedListBy_iff.2 fun node hmem => (hargsSettled node hmem).wellKinded,
      hresultSettled.wellKinded⟩, ⟨⟨_, rfl, Kind.proper_type _⟩,
      TypeNode.carriesAll_iff.2 fun node hmem => (hargsSettled node hmem).proper,
      hresultSettled.proper⟩, ⟨⟨_, rfl, Kind.ground_type⟩,
      TypeNode.carriesAll_iff.2 fun node hmem => (hargsSettled node hmem).ground,
      hresultSettled.ground⟩⟩
    refine (hsettled node hmem).kindBy hargsSteady ?_
    have hmap : node.here.kindBy c₁.store.substituteKind ∈
        args.map fun _ => some Kind.type := by
      rw [← hkinds]
      exact List.mem_map_of_mem hmem
    obtain ⟨_, -, heq⟩ := List.mem_map.1 hmap
    exact heq.symm

/-- A head whose kind is known asks for kinds that are known. -/
theorem infers_apply {here : Located Name} {head : KindJudgement} {args : List KindJudgement}
    (hhead : head.Adds) (hheadFinds : head.Finds known loose)
    (hargs : ∀ arg ∈ args, arg.Adds ∧ arg.Finds known loose) :
    Infers known loose (KindJudgement.apply here head args).infer := by
  intro c hfits
  have haddsArgs : ∀ parts : List Kind × Kind, Appends ((args.zip parts.1).mapM fun pair =>
      pair.1.check pair.2) := fun parts =>
    Appends.mapM fun pair hpair => (hargs pair.1 (List.of_mem_zip hpair).1).1.check _
  have haddsLast : ∀ (node : TypeNode Attributes) (parts : List Kind × Kind), Appends (do
      let args ← (args.zip parts.1).mapM fun pair => pair.1.check pair.2
      pure (.apply (kinded here parts.2) node args) : Check (TypeNode Attributes)) :=
    fun node parts => (haddsArgs parts).bind fun _ => Appends.pure _
  refine Quietly.bind hhead.infer (fun node => (Appends.kindOf _).bind fun _ =>
    (Appends.lift _).bind fun _ => (KindJudgement.appends_applied _ _ _).bind (haddsLast node)) ?_
  refine (hheadFinds.infers c hfits).mono fun node c₁ hnode => ?_
  cases huse : node.isUseOf loose || node.appliesLoose loose with
  | true =>
    refine Always.quietly (Always.bind fun _ => Always.bind fun _ => Always.bind fun _ =>
      Always.bind fun nodes => Always.pure ?_)
    rw [TypeNode.appliesLoose, huse, Bool.true_or]
  | false =>
    obtain ⟨hnotUse, hloose⟩ := Bool.or_eq_false_iff.1 huse
    obtain ⟨hcalm, kind, hkind, hproper, hground, hsettled⟩ := hnode hloose
    have hfits₁ := hfits.calm hcalm
    refine Quietly.bind (Appends.kindOf _) (fun _ => (Appends.lift _).bind fun _ =>
      (KindJudgement.appends_applied _ _ _).bind (haddsLast node))
      (Quietly.kindOf fun actual hactual => ?_)
    obtain rfl : actual = kind := by
      rw [hkind] at hactual
      exact (Option.some.inj hactual).symm
    refine Quietly.bind (Appends.lift _)
      (fun _ => (KindJudgement.appends_applied _ _ _).bind (haddsLast node))
      (Quietly.lift (Ends.bind (Ends.get (Ends.pure ?_))))
    have hsolid : ∀ id, c₁.store.substituteKind actual ≠ .unsolved id := fun id heq =>
      Kind.not_ground_unsolved id (heq ▸ hground hnotUse)
    refine Quietly.bind (KindJudgement.appends_applied _ _ _) (haddsLast node)
      ((KindJudgement.applied_quietly hsolid).mono ?_)
    rintro ⟨argKinds, result⟩ _ ⟨rfl, hhigher, hlength⟩
    dsimp only at hhigher hlength ⊢
    have hkindsGround := hground hnotUse
    rw [hhigher, Kind.ground_higher] at hkindsGround
    obtain ⟨hargKinds, hresult⟩ := hkindsGround
    refine Quietly.bind (haddsArgs (argKinds, result)) (fun _ => Appends.pure _) ?_
    refine (checks_mapM (fun pair : KindJudgement × Kind => pair.1.check pair.2) Prod.snd
      (fun pair hpair => (hargs pair.1 (List.of_mem_zip hpair).1).1.check _)
      (fun pair hpair => (hargs pair.1 (List.of_mem_zip hpair).1).2.checks
        (hargKinds pair.2 (List.of_mem_zip hpair).2)) c₁ hfits₁).mono fun nodes c₂ hnodes => ?_
    refine Quietly.pure fun hfinal => ?_
    rw [TypeNode.appliesLoose, huse, Bool.false_or] at hfinal
    obtain ⟨hcalm', hnodesSettled, hkinds⟩ := hnodes hfinal
    have hself : ∀ s : Store, s.substituteKind result = result := fun s =>
        hresult.substitute s.kinds
    have hselfGround : ∀ s : Store, (s.substituteKind result).Ground := fun s => by rwa [hself]
    refine ⟨hcalm.trans hfits.sound hcalm', result, rfl, hresult.proper _, fun _ => ?_, ?_⟩
    · exact hselfGround _
    intro s hsteady _
    have hsteady₁ : Store.Steady c₁.store s := hcalm'.toSteady.trans hcalm.sound hsteady
    have hheadKind : s.substituteKind actual = .higher argKinds result := by
      rw [hsteady₁.ground hproper (hground hnotUse), hhigher]
    have hheadSettled : node.Settled known s :=
      hsettled s hsteady₁ (by rw [hheadKind, ← hhigher]; exact hground hnotUse)
    have hargsSettled : ∀ node ∈ nodes, node.Settled known s := fun node hmem =>
      (hnodesSettled node hmem).steady hsteady fun hkey => (hfits₁.calm hcalm').proper hkey
    refine ⟨⟨⟨argKinds, result, ?_, ?_, ?_⟩, hheadSettled.wellKinded,
      TypeNode.wellKindedListBy_iff.2 fun node hmem => (hargsSettled node hmem).wellKinded⟩,
      ⟨⟨_, rfl, hresult.proper _⟩, hheadSettled.proper,
        TypeNode.carriesAll_iff.2 fun node hmem => (hargsSettled node hmem).proper⟩,
      ⟨⟨_, rfl, hselfGround s⟩, hheadSettled.ground,
        TypeNode.carriesAll_iff.2 fun node hmem => (hargsSettled node hmem).ground⟩⟩
    · have hshown : nodes.map (fun node => node.here.kindBy s.substituteKind) =
          nodes.map fun node => node.here.kindBy c₂.store.substituteKind := by
        refine List.map_congr_left fun node hmem => ?_
        obtain ⟨own, hown, -⟩ := (hnodesSettled node hmem).proper.here
        have hshown := Located.kindBy_eq hown c₂.store.substituteKind
        rw [hshown, (hnodesSettled node hmem).kindBy hsteady hshown]
      have hpairs : (args.zip argKinds).map Prod.snd = argKinds :=
        List.map_snd_zip (Nat.le_of_eq hlength)
      rw [hshown, hkinds]
      conv_rhs => rw [← hpairs, List.map_map]
      rfl
    · show some (s.substituteKind result) = some result
      rw [hself]
    · rw [Located.kindBy_eq hkind, hheadKind]

/-! ## Binders -/

/-- A binder of the given name and a kind of the given sort is put into the innermost frame. -/
def Binds (run : Check (TypeVarNode Attributes)) (name : String) (sort : Kind → Prop) : Prop :=
  ∀ c : Checker, c.store.Sound → Kind.Lone c.store.kinds → Ends run c fun var c' =>
    Store.Steady c.store c'.store ∧ var.name = name ∧
      ∃ kind, var.here.info.classifier.kind? = some kind ∧ kind.Proper c'.store.nextKind ∧
        sort kind ∧ ∀ key, c'.store.kindBound key =
          if key = name then some kind else c.store.kindBound key

theorem bindTypeVar_ends (var : TypeVarNode Name) (kind : Kind) {c : Checker}
    (hs : c.store.Sound) (hlone : Kind.Lone c.store.kinds) :
    Ends (bindTypeVar var kind) c fun var' c' => Store.Steady c.store c'.store ∧
      var'.name = var.name ∧ var'.here.info.classifier.kind? = some kind ∧
      c'.store.nextKind = c.store.nextKind ∧
      ∀ key, c'.store.kindBound key = if key =
          var.name then some kind else c.store.kindBound key := by
  refine Ends.bind (Ends.within (Ends.within (Stack.updateTop_ends ?_)))
  intro frame rest hframes
  refine Ends.pure ⟨⟨(hs.withStack _).sound, hlone, Nat.le_refl _, ⟨rfl, ?_, ?_⟩,
      fun k _ => ?_⟩, rfl,
    rfl, rfl, fun key => ?_⟩
  · dsimp only
    rw [hframes]
    rfl
  · intro frame' hframe' id hid
    cases hframe'
    exact .inl ⟨frame, by rw [hframes]; rfl, hid⟩
  · exact Kind.substitute_substitute hs.kinds.wellFounded k
  · have hfound : ∀ frames : List (Frame (Located Attributes)),
        (Stack.mk frames c.store.stack.builtIns).type? key =
          (frames.findSome? fun frame => frame.type? key).or
            (c.store.stack.builtIns.bind fun frame => frame.type? key) := fun _ => rfl
    have hold : c.store.stack.type? key = ((frame :: rest).findSome? fun frame =>
        frame.type? key).or
        (c.store.stack.builtIns.bind fun frame => frame.type? key) := by
      rw [Stack.type?, Stack.lookup, hframes]
    rw [Store.kindBound, Store.kindBound, hold]
    dsimp only
    rw [hfound, List.findSome?_cons, List.findSome?_cons, Frame.putType, Frame.type?,
      Table.get?_insert]
    by_cases hkey : key = var.name
    · simp [hkey, kinded, Classifier.kind?]
    · simp [hkey, Frame.type?]

theorem binds_bindTypeVar (var : TypeVarNode Name) {kind : Kind} (hground : kind.Ground) :
    Binds (bindTypeVar var kind) var.name (· = kind) := by
  intro c hs hlone
  refine (bindTypeVar_ends var kind hs hlone).mono fun var' c' h => ?_
  obtain ⟨hsteady, hname, hkind, -, hbound⟩ := h
  exact ⟨hsteady, hname, kind, hkind, hground.proper _, rfl, hbound⟩

theorem binds_inferTypeVar (var : TypeVarNode Name) :
    Binds (inferTypeVar var) var.name fun _ => True := by
  intro c hs hlone
  refine Ends.bind (Ends.within ((Solve.freshKind_calm hs hlone).mono ?_))
  rintro kind s₁ ⟨hcalm, -, rfl, hnext⟩
  refine (bindTypeVar_ends var _ hcalm.sound hcalm.lone).mono fun var' c' h => ?_
  obtain ⟨hsteady, hname, hkind, hsame, hbound⟩ := h
  refine ⟨hcalm.toSteady.trans hs hsteady, hname, _, hkind, ?_, True.intro, fun key => ?_⟩
  · refine Kind.proper_unsolved.2 ?_
    rw [hsame]
    show _ < s₁.nextKind
    omega
  · rw [hbound key]
    exact congrArg (ite (key = var.name) _ ·) (hcalm.kindBound key)

/-- Binders one after the other. -/
theorem binds_mapM {ι : Type} (run : ι → Check (TypeVarNode Attributes)) (name : ι → String)
    (sort : ι → Kind → Prop) : ∀ {items : List ι},
    (∀ item ∈ items, Binds (run item) (name item) (sort item)) →
    ∀ c : Checker, c.store.Sound → Kind.Lone c.store.kinds → Ends (items.mapM run) c fun vars c' =>
      Store.Steady c.store c'.store ∧
        List.Forall₂ (fun item var => var.name = name item ∧
          ∃ kind, var.here.kindBy id = some kind ∧ kind.Proper c'.store.nextKind ∧ sort item kind)
          items vars ∧
        ∀ key, c'.store.kindBound key = KindContext.bind c.store.kindBound vars key := by
  intro items hbinds
  induction items with
  | nil =>
    intro c hs hlone
    exact Ends.pure ⟨(hs.calm hlone).toSteady, .nil, fun _ => rfl⟩
  | cons item rest ih =>
    intro c hs hlone
    rw [List.mapM_cons]
    refine Ends.bind ((hbinds item List.mem_cons_self c hs hlone).mono ?_)
    rintro var c₁ ⟨hsteady, hname, kind, hkind, hproper, hsort, hbound⟩
    refine Ends.bind ((ih (fun other hother => hbinds other (List.mem_cons_of_mem _ hother)) c₁
      hsteady.sound hsteady.lone).mono ?_)
    rintro vars c₂ ⟨hsteady', hvars, hbound'⟩
    refine Ends.pure ⟨hsteady.trans hs hsteady', .cons ⟨hname, kind, ?_, ?_, hsort⟩
      hvars, fun key => ?_⟩
    · rw [Located.kindBy_id, hkind]
    · exact hproper.mono hsteady'.kinds
    · have hfirst : c₁.store.kindBound = fun key => if key = var.name then
          var.here.info.classifier.kind? else c.store.kindBound key := by
        funext other
        rw [hbound other, hname, hkind]
      rw [hbound' key, hfirst]
      rfl

/-! ## Quantifiers -/

theorem kindBound_pushed (s : Store) (kind : ScopeKind) (key : String) :
    (s.pushed kind).kindBound key = s.kindBound key := by
  rw [Store.kindBound, Store.kindBound]
  rfl

/-- How the binders of a quantifier fit its kind, that of its body and the names that are loose
in its body. -/
structure QuantifierShape (loose loose' : List String) (kind result : Kind)
    (vars : List (TypeVarNode Attributes)) : Prop where
  kinds : kind = .type ∧ result = .type ∨
    ∃ kinds, vars.map (fun var => var.here.kindBy id) = kinds.map some ∧ kind = .higher kinds result
  applies : ∀ {here : Located Name} {body : TypeNode Attributes},
    (TypeNode.quantified (kinded here kind) vars body).appliesLoose loose = body.appliesLoose loose'
  bound : ∀ var ∈ vars, var.name ∈ loose' ∨ ∃ kind, var.here.kindBy id = some kind ∧ kind.Ground
  free : ∀ {key}, key ∉ loose' → (∀ var ∈ vars, var.name ≠ key) → key ∉ loose

/-- The context of the body of a quantifier. -/
theorem KindContext.Fits.bind {loose' : List String} {kind result : Kind} {tag : ScopeKind}
    (hfits : known.Fits loose s) {vars : List (TypeVarNode Attributes)}
    (hshape : QuantifierShape loose loose' kind result vars)
    (hsteady : Store.Steady (s.pushed tag) s')
    (hvars : ∀ var ∈ vars, ∃ kind, var.here.kindBy id = some kind ∧ kind.Proper s'.nextKind)
    (hbound : ∀ key, s'.kindBound key = KindContext.bind (s.pushed tag).kindBound vars key) :
    (known.bind vars).Fits loose' s' where
  sound := hsteady.sound
  lone := hsteady.lone
  bound {key kind} hkey := by
    rw [hbound key]
    rcases KindContext.bind_cases vars key with ⟨var, -, -, hbind⟩ | ⟨-, hbind⟩
    · rw [hbind] at hkey ⊢
      exact hkey
    · rw [hbind] at hkey ⊢
      rw [kindBound_pushed]
      exact hfits.bound hkey
  proper {key kind} hkey := by
    rcases KindContext.bind_cases vars key with ⟨var, hvar, -, hbind⟩ | ⟨-, hbind⟩
    · rw [hbind, ← Located.kindBy_id] at hkey
      obtain ⟨own, hown, hproper⟩ := hvars var hvar
      rw [hkey, Option.some.injEq] at hown
      exact hown ▸ hproper
    · rw [hbind] at hkey
      exact (hfits.proper hkey).mono hsteady.kinds
  ground {key kind} hkey hloose := by
    rcases KindContext.bind_cases vars key with ⟨var, hvar, hname, hbind⟩ | ⟨hfree, hbind⟩
    · rw [hbind, ← Located.kindBy_id] at hkey
      rcases hshape.bound var hvar with hin | ⟨own, hown, hground⟩
      · exact (hloose (hname ▸ hin)).elim
      · rw [hkey, Option.some.injEq] at hown
        rw [hown, Store.substituteKind, hground.substitute]
        exact hground
    · rw [hbind] at hkey
      have hground := hfits.ground hkey (hshape.free hloose hfree)
      have hsame : s'.substituteKind kind = s.substituteKind kind :=
        hsteady.ground (hfits.proper hkey) hground
      rwa [hsame]

theorem substituteNode_ends (node : TypeNode Attributes) (c : Checker) :
    Ends (substituteNode node) c fun node' c' => c' = c ∧
      node.Turned (fun kind kind' => kind' = c.store.substituteKind kind) node' := by
  have hturns : Turns (· = c) (fun _ => True)
      (fun kind kind' => kind' = c.store.substituteKind kind)
      fun attributes => (Solve.substitute attributes : Check Attributes) := by
    intro here c' _ hc'
    subst hc'
    have hsubstitute : Ends (Solve.substitute here.info) c'.store fun attributes s' =>
        s' = c'.store ∧ attributes =
          { here.info with classifier := c'.store.substitute here.info.classifier } :=
      Ends.bind (Ends.get (Ends.pure ⟨rfl, rfl⟩))
    refine Ends.within (hsubstitute.mono ?_)
    rintro _ _ ⟨rfl, rfl⟩
    refine ⟨rfl, rfl, fun kind hkind => ⟨c'.store.substituteKind kind, ?_, rfl⟩⟩
    cases hclassifier : here.info.classifier with
    | ofKind own =>
      rw [hclassifier, Classifier.kind?, Option.some.injEq] at hkind
      rw [← hkind]
      rfl
    | ofType type =>
      rw [hclassifier] at hkind
      cases hkind
  exact TypeNode.traverse_turned hturns rfl
    (node.carries_of_forall (fun _ => True.intro) fun _ => True.intro)

/-- What is settled stays so when its kinds are substituted, in a store that shows the names
around it in the same way. -/
theorem TypeNode.Settled.turned {node node' : TypeNode Attributes} (h : node.Settled known s)
    (hturned : node.Turned (fun kind kind' => kind' = s.substituteKind kind) node')
    (hsame : ∀ {key kind}, known key = some kind → s'.substituteKind kind = s.substituteKind kind)
    (hnext : s.nextKind ≤ s'.nextKind) (hs : s.Sound) : node'.Settled known s' := by
  have hrel : ∀ kind kind', kind' = s.substituteKind kind → (s.substituteKind kind).Ground →
      s'.substituteKind kind' = s.substituteKind kind := by
    rintro kind _ rfl hground
    exact hground.substitute s'.kinds
  have hproper : ∀ kind kind', kind' = s.substituteKind kind → kind.Proper s.nextKind →
      kind'.Proper s'.nextKind := by
    rintro kind _ rfl hkind
    exact (hs.substitute_proper hkind).mono hnext
  refine ⟨?_, h.proper.turned (fun hhere => hhere.hasKind hproper)
    (fun hhere => hhere.hasKind hproper) hturned, ?_⟩
  · exact h.wellKinded.turned hrel hturned h.ground fun key kind hkey _ => ⟨kind, hkey, hsame hkey⟩
  · refine h.ground.turned (fun hhere => hhere.hasKind ?_) (fun _ _ => True.intro) hturned
    intro kind kind' hkind hground
    rwa [hrel kind kind' hkind hground]

/-- Ground kinds look the same in every store. -/
theorem map_kindBy_of_ground {vars : List (TypeVarNode Attributes)} {kinds : List Kind}
    (hground : ∀ kind ∈ kinds, kind.Ground)
    (hkinds : vars.map (fun var => var.here.kindBy id) = kinds.map some) (s : Store) :
    vars.map (fun var => var.here.kindBy s.substituteKind) = kinds.map some := by
  have hview : vars.map (fun var => var.here.kindBy s.substituteKind) =
      (vars.map fun var => var.here.kindBy id).map (Option.map s.substituteKind) := by
    rw [List.map_map]
    refine List.map_congr_left fun var _ => ?_
    rw [Function.comp, Located.kindBy_id]
    rfl
  rw [hview, hkinds, List.map_map]
  refine List.map_congr_left fun kind hkind => ?_
  exact congrArg some ((hground kind hkind).substitute s.kinds)

/-- A quantifier whose body is checked. -/
theorem quantified_settles {here : Located Name} (loose' : List String) {kind : Kind}
    (result : Kind)
    {binders : Check (List (TypeVarNode Attributes))} {body : Check (TypeNode Attributes)}
    (hbindersAdds : Appends binders) (hbodyAdds : Appends body) (hground : kind.Ground)
    (hbinders : ∀ c : Checker, c.store.Sound → Kind.Lone c.store.kinds →
        Ends binders c fun vars c' =>
      Store.Steady c.store c'.store ∧
        (∀ var ∈ vars, ∃ kind, var.here.kindBy id = some kind ∧ kind.Proper c'.store.nextKind) ∧
        (∀ key, c'.store.kindBound key = KindContext.bind c.store.kindBound vars key) ∧
        QuantifierShape loose loose' kind result vars ∧
        Checks (known.bind vars) loose' body result) :
    ∀ c : Checker, known.Fits loose c.store → Quietly (withScope .quantifiedType do
        let binders ← binders
        let body ← body
        substituteNode (.quantified (kinded here kind) binders body)) c fun node c' =>
      node.appliesLoose loose = false → Store.Calm c.store c'.store ∧ node.Settled known c'.store ∧
        node.here.kindBy id = some kind := by
  intro c hfits
  have hpushed := hfits.sound.pushed .quantifiedType
  have haddsLast : ∀ vars, Appends (do
      let body ← body
      substituteNode (.quantified (kinded here kind) vars body)) := fun vars =>
    hbodyAdds.bind fun _ => Appends.traverse (fun _ => Appends.lift _) _
  have haddsPop : ∀ node : TypeNode Attributes, Appends (do
      let _ ← (Solve.popScope .quantifiedType : Check _)
      pure node) := fun node => (Appends.lift _).bind fun _ => Appends.pure _
  refine Quietly.bind (Appends.lift _)
    (fun _ => (hbindersAdds.bind haddsLast).bind haddsPop) (Quietly.lift (Ends.modify ?_))
  -- The kinds of the tree are substituted while the frame is there.
  have hinside : Quietly (do
      let binders ← binders
      let body ← body
      substituteNode (.quantified (kinded here kind) binders body))
      { c with store := c.store.pushed .quantifiedType } fun node c' =>
        node.appliesLoose loose = false → Store.Steady (c.store.pushed .quantifiedType) c'.store ∧
          node.here.kindBy id = some kind ∧
          ∀ s, c'.store.nextKind ≤ s.nextKind →
            (∀ k, k.Proper c.store.nextKind → s.substituteKind k = c'.store.substituteKind k) →
            node.Settled known s := by
    refine Quietly.bind hbindersAdds haddsLast
      (Quietly.of_ends ((hbinders ⟨c.uri, c.log, c.store.pushed .quantifiedType⟩ hpushed
        hfits.lone).mono ?_))
    rintro vars c₁ ⟨hsteady₁, hvars, hbound, hshape, hchecks⟩
    refine Quietly.bind hbodyAdds (fun _ => Appends.traverse (fun _ => Appends.lift _) _) ?_
    refine (hchecks c₁ (hfits.bind hshape hsteady₁ hvars hbound)).mono fun node c₂' hnode => ?_
    have htype : ∀ k, k = c₂'.store.substituteKind .type → k = .type := fun _ heq => heq
    refine (substituteNode_ends _ c₂').mono ?_
    rintro node' c₂ ⟨rfl, hturned⟩ _ hloose
    have hbodyLoose : node.appliesLoose loose' = false := by
      rw [← hshape.applies, ← Bool.not_eq_true]
      intro happlies
      rw [TypeNode.appliesLoose_turned htype hturned (List.Subset.refl loose) happlies] at hloose
      cases hloose
    obtain ⟨hcalm₂, hsettled, hresult⟩ := hnode hbodyLoose
    have hself : ∀ s : Store, s.substituteKind kind = kind := fun s => hground.substitute s.kinds
    have hselfGround : (c₂.store.substituteKind kind).Ground := by rwa [hself]
    refine ⟨hsteady₁.trans hpushed hcalm₂.toSteady, ?_, fun s hnext hsame => ?_⟩
    · obtain ⟨own, hown, heq⟩ := hturned.here.kind kind rfl
      rw [hown, heq, hself]
    have hquantified : (TypeNode.quantified (kinded here kind) vars node).Settled known c₂.store :=
        by
      refine ⟨⟨hsettled.wellKinded, ?_⟩, ⟨⟨kind, rfl, hground.proper _⟩, fun var hvar => ?_,
        hsettled.proper⟩, ⟨⟨kind, rfl, hselfGround⟩, fun _ _ => True.intro, hsettled.ground⟩⟩
      · refine hshape.kinds.imp ?_ ?_
        · rintro ⟨rfl, rfl⟩
          exact ⟨rfl, hresult⟩
        · rintro ⟨kinds, hkinds, rfl⟩
          refine ⟨kinds, result, ?_, hresult, congrArg some (hself _)⟩
          exact map_kindBy_of_ground (Kind.ground_higher.1 hground).1 hkinds c₂.store
      · obtain ⟨own, hown, hproper⟩ := hvars var hvar
        exact ⟨own, hown, hproper.mono hcalm₂.kinds⟩
    exact hquantified.turned hturned (fun hkey => hsame _ (hfits.proper hkey)) hnext
      hcalm₂.sound
  refine Quietly.bind (hbindersAdds.bind haddsLast) haddsPop (hinside.mono fun node c₁ hnode => ?_)
  cases hloose : node.appliesLoose loose with
  | true => exact Always.quietly (Always.bind fun _ => Always.pure hloose)
  | false =>
    obtain ⟨hsteady, hkind, hsettled⟩ := hnode hloose
    refine Quietly.bind (Appends.lift _) (fun _ => Appends.pure _) (Quietly.lift ?_)
    refine (Solve.popScope_calm hfits.sound hsteady rfl).mono ?_
    rintro _ s₂ ⟨hcalm, hnext, hsame⟩
    exact Quietly.pure fun _ => ⟨hcalm, hsettled s₂ hnext hsame, hkind⟩

theorem map_of_related {α β γ : Type} {r : α → β → Prop} {f : α → γ} {g : β → γ} {left : List α}
    {right : List β} (h : List.Forall₂ r left right) (himp : ∀ a b, r a b → g b = f a) :
    right.map g = left.map f := by
  induction h with
  | nil => rfl
  | cons hhead _ ih => rw [List.map_cons, List.map_cons, himp _ _ hhead, ih]

/-- Binders of unknown kinds are loose in the body of their quantifier. -/
theorem infers_quantified {here : Located Name} {binders : List (TypeVarNode Name)}
    {body : KindJudgement} (hadds : body.Adds)
    (hbody : ∀ vars : List (TypeVarNode Attributes),
      vars.map TypeVarNode.name = binders.map TypeVarNode.name →
      (∀ var ∈ vars, (var.here.kindBy id).isSome = true) →
      body.Finds (known.bind vars) (binders.map TypeVarNode.name ++ loose)) :
    ∀ c : Checker, known.Fits loose c.store →
      Quietly (KindJudgement.inferQuantified here binders body) c fun node c' =>
        node.appliesLoose loose = false → Store.Calm c.store c'.store ∧
          node.Settled known c'.store ∧ node.here.kindBy id = some .type := by
  refine quantified_settles (binders.map TypeVarNode.name ++ loose) .type
    (Appends.mapM fun var _ => (Appends.lift _).bind fun _ => Appends.bindTypeVar _ _)
    (hadds.check _) Kind.ground_type fun c hs hlone => ?_
  refine (binds_mapM inferTypeVar TypeVarNode.name (fun _ _ => True)
    (fun var _ => binds_inferTypeVar var) c hs hlone).mono ?_
  rintro vars c' ⟨hsteady, hvars, hbound⟩
  have hnames : vars.map TypeVarNode.name = binders.map TypeVarNode.name :=
    map_of_related hvars fun _ _ hvar => hvar.1
  have hkinds : ∀ var ∈ vars, ∃ kind, var.here.kindBy id = some kind ∧
      kind.Proper c'.store.nextKind := by
    intro var hvar
    obtain ⟨item, -, -, kind, hkind, hproper, -⟩ := exists_related_left hvars hvar
    exact ⟨kind, hkind, hproper⟩
  refine ⟨hsteady, hkinds, hbound, ⟨.inl ⟨rfl, rfl⟩, ?_, ?_, ?_⟩,
    (hbody vars hnames fun var hvar => ?_).checks Kind.ground_type⟩
  · intro here body
    rw [TypeNode.appliesLoose, if_pos (kindBy_kinded here .type), hnames]
  · intro var hvar
    refine .inl (List.mem_append_left _ ?_)
    rw [← hnames]
    exact List.mem_map_of_mem hvar
  · exact fun hkey _ hloose => hkey (List.mem_append_right _ hloose)
  · obtain ⟨kind, hkind, -⟩ := hkinds var hvar
    rw [hkind]
    rfl

/-- Binders of known kinds. -/
theorem checks_quantified {here : Located Name} {binders : List (TypeVarNode Name)}
    {body : KindJudgement} {args : List Kind} {result : Kind} (hadds : body.Adds)
    (hground : (Kind.higher args result).Ground) (hlength : args.length = binders.length)
    (hbody : ∀ vars : List (TypeVarNode Attributes),
      vars.map TypeVarNode.name = binders.map TypeVarNode.name →
      (∀ var ∈ vars, (var.here.kindBy id).isSome = true) →
      body.Finds (known.bind vars)
        (loose.filter fun name => !(binders.map TypeVarNode.name).contains name)) :
    ∀ c : Checker, known.Fits loose c.store →
      Quietly (KindJudgement.checkQuantified here binders body args result) c fun node c' =>
        node.appliesLoose loose = false → Store.Calm c.store c'.store ∧
          node.Settled known c'.store ∧ node.here.kindBy id = some (.higher args result) := by
  obtain ⟨hargs, hresult⟩ := Kind.ground_higher.1 hground
  refine quantified_settles (loose.filter fun name => !(binders.map TypeVarNode.name).contains name)
    result (Appends.mapM fun _ _ => Appends.bindTypeVar _ _) (hadds.check _) hground
    fun c hs hlone => ?_
  refine (binds_mapM (fun pair : TypeVarNode Name × Kind => bindTypeVar pair.1 pair.2)
    (fun pair => pair.1.name) (fun pair kind => kind = pair.2)
    (fun pair hpair => binds_bindTypeVar pair.1 (hargs pair.2 (List.of_mem_zip hpair).2)) c hs
    hlone).mono ?_
  rintro vars c' ⟨hsteady, hvars, hbound⟩
  have hnames : vars.map TypeVarNode.name = binders.map TypeVarNode.name := by
    have hfirst : (binders.zip args).map Prod.fst = binders :=
      List.map_fst_zip (Nat.le_of_eq hlength.symm)
    conv_rhs => rw [← hfirst, List.map_map]
    exact map_of_related hvars fun _ _ hvar => hvar.1
  have hkinds : ∀ var ∈ vars, ∃ kind, var.here.kindBy id = some kind ∧ kind.Ground := by
    intro var hvar
    obtain ⟨pair, hpair, -, kind, hkind, -, rfl⟩ := exists_related_left hvars hvar
    exact ⟨_, hkind, hargs _ (List.of_mem_zip hpair).2⟩
  refine ⟨hsteady, fun var hvar => ?_, hbound, ⟨.inr ⟨args, ?_, rfl⟩, ?_, ?_, ?_⟩,
    (hbody vars hnames fun var hvar => ?_).checks hresult⟩
  · obtain ⟨kind, hkind, hkindGround⟩ := hkinds var hvar
    exact ⟨kind, hkind, hkindGround.proper _⟩
  · have hsecond : (binders.zip args).map Prod.snd = args :=
      List.map_snd_zip (Nat.le_of_eq hlength)
    conv_rhs => rw [← hsecond, List.map_map]
    refine map_of_related hvars ?_
    rintro pair var ⟨-, kind, hkind, -, rfl⟩
    exact hkind
  · intro here body
    rw [TypeNode.appliesLoose, kindBy_kinded, if_neg (by simp), hnames]
  · exact fun var hvar => .inr (hkinds var hvar)
  · intro key hkey hfree hloose
    refine hkey (List.mem_filter.2 ⟨hloose, ?_⟩)
    rw [← hnames, Bool.not_eq_true', ← Bool.not_eq_true, List.contains_iff_mem, List.mem_map]
    rintro ⟨var, hvar, hname⟩
    exact hfree var hvar hname
  · obtain ⟨kind, hkind, -⟩ := hkinds var hvar
    rw [hkind]
    rfl

mutual
/-- The kinds of every written type are found. -/
theorem TypeNode.judge_finds : ∀ (node : TypeNode Name) {known : KindContext} {loose : List String},
    node.NamesWithin (fun key => (known key).isSome = true) → node.judge.Finds known loose
  | .quantified here binders body, known, loose, hnames => by
    rw [judge]
    have hbody : ∀ (vars : List (TypeVarNode Attributes)) (loose' : List String),
        vars.map TypeVarNode.name = binders.map TypeVarNode.name →
        (∀ var ∈ vars, (var.here.kindBy id).isSome = true) →
        body.judge.Finds (known.bind vars) loose' := by
      intro vars loose' hvars hkinds
      refine body.judge_finds (TypeNode.NamesWithin.mono (fun key hkey => ?_) hnames)
      rcases KindContext.bind_cases vars key with ⟨var, hvar, -, hbind⟩ | ⟨hfree, hbind⟩
      · rw [hbind, ← Located.kindBy_id]
        exact hkinds var hvar
      · rw [hbind]
        refine hkey.resolve_left fun hin => ?_
        rw [← hvars, List.mem_map] at hin
        obtain ⟨var, hvar, hname⟩ := hin
        exact hfree var hvar hname
    have hadds := body.judge_adds
    have hinfers : Infers known loose (KindJudgement.inferQuantified here binders body.judge) := by
      intro c hfits
      refine (infers_quantified hadds (fun vars => hbody vars _) c hfits).mono ?_
      intro node c' hnode hloose
      obtain ⟨hcalm, hsettled, hkind⟩ := hnode hloose
      refine ⟨hcalm, .type, hkind, Kind.proper_type _, fun _ =>
          Kind.ground_type, fun s hsteady _ => ?_⟩
      exact hsettled.steady hsteady fun hkey => (hfits.calm hcalm).proper hkey
    refine ⟨hinfers, fun {expected} hground => ?_⟩
    intro c hfits
    have hsubsume := hinfers.subsume
        (KindJudgement.appends_inferQuantified hadds) here.range hground
    refine Quietly.bind (Appends.lift _) (fun _ => ?_) (Quietly.lift (Ends.bind (Ends.get
      (Ends.pure ?_))))
    · split
      · split
        · exact KindJudgement.appends_checkQuantified hadds _ _
        · exact KindJudgement.appends_subsume _ (KindJudgement.appends_inferQuantified hadds) _
      · exact KindJudgement.appends_subsume _ (KindJudgement.appends_inferQuantified hadds) _
    rw [Store.substituteKind, hground.substitute]
    split
    · rename_i argKinds result
      split
      · rename_i hlength
        refine (checks_quantified hadds hground hlength (fun vars => hbody vars _) c hfits).mono ?_
        intro node c' hnode hloose
        obtain ⟨hcalm, hsettled, hkind⟩ := hnode hloose
        refine ⟨hcalm, hsettled, ?_⟩
        rw [Located.kindBy_eq hkind]
        exact congrArg some (hground.substitute c'.store.kinds)
      · exact hsubsume c hfits
    · exact hsubsume c hfits
  | .function here args result, known, loose, hnames => by
    rw [judge]
    have hinfers : Infers known loose
        (KindJudgement.function here (judgeList args) result.judge).infer :=
      infers_function (fun arg harg => ⟨judgeList_adds args arg harg,
        judgeList_finds args hnames.1 arg harg⟩) result.judge_adds (result.judge_finds hnames.2)
    exact .ofInference hinfers (KindJudgement.Adds.function
        (judgeList_adds args) result.judge_adds).infer
  | .apply here head args, known, loose, hnames => by
    rw [judge]
    have hinfers : Infers known loose
        (KindJudgement.apply here head.judge (judgeList args)).infer :=
      infers_apply head.judge_adds (head.judge_finds hnames.1) fun arg harg =>
        ⟨judgeList_adds args arg harg, judgeList_finds args hnames.2 arg harg⟩
    exact .ofInference hinfers (KindJudgement.Adds.apply head.judge_adds
        (judgeList_adds args)).infer
  | .reference here id, known, loose, hnames => by
    rw [judge]
    obtain ⟨kind, hkind⟩ := Option.isSome_iff_exists.1 hnames.2
    exact .ofInference (infers_reference id hnames.1 hkind) (KindJudgement.Adds.reference id).infer
  | .var node, known, loose, hnames => by
    rw [judge]
    obtain ⟨kind, hkind⟩ := Option.isSome_iff_exists.1 hnames.2
    exact .ofInference (infers_var hnames.1 hkind) (KindJudgement.Adds.var node).infer
theorem TypeNode.judgeList_finds : ∀ (nodes : List (TypeNode Name)) {known : KindContext}
    {loose : List String}, TypeNode.AllNamesWithin (fun key => (known key).isSome = true) nodes →
    ∀ judgement ∈ TypeNode.judgeList nodes, judgement.Finds known loose
  | [], _, _, _ => by
    rw [judgeList]
    intro _ h
    cases h
  | node :: rest, _, _, hnames => by
    rw [judgeList]
    intro judgement h
    rcases List.mem_cons.1 h with rfl | h
    · exact node.judge_finds hnames.1
    · exact judgeList_finds rest hnames.2 judgement h
end

/-! ## Defaults -/

namespace Kind

variable {created : Nat} {kinds : Partition Kind}

/-- Solving a variable by `*` leaves what is solved already. -/
theorem Acyclic.absorbs_defaultVariable (h : Acyclic created kinds) (hlone : Lone kinds) {id : Nat}
    (hid : id < created) (hdefaultable : Defaultable kinds id) :
    Lone (kinds.union (.unsolved id) .type preferSolved) ∧ ∀ kind : Kind,
      (kind.substitute kinds).substitute (kinds.union (.unsolved id) .type preferSolved) =
        kind.substitute (kinds.union (.unsolved id) .type preferSolved) := by
  have hwellFounded := (h.defaultVariable hid hdefaultable).1.wellFounded
  rcases hdefaultable with hfinal | ⟨c, hclass, htype⟩
  · have hunknown : shape.unknown (kinds.find (.unsolved id)) = true := by
      rw [final_iff.1 hfinal]
      rfl
    refine ⟨(h.lone_solve hlone picks_preferSolved hid hfinal (proper_type _) .type rfl).1, ?_⟩
    refine substitute_absorbs h.wellFounded hwellFounded fun other hne => ?_
    have hsolved : shape.unknown (kinds.find (.unsolved other)) = false := hlone.solved hne
    exact eq_of_beq (h.sound.find_union_solved picks_preferSolved hunknown hsolved)
  · -- The variable is solved by `*` already.
    have hfind : ∀ kind, (kinds.union (.unsolved id) .type preferSolved).find kind =
        kinds.find kind := fun kind =>
      eq_of_beq (Partition.find_union_of_same h.sound.distinct hclass htype kind)
    refine ⟨fun v other hv => hlone v other (by rwa [hfind] at hv), ?_⟩
    exact substitute_absorbs h.wellFounded hwellFounded fun _ _ => hfind _

theorem Acyclic.absorbs_defaultVariables {ids : List Nat} : ∀ {kinds : Partition Kind},
    Acyclic created kinds → Lone kinds → (∀ id ∈ ids, id < created ∧ Defaultable kinds id) →
    Lone (Kind.defaultVariables kinds ids) ∧ ∀ kind : Kind,
      (kind.substitute kinds).substitute (Kind.defaultVariables kinds ids) =
        kind.substitute (Kind.defaultVariables kinds ids) := by
  induction ids with
  | nil =>
    intro kinds h hlone _
    exact ⟨hlone, substitute_substitute h.wellFounded⟩
  | cons id rest ih =>
    intro kinds h hlone hids
    obtain ⟨hid, hdefaultable⟩ := hids id List.mem_cons_self
    obtain ⟨hacyclic, hothers⟩ := h.defaultVariable hid hdefaultable
    obtain ⟨hlone', habsorbs⟩ := h.absorbs_defaultVariable hlone hid hdefaultable
    obtain ⟨hlast, habsorbs'⟩ := ih hacyclic hlone' fun other hother =>
      ⟨(hids other (List.mem_cons_of_mem _ hother)).1,
        hothers other (hids other (List.mem_cons_of_mem _ hother)).2⟩
    have hcons : Kind.defaultVariables kinds (id :: rest) =
      Kind.defaultVariables (kinds.union (.unsolved id) .type preferSolved) rest := rfl
    rw [hcons]
    refine ⟨hlast, fun kind => ?_⟩
    rw [← habsorbs', habsorbs, habsorbs']

end Kind

/-- Defaulting a tree leaves the kinds that are known. -/
theorem defaultNode_ends {node : TypeNode Attributes} {c : Checker} (hs : c.store.Sound)
    (hlone : Kind.Lone c.store.kinds)
    (hproper : node.Carries (Located.HasKind (Kind.Proper c.store.nextKind))
      (Located.HasKind (Kind.Proper c.store.nextKind))) :
    Ends (defaultNode node) c fun node' c' => c'.log = c.log ∧
      node.Turned (fun kind kind' => (c.store.substituteKind kind).Ground →
        kind' = c.store.substituteKind kind) node' := by
  have hturns : Turns
      (fun c' : Checker => c'.log = c.log ∧ Kind.Acyclic c.store.nextKind c'.store.kinds ∧
        Kind.Lone c'.store.kinds ∧ ∀ kind : Kind, (c.store.substituteKind kind).substitute
          c'.store.kinds = kind.substitute c'.store.kinds)
      (Located.HasKind (Kind.Proper c.store.nextKind))
      (fun kind kind' => (c.store.substituteKind kind).Ground → kind' = c.store.substituteKind kind)
      fun attributes => (Solve.default attributes : Check Attributes) := by
    rintro here c' ⟨kind, hkind, hkindProper⟩ ⟨hlog, hacyclic, hlone', habsorbs⟩
    rw [Located.kindBy_id] at hkind
    obtain ⟨range, name, classifier⟩ := here
    cases classifier with
    | ofType type => cases hkind
    | ofKind own =>
      obtain rfl : own = kind := Option.some.inj hkind
      have hdefault : Ends (Solve.default ⟨name, .ofKind own⟩) c'.store fun attributes s =>
          s = { c'.store with kinds := (own.default c'.store.kinds).2 } ∧
            attributes = ⟨name, .ofKind (own.default c'.store.kinds).1⟩ :=
        Ends.bind (Ends.bind (Ends.get (Ends.bind (Ends.set (Ends.pure (Ends.pure ⟨rfl, rfl⟩))))))
      refine Ends.within (hdefault.mono ?_)
      rintro _ _ ⟨rfl, rfl⟩
      have hids : ∀ id ∈ (own.substitute c'.store.kinds).unknowns,
          id < c.store.nextKind ∧ Kind.Defaultable c'.store.kinds id := fun id hid =>
        ⟨hacyclic.substitute_proper hkindProper id hid,
          .inl (Kind.final_of_mem_substitute hacyclic.wellFounded hid)⟩
      obtain ⟨hloneLast, hdefaults⟩ := hacyclic.absorbs_defaultVariables hlone' hids
      refine ⟨⟨hlog, hacyclic.defaultVariables hids, hloneLast, fun kind => ?_⟩, rfl, ?_⟩
      · show (c.store.substituteKind kind).substitute (Kind.defaultVariables c'.store.kinds _) =
          kind.substitute (Kind.defaultVariables c'.store.kinds _)
        rw [← hdefaults, habsorbs, hdefaults]
      · intro kind hkind
        obtain rfl : own = kind := Option.some.inj hkind
        refine ⟨_, rfl, fun hground => ?_⟩
        have hfound : own.substitute c'.store.kinds = c.store.substituteKind own := by
          rw [← habsorbs]
          exact hground.substitute _
        show (own.substitute c'.store.kinds).substitute _ = _
        rw [hfound]
        exact hground.substitute _
  refine (TypeNode.traverse_turned hturns ⟨rfl, hs.kinds, hlone, fun kind => ?_⟩ hproper).mono ?_
  · exact Kind.substitute_substitute hs.kinds.wellFounded kind
  · exact fun node' c' h => ⟨h.1.1, h.2⟩

/-- Defaulting a tree leaves proper types proper. -/
theorem defaultNode_proper (node : TypeNode Attributes) (c : Checker) :
    Ends (defaultNode node) c fun node' _ =>
      node.Turned (fun kind kind' => kind = .type → kind' = .type) node' := by
  have hturns : Turns (fun _ : Checker => True) (fun _ => True)
      (fun kind kind' => kind = .type → kind' = .type)
      fun attributes => (Solve.default attributes : Check Attributes) := by
    rintro ⟨range, name, classifier⟩ c' - -
    have hdefault : Ends (Solve.default ⟨name, classifier⟩) c'.store fun attributes _ =>
        attributes = ⟨name, (classifier.default c'.store.types c'.store.kinds).1⟩ :=
      Ends.bind (Ends.bind (Ends.get (Ends.bind (Ends.set (Ends.pure (Ends.pure rfl))))))
    refine Ends.within (hdefault.mono ?_)
    rintro _ s rfl
    refine ⟨True.intro, rfl, fun kind hkind => ?_⟩
    cases classifier with
    | ofType type => cases hkind
    | ofKind own =>
      obtain rfl : own = kind := Option.some.inj hkind
      refine ⟨_, rfl, ?_⟩
      rintro rfl
      rfl
  refine (TypeNode.traverse_turned hturns True.intro
    (node.carries_of_forall (fun _ => True.intro) fun _ => True.intro)).mono ?_
  exact fun node' c' h => h.2

/-- When nothing is solved yet and all free names of a written type are bound to ground kinds, a
check that reports nothing gives a well-kinded tree of kind `*`, unless it applies a variable
whose kind only its uses tell.  This leaves out more than goes wrong, such as `[f] { f[Int] }`: in
the counterexample below the variable is applied to arguments whose kinds only uses tell too. -/
theorem properTypeNode_wellKinded {node : TypeNode Name} {c c' : Checker}
    {tree : TypeNode Attributes} (hs : c.store.Sound)
    (hunsolved : ∀ kind, c.store.kinds.find kind = kind)
    (hnames : node.NamesWithin fun key => ∃ kind, c.store.kindBound key = some kind ∧ kind.Ground)
    (hrun : properTypeNode node c = .ok tree c') (hquiet : c'.log.items = c.log.items)
    (hloose : tree.appliesLoose [] = false) :
    tree.WellKinded c.store.kindBound ∧ tree.here.kindBy id = some .type := by
  -- Only the names that are bound to ground kinds matter.
  let known : KindContext := fun key => (c.store.kindBound key).filter fun kind =>
      decide kind.Ground
  have hknown : ∀ {key kind}, known key = some kind →
      c.store.kindBound key = some kind ∧ kind.Ground := fun hkey => by
    simpa [known] using hkey
  have hfits : known.Fits [] c.store := by
    refine ⟨hs, fun id other hfind => ?_, fun hkey => (hknown hkey).1,
      fun hkey => (hknown hkey).2.proper _, fun {key kind} hkey _ => ?_⟩
    · rw [hunsolved] at hfind
      cases hfind
      rfl
    · rw [Store.substituteKind, (hknown hkey).2.substitute]
      exact (hknown hkey).2
  have hbound : node.NamesWithin fun key => (known key).isSome = true := by
    refine hnames.mono fun key hkey => ?_
    obtain ⟨kind, hkind, hground⟩ := hkey
    simp [known, hkind, hground]
  have hadds : ∀ tree : TypeNode Attributes, Appends (defaultNode tree) :=
    Appends.traverse fun _ => Appends.lift _
  have hresult : Quietly (properTypeNode node) c fun tree _ => tree.appliesLoose [] = false →
      tree.WellKinded c.store.kindBound ∧ tree.here.kindBy id = some .type := by
    refine Quietly.bind (node.judge_adds.check _) hadds ?_
    refine ((node.judge_finds hbound).checks Kind.ground_type c hfits).mono fun raw c₁ hraw => ?_
    cases hrawLoose : raw.appliesLoose [] with
    | true =>
      refine Quietly.of_ends ((defaultNode_proper raw c₁).mono fun tree' _ hturned hloose => ?_)
      have htype : ∀ kind : Kind, (Kind.type = .type → kind = .type) → kind = .type :=
        fun _ himp => himp rfl
      rw [TypeNode.appliesLoose_turned htype hturned (List.Subset.refl _) hrawLoose] at hloose
      cases hloose
    | false =>
      obtain ⟨hcalm, hsettled, hkind⟩ := hraw hrawLoose
      refine Quietly.of_ends ((defaultNode_ends hcalm.sound hcalm.lone hsettled.proper).mono ?_)
      rintro tree' c₂ ⟨-, hturned⟩ -
      have hrel : ∀ kind kind', ((c₁.store.substituteKind kind).Ground →
          kind' = c₁.store.substituteKind kind) → (c₁.store.substituteKind kind).Ground →
          id kind' = c₁.store.substituteKind kind := fun _ _ himp hground => himp hground
      refine ⟨hsettled.wellKinded.turned hrel hturned hsettled.ground fun key kind hkey _ => ?_, ?_⟩
      · refine ⟨kind, (hknown hkey).1, ?_⟩
        exact ((hknown hkey).2.substitute c₁.store.kinds).symm
      · exact hturned.here.kindBy hrel hkind Kind.ground_type
  exact hresult tree c' hrun hquiet hloose

namespace Sample

/-- The use of a data type of the namespace `N`. -/
def named (name : String) : TypeNode Name :=
  .reference ⟨default, .data ⟨⟨[], "N"⟩, name⟩⟩ ⟨default, none, name⟩

def binder (name : String) : TypeVarNode Name :=
  ⟨⟨default, .typeVar .universal name⟩, .universal, name⟩

def nameless : Located Name := ⟨default, .nameless⟩

/-- A data type of the namespace `N` with its kind. -/
def bound (name : String) (kind : Kind) : Located Attributes :=
  ⟨default, ⟨.data ⟨⟨[], "N"⟩, name⟩, .ofKind kind⟩⟩

/-- Nothing is solved, `N.List` takes a proper type, and `N.Fix` takes a type constructor and a
proper type. -/
def checker : Checker :=
  let list := bound "List" (.higher [.type] .type)
  let fix := bound "Fix" (.higher [.higher [.type] .type, .type] .type)
  ⟨"", Log.empty, { Store.start with
    stack := Store.start.stack.push
      (((Frame.empty .block).putType "N.List" list).putType "N.Fix" fix) }⟩

/-- `[a] { N.Fix[[x] { N.List[x] }, a] -> a }`. -/
def fixed : TypeNode Name :=
  .quantified nameless [binder "a"] (.function nameless
    [.apply nameless (named "Fix")
      [.quantified nameless [binder "x"] (.apply nameless (named "List") [.var (binder "x")]),
        .var (binder "a")]]
    (.var (binder "a")))

theorem checker_sound : checker.store.Sound := (Store.sound_start.withStack _).sound

theorem kindBound_list : checker.store.kindBound "N.List" = some (.higher [.type] .type) := by
  decide +kernel

theorem kindBound_fix : checker.store.kindBound "N.Fix" =
    some (.higher [.higher [.type] .type, .type] .type) := by
  decide +kernel

theorem fixed_namesWithin :
    fixed.NamesWithin fun key => ∃ kind, checker.store.kindBound key = some kind ∧ kind.Ground := by
  have hlist : ∃ kind, checker.store.kindBound "N.List" = some kind ∧ kind.Ground :=
    ⟨_, kindBound_list, by simp [Kind.ground_higher, Kind.ground_type]⟩
  have hfix : ∃ kind, checker.store.kindBound "N.Fix" = some kind ∧ kind.Ground :=
    ⟨_, kindBound_fix, by simp [Kind.ground_higher, Kind.ground_type]⟩
  have ha : "a" ∈ [binder "a"].map TypeVarNode.name := List.mem_singleton.2 rfl
  have hx : "x" ∈ [binder "x"].map TypeVarNode.name := List.mem_singleton.2 rfl
  refine ⟨⟨⟨⟨rfl, .inr hfix⟩, ⟨⟨rfl, .inr (.inr hlist)⟩, ⟨rfl, .inl hx⟩, True.intro⟩,
    ⟨rfl, .inl ha⟩, True.intro⟩, True.intro⟩, rfl, .inl ha⟩

/-- The type is checked quietly to a tree that passes a test. -/
def quietly (test : TypeNode Attributes → Bool) (node : TypeNode Name) : Bool :=
  match properTypeNode node checker with
  | .ok tree c' => c'.log.items.isEmpty && test tree
  | .error _ _ => false

theorem exists_of_quietly {test : TypeNode Attributes → Bool} {node : TypeNode Name}
    (hquietly : quietly test node = true) :
    ∃ tree c', properTypeNode node checker = .ok tree c' ∧ c'.log.items = [] ∧
        test tree = true := by
  unfold quietly at hquietly
  split at hquietly
  · rename_i tree c' hrun
    rw [Bool.and_eq_true, List.isEmpty_iff] at hquietly
    exact ⟨tree, c', hrun, hquietly⟩
  · cases hquietly

theorem fixed_wellKinded : ∃ tree c', properTypeNode fixed checker = .ok tree c' ∧
    c'.log.items = [] ∧ tree.WellKinded checker.store.kindBound ∧
    tree.here.kindBy id = some .type := by
  have hquietly : quietly (fun tree => !tree.appliesLoose []) fixed = true := by decide +kernel
  obtain ⟨tree, c', hrun, hquiet, hloose⟩ := exists_of_quietly hquietly
  rw [Bool.not_eq_true'] at hloose
  exact ⟨tree, c', hrun, hquiet, properTypeNode_wellKinded checker_sound (fun _ => rfl)
    fixed_namesWithin hrun hquiet hloose⟩

/-- `[f] { ([x] { f[x] }, [y] { f[y] }) -> f[N.List] }`. -/
def shared : TypeNode Name :=
  let apply (arg : TypeNode Name) := TypeNode.apply nameless (.var (binder "f")) [arg]
  .quantified nameless [binder "f"] (.function nameless
    [.quantified nameless [binder "x"] (apply (.var (binder "x"))),
      .quantified nameless [binder "y"] (apply (.var (binder "y")))]
    (apply (named "List")))

/-- The first use of the variable under an inner quantifier has another kind than its binder. -/
def tornApart : TypeNode Attributes → Bool
  | .quantified _ [outer] (.function _ (.quantified _ [inner] (.apply _ (.var use) _) :: _) _) =>
    use.here.info.name.canonical == outer.name && outer.name != inner.name &&
      use.here.kindBy id != outer.here.kindBy id
  | _ => false

theorem tornApart_not_wellKinded {tree : TypeNode Attributes} {known : KindContext}
    (htorn : tornApart tree = true) : ¬ tree.WellKinded known := by
  intro hwell
  unfold tornApart at htorn
  split at htorn
  · rename_i outer _ _ inner _ use _ _ _
    simp only [Bool.and_eq_true, beq_iff_eq, bne_iff_ne] at htorn
    obtain ⟨⟨huse, hnames⟩, hkinds⟩ := htorn
    obtain ⟨kind, hbound, hkind⟩ := hwell.1.2.2.2.1.1.1.2.1
    refine hkinds ?_
    rw [hkind, Located.kindBy_id, id, ← hbound, huse]
    simp [KindContext.bind, hnames]
  · cases htorn

/-- The condition on applied variables is needed: here the two uses of one meet quietly, and are
left with different kinds. -/
theorem exists_quiet_not_wellKinded : ∃ tree c', properTypeNode shared checker = .ok tree c' ∧
    c'.log.items = [] ∧ ¬ tree.WellKinded checker.store.kindBound := by
  have hquietly : quietly tornApart shared = true := by decide +kernel
  obtain ⟨tree, c', hrun, hquiet, htorn⟩ := exists_of_quietly hquietly
  exact ⟨tree, c', hrun, hquiet, tornApart_not_wellKinded htorn⟩

end Sample

end PolyFront
