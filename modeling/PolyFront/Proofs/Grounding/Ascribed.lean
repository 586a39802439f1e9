import PolyFront.Checking.Ascription
import PolyFront.Proofs.Annotation.Types
import PolyFront.Proofs.Grounding.Binders
import PolyFront.Proofs.Grounding.Judged

/-!
# Written types as types

Once a written type is defaulted all its kinds are known, and what was shown of it need not be shown
any more.  It is read as a type that fits, provided that its binders are named variables.
-/

namespace PolyFront

open Run Check World

/-- The node carries a kind without unsolved variables. -/
def Attributes.GroundKind (info : Attributes) : Prop :=
  ∃ kind, info.classifier = .ofKind kind ∧ kind.Ground

theorem Attributes.GroundKind.ground {info : Attributes} (h : info.GroundKind) :
    info.classifier.Ground := by
  obtain ⟨kind, heq, hground⟩ := h
  rw [heq]
  exact hground

theorem Attributes.GroundKind.fits {info : Attributes} (h : info.GroundKind) (w : World) :
    info.classifier.Fits w := by
  obtain ⟨kind, heq, hground⟩ := h
  rw [heq]
  exact hground.proper _

/-- All kinds in the type are known, its variables were created and its binders are named. -/
def World.Grounded (w : World) (type : Ty) : Prop := type.Fits Kind.Ground w.store.nextType

namespace World

variable {w w' : World} {type : Ty}

theorem Later.grounded (h : Later w w') (htype : w.Grounded type) : w'.Grounded type :=
  htype.mono (fun _ hkind => hkind) h.types

theorem Grounded.fits (h : w.Grounded type) : w.Fits type := w.fits_of_ground h (Nat.le_refl _)

theorem Grounded.function {args : List Ty} (hargs : ∀ arg ∈ args, w.Grounded arg)
    (htype : w.Grounded type) : w.Grounded (Ty.function args type) :=
  Ty.Fits.function hargs htype Kind.ground_type

/-- A type stays grounded. -/
theorem stays_grounded : Stays fun w type => w.Grounded type := fun _ _ _ h => h.grounded

/-- A binder stays a grounded variable. -/
theorem stays_binder : Stays fun w type => type.isVar = true ∧ w.Grounded type :=
  fun _ _ _ hlater h => ⟨h.1, hlater.grounded h.2⟩

end World

/-! ## Defaults -/

namespace Check

variable {among : ScopeTag → Prop} {w : World} {inside : Bool} {c : Checker}

theorem default_kind_ends {info : Attributes} {kind : Kind}
    (hkind : info.classifier = .ofKind kind) :
    Ends (liftM (Solve.default info) : Check Attributes) c fun info' c' =>
      info'.classifier = .ofKind (kind.default c.store.kinds).1 ∧
        c'.store = { c.store with kinds := (kind.default c.store.kinds).2 } := by
  refine lift_ends (Ends.bind (Ends.bind (Ends.get (Ends.bind (Ends.set
    (Ends.pure (Ends.pure ?_)))))))
  rw [hkind]
  exact ⟨rfl, rfl⟩

/-- Nodes are defaulted one after the other, after which they need not be shown. -/
theorem default_infos_ends (inside : Bool) : ∀ (infos : List Attributes) {w₁ : World} {c : Checker},
    KindSteps (shownBy inside infos) w w₁ →
    (∀ info ∈ infos, ∃ kind, info.classifier = .ofKind kind ∧ kind.Proper w₁.store.nextKind) →
    c.store = w₁.store →
    Ends (infos.mapM fun info => (Solve.default info : Check Attributes)) c fun infos' c' =>
      ∃ w₂, w₂.store = c'.store ∧ KindSteps [] w w₂ ∧ ∀ info ∈ infos', info.GroundKind
  | [], w₁, c, hsteps, _, hc =>
    Ends.pure ⟨w₁, hc.symm, by cases inside <;> exact hsteps, fun _ h => (List.not_mem_nil h).elim⟩
  | info :: rest, w₁, c, hsteps, hinfos, hc => by
    obtain ⟨kind, hkind, hproper⟩ := hinfos info List.mem_cons_self
    obtain ⟨hchecks, hground, hdone⟩ := hsteps.kept.default_kind hproper
    -- The kind is known from now on, so that it is left out of what is shown.
    have hrest := (hsteps.trans hchecks.kindSteps).reshow (shownBy inside rest)
      (fun other hother => by
        rw [List.append_nil] at hother
        cases inside with
        | false => exact (List.not_mem_nil hother).elim
        | true =>
          obtain ⟨found, hfound, heq⟩ := mem_kindsOf.1 hother
          rcases List.mem_cons.1 hfound with rfl | hfound
          · rw [hkind, Classifier.ofKind.injEq] at heq
            exact .inr (.inr (heq ▸ hdone))
          · exact .inl (mem_kindsOf.2 ⟨found, hfound, heq⟩))
      fun other hother => by
        obtain ⟨found, hfound, heq⟩ := mem_shownBy hother
        obtain ⟨own, hown, hproper⟩ := hinfos found (List.mem_cons_of_mem _ hfound)
        rw [heq, Classifier.ofKind.injEq] at hown
        exact (hown ▸ hproper).mono hchecks.toLater.kinds
    rw [List.mapM_cons]
    refine Ends.bind ((default_kind_ends hkind).mono ?_)
    rintro info' c₁ ⟨hinfo', hc₁⟩
    rw [hc] at hinfo' hc₁
    refine Ends.bind ((default_infos_ends inside rest hrest ?_ hc₁).mono ?_)
    · intro found hfound
      obtain ⟨own, heq, hproper⟩ := hinfos found (List.mem_cons_of_mem _ hfound)
      exact ⟨own, heq, hproper.mono hchecks.toLater.kinds⟩
    · rintro infos' c' ⟨w₂, hc', hsteps', hinfos'⟩
      refine Ends.pure ⟨w₂, hc', hsteps', fun found hfound => ?_⟩
      rcases List.mem_cons.1 hfound with rfl | hfound
      · exact ⟨_, hinfo', hground⟩
      · exact hinfos' found hfound

theorem defaultNode_ends {w₁ : World} {node : TypeNode Attributes}
    (h : Found inside node.infos w w₁) (hc : c.store = w₁.store) :
    Ends (defaultNode node) c fun node' c' => ∃ w₂, w₂.store = c'.store ∧ KindSteps [] w w₂ ∧
      ∀ info ∈ node'.infos, info.GroundKind := by
  refine Ends.of_map TypeNode.infos (fun infos' (c' : Checker) =>
    ∃ w₂ : World, w₂.store = c'.store ∧ KindSteps [] w w₂ ∧
      ∀ info ∈ infos', Attributes.GroundKind info) ?_
  rw [defaultNode, TypeNode.infos_traverse]
  refine default_infos_ends inside _ h.toKindSteps (fun info hinfo => ?_) hc
  obtain ⟨kind, heq, hproper, -⟩ := h.carries info hinfo
  exact ⟨kind, heq, hproper⟩

/-- A written type is checked to be a proper one, and all its kinds are known then. -/
theorem properTypeNode_yields (node : TypeNode Name) :
    Check.Yields among w (properTypeNode node) fun _ node' =>
      (∀ info ∈ node'.infos, info.GroundKind) ∧ node'.traverse nameOnly = node := by
  intro w₁ c hlater hcalm hc
  have hchecked : Ends (properTypeNode node) c fun node' c' => ∃ w₂, w₂.store = c'.store ∧
      KindSteps [] w₁ w₂ ∧ ∀ info ∈ node'.infos, info.GroundKind := by
    refine Ends.bind (((node.judge_shows true).check hcalm.toKept nofun (Kind.proper_type _)
      Kind.free_type c hc).mono ?_)
    rintro node₁ c₁ ⟨w₂, hc₁, hfound⟩
    exact defaultNode_ends hfound hc₁.symm
  have hnames : Gives (properTypeNode node) fun node' => node'.traverse nameOnly = node :=
    Gives.bind (node.judge_preserves.check .type) fun node₁ hnode₁ =>
      (defaultNode_gives node₁).mono fun _ heq => heq.trans hnode₁
  refine (hchecked.and (hnames c)).mono ?_
  rintro node' c' ⟨⟨w₂, hc', hsteps, hground⟩, hname⟩
  exact ⟨w₂, hc', hsteps.toSteps, hground, hname⟩

/-! ## Types -/

theorem kindOf_yields {here : Located Attributes} (h : here.info.GroundKind) :
    Check.Yields among w (kindOf here) fun _ kind => kind.Ground := by
  obtain ⟨kind, hkind, hground⟩ := h
  intro w₁ c hlater hcalm hc
  exact kindOf_ends hkind ⟨w₁, hc.symm, hcalm.toKept.steps, hground⟩

theorem freshType_grounded {kind : Kind} (hkind : kind.Ground) :
    Check.Yields among w (liftM (Solve.freshType kind) : Check Ty) fun w' type =>
      w'.Grounded type := by
  refine Solve.Yields.lift (Solve.yields_of_ends fun w₁ hlater hcalm =>
    Ends.bind ((Solve.freshVariable_newType kind).mono ?_))
  rintro _ _ ⟨frame, rest, hframes, rfl, rfl⟩
  exact Ends.pure ⟨_, rfl, hcalm.toKept.addType hframes (w₁.live_of_ground hkind),
    Ty.fits_unsolved.2 ⟨Nat.lt_succ_self _, hkind⟩⟩

theorem typeOfTypeName_yields (name : Name) {kind : Kind} (hkind : kind.Ground) :
    Check.Yields among w (typeOfTypeName name kind) fun w' type => w'.Grounded type := by
  cases name with
  | builtIn name =>
    rw [typeOfTypeName]
    split
    · exact Yields.pure fun _ _ => Ty.fits_builtIn _
    · exact Yields.throw _
  | nameless => exact freshType_grounded hkind
  | data name => exact Yields.pure fun _ _ => Ty.fits_constructor.2 hkind
  | constructor name => exact Yields.pure fun _ _ => Ty.fits_constructor.2 hkind
  | typeVar quantifier name => exact Yields.pure fun _ _ => Ty.fits_var.2 hkind
  | _ => exact Yields.throw _

theorem typeOfVarNode_yields {node : TypeVarNode Attributes} (h : node.here.info.GroundKind) :
    Check.Yields among w (typeOfVarNode node) fun w' type => w'.Grounded type :=
  (kindOf_yields h).bind fun _ _ _ hkind => typeOfTypeName_yields _ hkind

/-- A binder is read as a named variable. -/
theorem typeOfBinder_yields {node : TypeVarNode Attributes} (h : node.here.info.GroundKind)
    (hbinds : TypeVarNode.Binds (node.traverse nameOnly)) :
    Check.Yields among w (typeOfVarNode node) fun w' type =>
      type.isVar = true ∧ w'.Grounded type := by
  obtain ⟨quantifier, name, hname⟩ := hbinds
  have hname : node.here.info.name = .typeVar quantifier name := hname
  refine (kindOf_yields h).bind fun _ kind _ hkind => ?_
  rw [hname]
  exact Yields.pure fun _ _ => ⟨rfl, Ty.fits_var.2 hkind⟩

theorem mem_mapM_id {α β : Type} {f : α → Id β} {items : List α} {item : α} (h : item ∈ items) :
    (f item).run ∈ (items.mapM f).run := by
  have hmap : items.mapM f = pure (items.map fun item => (f item).run) := List.mapM_pure
  rw [hmap]
  exact List.mem_map_of_mem h

mutual
/-- A written type whose kinds are known is read as a type whose kinds are. -/
theorem toType_yields : ∀ {w : World} (node : TypeNode Attributes),
    (∀ info ∈ node.infos, info.GroundKind) → TypeNode.Binds (node.traverse nameOnly) →
    Check.Yields among w (toType node) fun w' type => w'.Grounded type
  | w, .quantified here binders body, hinfos, hbinds => by
    rw [TypeNode.infos] at hinfos
    have hbody : ∀ info ∈ body.infos, info.GroundKind := fun info hinfo =>
      hinfos info (List.mem_cons_of_mem _ (List.mem_append_right _ hinfo))
    have hvars : ∀ var ∈ binders, var.here.info.GroundKind := fun var hvar =>
      hinfos _ (List.mem_cons_of_mem _ (List.mem_append_left _ (List.mem_map_of_mem hvar)))
    refine (Yields.mapM stays_binder fun var hvar =>
        typeOfBinder_yields (hvars var hvar) (hbinds.1 _ (mem_mapM_id hvar))).bind ?_
    intro w₁ types hlater htypes
    refine (toType_yields body hbody hbinds.2).bind fun w₂ type hlater' htype => ?_
    refine (kindOf_yields (hinfos _ List.mem_cons_self)).bind fun w₃ kind hlater'' hkind => ?_
    refine Yields.pure fun _ hlater₄ => Ty.fits_quantified.2 ⟨fun binder hbinder => ?_,
      (hlater''.trans hlater₄).grounded htype, hkind⟩
    exact ⟨(htypes binder hbinder).1,
      ((hlater'.trans hlater'').trans hlater₄).grounded (htypes binder hbinder).2⟩
  | w, .function here args result, hinfos, hbinds => by
    rw [TypeNode.infos] at hinfos
    have hargs : ∀ info ∈ TypeNode.infosList args, info.GroundKind := fun info hinfo =>
      hinfos info (List.mem_cons_of_mem _ (List.mem_append_left _ hinfo))
    have hresult : ∀ info ∈ result.infos, info.GroundKind := fun info hinfo =>
      hinfos info (List.mem_cons_of_mem _ (List.mem_append_right _ hinfo))
    refine (toTypes_yields args hargs hbinds.1).bind fun w₁ types hlater htypes => ?_
    refine (toType_yields result hresult hbinds.2).bind fun w₂ type hlater' htype => ?_
    exact Yields.pure fun w₃ hlater'' => Grounded.function
      (fun arg harg => (hlater'.trans hlater'').grounded (htypes arg harg))
      (hlater''.grounded htype)
  | w, .apply here head args, hinfos, hbinds => by
    rw [TypeNode.infos] at hinfos
    have hhead : ∀ info ∈ head.infos, info.GroundKind := fun info hinfo =>
      hinfos info (List.mem_cons_of_mem _ (List.mem_append_left _ hinfo))
    have hargs : ∀ info ∈ TypeNode.infosList args, info.GroundKind := fun info hinfo =>
      hinfos info (List.mem_cons_of_mem _ (List.mem_append_right _ hinfo))
    refine (toType_yields head hhead hbinds.1).bind fun w₁ type hlater htype => ?_
    refine (toTypes_yields args hargs hbinds.2).bind fun w₂ types hlater' htypes => ?_
    refine (kindOf_yields (hinfos _ List.mem_cons_self)).bind fun w₃ kind hlater'' hkind => ?_
    exact Yields.pure fun _ hlater₄ => Ty.fits_apply.2
      ⟨((hlater'.trans hlater'').trans hlater₄).grounded htype,
        fun arg harg => (hlater''.trans hlater₄).grounded (htypes arg harg), hkind⟩
  | w, .reference here id, hinfos, _ =>
    (kindOf_yields (hinfos _ List.mem_cons_self)).bind fun _ _ _ hkind =>
      typeOfTypeName_yields _ hkind
  | w, .var node, hinfos, _ => typeOfVarNode_yields (hinfos _ List.mem_cons_self)
theorem toTypes_yields : ∀ {w : World} (nodes : List (TypeNode Attributes)),
    (∀ info ∈ TypeNode.infosList nodes, info.GroundKind) →
    TypeNode.BindsList (TypeNode.traverseList nameOnly nodes) →
    Check.Yields among w (toTypes nodes) fun w' types => ∀ type ∈ types, w'.Grounded type
  | w, [], _, _ => Yields.pure fun _ _ _ h => (List.not_mem_nil h).elim
  | w, node :: rest, hinfos, hbinds => by
    rw [TypeNode.infosList] at hinfos
    refine (toType_yields node (fun info hinfo => hinfos info (List.mem_append_left _ hinfo))
      hbinds.1).bind fun w₁ type hlater htype => ?_
    refine (toTypes_yields rest (fun info hinfo => hinfos info (List.mem_append_right _ hinfo))
      hbinds.2).bind fun w₂ types hlater' htypes => Yields.pure fun w₃ hlater'' other hother => ?_
    rcases List.mem_cons.1 hother with rfl | hother
    · exact hlater''.grounded (hlater'.grounded htype)
    · exact hlater''.grounded (htypes other hother)
end

/-- A written type is checked and read as a type that fits. -/
theorem ascription_yields {node : TypeNode Name} (hbinds : node.Binds) :
    Check.Yields among w (ascription node) fun w' result =>
      (∀ info ∈ result.1.infos, info.GroundKind) ∧ w'.Grounded result.2 :=
  (properTypeNode_yields node).bind fun _ node' _ ⟨hground, hname⟩ =>
    (toType_yields node' hground (hname ▸ hbinds)).bind fun _ _ _ htype =>
      Yields.pure fun _ hlater => ⟨hground, hlater.grounded htype⟩

end Check

end PolyFront
