import PolyFront.Proofs.Solutions.TypeTerms

/-!
# Substitutions that mask variables

Two substitutions of one kind or type may differ in some variables only, those that the second
one masks: the first puts a variable there and the second something else.  Terms that agree
under the first substitution then agree under a masking one exactly when masked variables stand
in the same places, so that one masking substitution tells them apart if another does.
-/

namespace PolyFront

/-- Lists that agree under two maps agree under a third if their items do. -/
theorem map_eq_map_of_items {α β : Type} {f g h : α → β} {as bs : List α}
    (hitem : ∀ a ∈ as, ∀ b ∈ bs, f a = f b → g a = g b → h a = h b)
    (hf : as.map f = bs.map f) (hg : as.map g = bs.map g) : as.map h = bs.map h := by
  induction as generalizing bs with
  | nil =>
    cases bs with
    | nil => rfl
    | cons b bs => cases hf
  | cons a as ih =>
    cases bs with
    | nil => cases hf
    | cons b bs =>
      rw [List.map_cons, List.map_cons, List.cons.injEq] at hf hg ⊢
      refine ⟨hitem a List.mem_cons_self b List.mem_cons_self hf.1 hg.1, ih ?_ hf.2 hg.2⟩
      intro a' ha' b' hb'
      exact hitem a' (List.mem_cons_of_mem _ ha') b' (List.mem_cons_of_mem _ hb')

namespace Kind

/-- The second substitution masks the hidden ones of the variables it is used for. -/
structure Masks (used hidden : Nat → Prop) (f g : Nat → Kind) : Prop where
  shown : ∀ {id}, used id → ¬hidden id → g id = f id
  unknown : ∀ {id}, hidden id → (f id).isUnsolved = true
  differs : ∀ {id}, used id → hidden id → g id ≠ f id
  same : ∀ {a b}, used a → used b → hidden a → hidden b → f a = f b → g a = g b

variable {used hidden : Nat → Prop} {f g h : Nat → Kind}

theorem eq_of_bind_eq {kind : Kind} (heq : kind.bind f = kind.bind g) :
    ∀ id ∈ kind.unknowns, f id = g id := by
  induction kind with
  | type => simp
  | unsolved id => simpa using heq
  | higher args result ihArgs ihResult =>
    rw [bind_higher, bind_higher, Kind.higher.injEq, List.map_inj_left] at heq
    intro id hid
    rw [unknowns_higher, List.mem_append, List.mem_flatMap] at hid
    rcases hid with ⟨arg, harg, hid⟩ | hid
    · exact ihArgs arg harg (heq.1 arg harg) id hid
    · exact ihResult heq.2 id hid

/-- A kind that one mask leaves alone is left alone by every mask of the same variables. -/
theorem Masks.bind_eq_self (hg : Masks used hidden f g) (hh : Masks used hidden f h) {kind : Kind}
    (hkind : ∀ id ∈ kind.unknowns, used id) (heq : kind.bind f = kind.bind g) :
    kind.bind h = kind.bind f := by
  refine bind_congr fun id hid => hh.shown (hkind id hid) fun hhidden => ?_
  exact hg.differs (hkind id hid) hhidden (eq_of_bind_eq heq id hid).symm

theorem Masks.bind_unsolved_eq (hg : Masks used hidden f g) (hh : Masks used hidden f h) {id : Nat}
    {kind : Kind} (hid : used id) (hkind : ∀ id ∈ kind.unknowns, used id)
    (hf : f id = kind.bind f) (hmasked : g id = kind.bind g) : h id = kind.bind h := by
  by_cases hhidden : hidden id
  · have hunknown := hg.unknown hhidden
    rw [hf] at hunknown
    cases kind with
    | type =>
      rw [bind_type] at hunknown
      cases hunknown
    | higher args result =>
      rw [bind_higher] at hunknown
      cases hunknown
    | unsolved other =>
      rw [bind_unsolved] at hf hmasked ⊢
      have hother : used other := hkind other (by simp)
      refine hh.same hid hother hhidden ?_ hf
      refine Classical.not_not.1 fun hshown => ?_
      rw [hg.shown hother hshown, ← hf] at hmasked
      exact hg.differs hid hhidden hmasked
  · rw [hg.shown hid hhidden, hf] at hmasked
    rw [hh.shown hid hhidden, hf, hg.bind_eq_self hh hkind hmasked]

/-- Kinds that agree before and after one mask agree after every mask of the same variables. -/
theorem Masks.bind_eq_bind (hg : Masks used hidden f g) (hh : Masks used hidden f h) {a b : Kind}
    (ha : ∀ id ∈ a.unknowns, used id) (hb : ∀ id ∈ b.unknowns, used id)
    (hf : a.bind f = b.bind f) (hmasked : a.bind g = b.bind g) : a.bind h = b.bind h := by
  induction a generalizing b with
  | unsolved id =>
    rw [bind_unsolved] at hf hmasked ⊢
    exact hg.bind_unsolved_eq hh (ha id (by simp)) hb hf hmasked
  | type =>
    cases b with
    | type => rfl
    | unsolved other =>
      rw [bind_unsolved] at hf hmasked ⊢
      exact (hg.bind_unsolved_eq hh (hb other (by simp)) ha hf.symm hmasked.symm).symm
    | higher args result => simp at hf
  | higher args result ihArgs ihResult =>
    cases b with
    | type => simp at hf
    | unsolved other =>
      rw [bind_unsolved] at hf hmasked ⊢
      exact (hg.bind_unsolved_eq hh (hb other (by simp)) ha hf.symm hmasked.symm).symm
    | higher args' result' =>
      simp only [unknowns_higher, List.mem_append, List.mem_flatMap] at ha hb
      rw [bind_higher, bind_higher, Kind.higher.injEq] at hf hmasked ⊢
      refine ⟨map_eq_map_of_items ?_ hf.1 hmasked.1, ?_⟩
      · intro arg harg arg' harg' hf hmasked
        exact ihArgs arg harg (fun id hid => ha id (.inl ⟨arg, harg, hid⟩))
          (fun id hid => hb id (.inl ⟨arg', harg', hid⟩)) hf hmasked
      · exact ihResult (fun id hid => ha id (.inr hid)) (fun id hid => hb id (.inr hid)) hf.2
          hmasked.2

end Kind

namespace Ty

/-- The second substitution masks the hidden ones of the variables it is used for. -/
structure Masks (used : Nat → Kind → Prop) (hidden : Nat → Kind → Prop) (f g : Nat → Kind → Ty) :
    Prop where
  shown : ∀ {id kind}, used id kind → ¬hidden id kind → g id kind = f id kind
  unknown : ∀ {id kind}, hidden id kind → shape.unknown (f id kind) = true
  differs : ∀ {id kind}, used id kind → hidden id kind → g id kind ≠ f id kind
  same : ∀ {a b kind kind'}, used a kind → used b kind' → hidden a kind → hidden b kind' →
    f a kind = f b kind' → g a kind = g b kind'

/-- A third change of kinds tells apart no more than two others do. -/
structure KindsFollow (used : Kind → Prop) (f g h : Kind → Kind) : Prop where
  agree : ∀ {a b}, used a → used b → f a = f b → g a = g b → h a = h b
  self : ∀ {kind}, used kind → f kind = g kind → h kind = f kind

/-- Of two masks of kinds, the second tells apart no more than the first does. -/
theorem kindsFollow {used hidden : Nat → Prop} {f g h : Nat → Kind}
    (hg : Kind.Masks used hidden f g) (hh : Kind.Masks used hidden f h) :
    KindsFollow (fun kind => ∀ id ∈ kind.unknowns, used id) (Kind.bind f) (Kind.bind g)
      (Kind.bind h) where
  agree ha hb hf hmasked := hg.bind_eq_bind hh ha hb hf hmasked
  self hkind heq := hg.bind_eq_self hh hkind heq

variable {used hidden : Nat → Kind → Prop} {usedKind : Kind → Prop} {f g h : Nat → Kind → Ty}
  {fk gk hk : Kind → Kind}

theorem eq_of_bind_eq {type : Ty} (heq : type.bind f fk = type.bind g gk) :
    (∀ id kind, (id, kind) ∈ type.mentions → f id kind = g id kind) ∧
      ∀ kind ∈ type.carried, fk kind = gk kind := by
  induction type with
  | var quantifier name kind => simpa [mentions, carried] using heq
  | unsolved id kind =>
    refine ⟨fun other otherKind hmem => ?_, by simp [carried]⟩
    obtain ⟨rfl, rfl⟩ := Prod.mk.inj (List.mem_singleton.1 (by simpa [mentions] using hmem))
    simpa using heq
  | constructor name kind => simpa [mentions, carried] using heq
  | builtIn type => simp [mentions, carried]
  | apply head args kind ihHead ihArgs =>
    rw [bind_apply, bind_apply, Ty.apply.injEq, List.map_inj_left] at heq
    obtain ⟨hhead, hargs, hkind⟩ := heq
    obtain ⟨hheadVars, hheadKinds⟩ := ihHead hhead
    refine ⟨fun id k hmem => ?_, fun k hmem => ?_⟩
    · rw [mentions, List.mem_append, List.mem_flatMap] at hmem
      rcases hmem with hmem | ⟨arg, harg, hmem⟩
      · exact hheadVars id k hmem
      · exact (ihArgs arg harg (hargs arg harg)).1 id k hmem
    · rw [carried, List.mem_cons, List.mem_append, List.mem_flatMap] at hmem
      rcases hmem with rfl | hmem | ⟨arg, harg, hmem⟩
      · exact hkind
      · exact hheadKinds k hmem
      · exact (ihArgs arg harg (hargs arg harg)).2 k hmem
  | quantified binders body kind ihBinders ihBody =>
    rw [bind_quantified, bind_quantified, Ty.quantified.injEq, List.map_inj_left] at heq
    obtain ⟨hbinders, hbody, hkind⟩ := heq
    obtain ⟨hbodyVars, hbodyKinds⟩ := ihBody hbody
    refine ⟨fun id k hmem => ?_, fun k hmem => ?_⟩
    · rw [mentions, List.mem_append, List.mem_flatMap] at hmem
      rcases hmem with ⟨binder, hbinder, hmem⟩ | hmem
      · exact (ihBinders binder hbinder (hbinders binder hbinder)).1 id k hmem
      · exact hbodyVars id k hmem
    · rw [carried, List.mem_cons, List.mem_append, List.mem_flatMap] at hmem
      rcases hmem with rfl | ⟨binder, hbinder, hmem⟩ | hmem
      · exact hkind
      · exact (ihBinders binder hbinder (hbinders binder hbinder)).2 k hmem
      · exact hbodyKinds k hmem

/-- The variables and kinds of a type are among those that a substitution is used for. -/
structure Uses (used : Nat → Kind → Prop) (usedKind : Kind → Prop) (type : Ty) : Prop where
  mentioned : ∀ id kind, (id, kind) ∈ type.mentions → used id kind
  kinds : ∀ kind ∈ type.carried, usedKind kind

theorem uses_apply {head : Ty} {args : List Ty} {kind : Kind} :
    Uses used usedKind (.apply head args kind) ↔
      head.Uses used usedKind ∧ (∀ arg ∈ args, arg.Uses used usedKind) ∧ usedKind kind := by
  constructor
  · rintro ⟨hmentioned, hkinds⟩
    simp only [mentions, carried, List.mem_cons, List.mem_append, List.mem_flatMap]
        at hmentioned hkinds
    refine ⟨⟨fun id k hmem => hmentioned id k (.inl hmem), fun k hmem =>
        hkinds k (.inr (.inl hmem))⟩,
      fun arg harg => ⟨fun id k hmem => hmentioned id k (.inr ⟨arg, harg, hmem⟩), fun k hmem =>
        hkinds k (.inr (.inr ⟨arg, harg, hmem⟩))⟩, hkinds kind (.inl rfl)⟩
  · rintro ⟨hhead, hargs, hkind⟩
    refine ⟨fun id k hmem => ?_, fun k hmem => ?_⟩
    · rw [mentions, List.mem_append, List.mem_flatMap] at hmem
      rcases hmem with hmem | ⟨arg, harg, hmem⟩
      · exact hhead.mentioned id k hmem
      · exact (hargs arg harg).mentioned id k hmem
    · rw [carried, List.mem_cons, List.mem_append, List.mem_flatMap] at hmem
      rcases hmem with rfl | hmem | ⟨arg, harg, hmem⟩
      · exact hkind
      · exact hhead.kinds k hmem
      · exact (hargs arg harg).kinds k hmem

theorem uses_quantified {binders : List Ty} {body : Ty} {kind : Kind} :
    Uses used usedKind (.quantified binders body kind) ↔
      (∀ binder ∈ binders, binder.Uses used usedKind) ∧ body.Uses used usedKind ∧
          usedKind kind := by
  constructor
  · rintro ⟨hmentioned, hkinds⟩
    simp only [mentions, carried, List.mem_cons, List.mem_append, List.mem_flatMap]
        at hmentioned hkinds
    refine ⟨fun binder hbinder => ⟨fun id k hmem => hmentioned id k (.inl ⟨binder, hbinder, hmem⟩),
        fun k hmem => hkinds k (.inr (.inl ⟨binder, hbinder, hmem⟩))⟩,
      ⟨fun id k hmem => hmentioned id k (.inr hmem), fun k hmem => hkinds k (.inr (.inr hmem))⟩,
      hkinds kind (.inl rfl)⟩
  · rintro ⟨hbinders, hbody, hkind⟩
    refine ⟨fun id k hmem => ?_, fun k hmem => ?_⟩
    · rw [mentions, List.mem_append, List.mem_flatMap] at hmem
      rcases hmem with ⟨binder, hbinder, hmem⟩ | hmem
      · exact (hbinders binder hbinder).mentioned id k hmem
      · exact hbody.mentioned id k hmem
    · rw [carried, List.mem_cons, List.mem_append, List.mem_flatMap] at hmem
      rcases hmem with rfl | ⟨binder, hbinder, hmem⟩ | hmem
      · exact hkind
      · exact (hbinders binder hbinder).kinds k hmem
      · exact hbody.kinds k hmem

/-- A type that one mask leaves alone is left alone by every mask of the same variables. -/
theorem Masks.bind_eq_self (hg : Masks used hidden f g) (hh : Masks used hidden f h)
    (hkinds : KindsFollow usedKind fk gk hk) {type : Ty} (htype : type.Uses used usedKind)
    (heq : type.bind f fk = type.bind g gk) : type.bind h hk = type.bind f fk := by
  obtain ⟨hmentioned, hcarried⟩ := eq_of_bind_eq heq
  refine bind_congr (fun id kind hmem => ?_) fun kind hmem =>
    hkinds.self (htype.kinds kind hmem) (hcarried kind hmem)
  have hused := htype.mentioned id kind hmem
  refine hh.shown hused fun hhidden => ?_
  exact hg.differs hused hhidden (hmentioned id kind hmem).symm

theorem Masks.bind_unsolved_eq (hg : Masks used hidden f g) (hh : Masks used hidden f h)
    (hkinds : KindsFollow usedKind fk gk hk) {id : Nat} {kind : Kind} {type : Ty}
    (hid : used id kind) (htype : type.Uses used usedKind) (hf : f id kind = type.bind f fk)
    (hmasked : g id kind = type.bind g gk) : h id kind = type.bind h hk := by
  by_cases hhidden : hidden id kind
  · have hunknown := hg.unknown hhidden
    rw [hf] at hunknown
    have htypeUnknown : shape.unknown type = true := by
      rw [← Bool.not_eq_false]
      intro hsolved
      rw [unknown_bind hsolved] at hunknown
      cases hunknown
    obtain ⟨other, otherKind, rfl⟩ := unknown_iff.1 htypeUnknown
    rw [bind_unsolved] at hf hmasked ⊢
    have hother : used other otherKind := htype.mentioned other otherKind (by simp [mentions])
    refine hh.same hid hother hhidden ?_ hf
    refine Classical.not_not.1 fun hshown => ?_
    rw [hg.shown hother hshown, ← hf] at hmasked
    exact hg.differs hid hhidden hmasked
  · rw [hg.shown hid hhidden, hf] at hmasked
    rw [hh.shown hid hhidden, hf, hg.bind_eq_self hh hkinds htype hmasked]

/-- Types that agree before and after one mask agree after every mask of the same variables. -/
theorem Masks.bind_eq_bind (hg : Masks used hidden f g) (hh : Masks used hidden f h)
    (hkinds : KindsFollow usedKind fk gk hk) {a b : Ty} (ha : a.Uses used usedKind)
    (hb : b.Uses used usedKind) (hf : a.bind f fk = b.bind f fk)
    (hmasked : a.bind g gk = b.bind g gk) : a.bind h hk = b.bind h hk := by
  -- A variable on either side is dealt with apart.
  have hleft : ∀ {a b : Ty}, a.Uses used usedKind → b.Uses used usedKind →
      a.bind f fk = b.bind f fk → a.bind g gk = b.bind g gk → shape.unknown a = true →
      a.bind h hk = b.bind h hk := by
    intro a b ha hb hf hmasked hunknown
    obtain ⟨id, kind, rfl⟩ := unknown_iff.1 hunknown
    rw [bind_unsolved] at hf hmasked ⊢
    exact hg.bind_unsolved_eq hh hkinds (ha.mentioned id kind (by simp [mentions])) hb hf hmasked
  induction a generalizing b with
  | unsolved id kind => exact hleft ha hb hf hmasked rfl
  | builtIn type =>
    cases b with
    | unsolved id kind => exact (hleft hb ha hf.symm hmasked.symm rfl).symm
    | builtIn type' => simpa using hf
    | _ => simp at hf
  | var quantifier name kind =>
    cases b with
    | unsolved id kind => exact (hleft hb ha hf.symm hmasked.symm rfl).symm
    | var quantifier' name' kind' =>
      rw [bind_var, bind_var, Ty.var.injEq] at hf hmasked ⊢
      refine ⟨hf.1, hf.2.1, hkinds.agree ?_ ?_ hf.2.2 hmasked.2.2⟩
      · exact ha.kinds kind (by simp [carried])
      · exact hb.kinds kind' (by simp [carried])
    | _ => simp at hf
  | constructor name kind =>
    cases b with
    | unsolved id kind => exact (hleft hb ha hf.symm hmasked.symm rfl).symm
    | constructor name' kind' =>
      rw [bind_constructor, bind_constructor, Ty.constructor.injEq] at hf hmasked ⊢
      refine ⟨hf.1, hkinds.agree ?_ ?_ hf.2 hmasked.2⟩
      · exact ha.kinds kind (by simp [carried])
      · exact hb.kinds kind' (by simp [carried])
    | _ => simp at hf
  | apply head args kind ihHead ihArgs =>
    cases b with
    | unsolved id kind => exact (hleft hb ha hf.symm hmasked.symm rfl).symm
    | apply head' args' kind' =>
      obtain ⟨hhead, hargs, hkind⟩ := uses_apply.1 ha
      obtain ⟨hhead', hargs', hkind'⟩ := uses_apply.1 hb
      rw [bind_apply, bind_apply, Ty.apply.injEq] at hf hmasked ⊢
      refine ⟨ihHead hhead hhead' hf.1 hmasked.1, ?_,
        hkinds.agree hkind hkind' hf.2.2 hmasked.2.2⟩
      refine map_eq_map_of_items ?_ hf.2.1 hmasked.2.1
      intro arg harg arg' harg' hf hmasked
      exact ihArgs arg harg (hargs arg harg) (hargs' arg' harg') hf hmasked
    | _ => simp at hf
  | quantified binders body kind ihBinders ihBody =>
    cases b with
    | unsolved id kind => exact (hleft hb ha hf.symm hmasked.symm rfl).symm
    | quantified binders' body' kind' =>
      obtain ⟨hbinders, hbody, hkind⟩ := uses_quantified.1 ha
      obtain ⟨hbinders', hbody', hkind'⟩ := uses_quantified.1 hb
      rw [bind_quantified, bind_quantified, Ty.quantified.injEq] at hf hmasked ⊢
      refine ⟨?_, ihBody hbody hbody' hf.2.1 hmasked.2.1,
        hkinds.agree hkind hkind' hf.2.2 hmasked.2.2⟩
      refine map_eq_map_of_items ?_ hf.1 hmasked.1
      intro binder hbinder binder' hbinder' hf hmasked
      exact ihBinders binder hbinder (hbinders binder hbinder) (hbinders' binder' hbinder') hf
        hmasked
    | _ => simp at hf

end Ty

end PolyFront
