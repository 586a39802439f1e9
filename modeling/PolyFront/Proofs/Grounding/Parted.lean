import PolyFront.Proofs.Grounding.Defaulted

/-!
# Parameters of unknown kinds

While a function is checked, its type parameters may have kinds that are unknown, and so may the
types that are checked.  Such a kind is a variable that nothing else mentions: no solution does, and
no variable but a parameter is in one class with it.  When the kinds of a written type are found,
parameters that it mentions come to stand in solutions, but only for variables that the kinds which
were found show, and those are defaulted in the end.
-/

namespace PolyFront

namespace Kind

variable {params : Nat → Prop} {shown shown' : List Kind} {kinds kinds' : Partition Kind}
  {kind : Kind} {v created : Nat}

/-- A parameter stands for the variable. -/
def Stands (params : Nat → Prop) (kinds : Partition Kind) (v : Nat) : Prop :=
  ∃ param, params param ∧ substitute kinds (.unsolved param) = .unsolved v

/-- If a parameter stands for the variable, then a kind that is shown mentions it. -/
def Revealed (params : Nat → Prop) (shown : List Kind) (kinds : Partition Kind) (v : Nat) : Prop :=
  Stands params kinds v → ∃ other ∈ shown, v ∈ (other.substitute kinds).unknowns

/-- No parameter stands for a variable of the kind, unless it is shown. -/
def Free (params : Nat → Prop) (shown : List Kind) (kinds : Partition Kind) (kind : Kind) : Prop :=
  ∀ v ∈ (kind.substitute kinds).unknowns, Revealed params shown kinds v

/-- All solutions are free, and so are all variables that are no parameters. -/
structure Parted (params : Nat → Prop) (shown : List Kind) (kinds : Partition Kind) : Prop where
  classes : ∀ c ∈ kinds.classes, shape.unknown c.representative = false →
    Free params shown kinds c.representative
  others : ∀ id, ¬params id → Free params shown kinds (.unsolved id)

/-! ## Free kinds -/

theorem free_of_mem (hkind : kind ∈ shown) : Free params shown kinds kind :=
  fun _ hv _ => ⟨kind, hkind, hv⟩

theorem free_of_unknowns {other : Kind} (h : Free params shown kinds other)
    (hsub : kind.unknowns ⊆ other.unknowns) : Free params shown kinds kind := by
  intro v hv
  obtain ⟨id, hid, hv⟩ := mem_unknowns_substitute.1 hv
  exact h v (mem_unknowns_substitute.2 ⟨id, hsub hid, hv⟩)

theorem free_iff_forall : Free params shown kinds kind ↔
    ∀ id ∈ kind.unknowns, Free params shown kinds (.unsolved id) := by
  refine ⟨fun h id hid => free_of_unknowns h (by simpa using hid), fun h v hv => ?_⟩
  obtain ⟨id, hid, hv⟩ := mem_unknowns_substitute.1 hv
  exact h id hid v hv

theorem free_higher {args : List Kind} {result : Kind} :
    Free params shown kinds (.higher args result) ↔
      (∀ arg ∈ args, Free params shown kinds arg) ∧ Free params shown kinds result := by
  refine ⟨fun h => ⟨fun arg harg => free_of_unknowns h ?_, free_of_unknowns h ?_⟩, fun h => ?_⟩
  · intro id hid
    rw [unknowns_higher]
    exact List.mem_append_left _ (List.mem_flatMap.2 ⟨arg, harg, hid⟩)
  · intro id hid
    rw [unknowns_higher]
    exact List.mem_append_right _ hid
  · refine free_iff_forall.2 fun id hid => ?_
    rw [unknowns_higher, List.mem_append, List.mem_flatMap] at hid
    rcases hid with ⟨arg, harg, hid⟩ | hid
    · exact free_iff_forall.1 (h.1 arg harg) id hid
    · exact free_iff_forall.1 h.2 id hid

theorem free_type : Free params shown kinds .type := by
  intro v hv
  obtain ⟨id, hid, -⟩ := mem_unknowns_substitute.1 hv
  simp at hid

/-- A kind is as free as its substitution. -/
theorem free_substitute (hkinds : WellFounded (Within kinds)) :
    Free params shown kinds (kind.substitute kinds) ↔ Free params shown kinds kind := by
  rw [Free, substitute_substitute hkinds, Free]

/-- A kind that is shown may be replaced by its substitution, and left out if that is ground. -/
theorem Free.replace (hkinds : WellFounded (Within kinds)) (h : Free params shown kinds kind)
    (hshown : ∀ other ∈ shown, other ∈ shown' ∨ other.substitute kinds ∈ shown' ∨
      (other.substitute kinds).Ground) : Free params shown' kinds kind := by
  intro v hv hstands
  obtain ⟨other, hother, hmem⟩ := h v hv hstands
  rcases hshown other hother with hmem' | hmem' | hground
  · exact ⟨other, hmem', hmem⟩
  · exact ⟨_, hmem', by rwa [substitute_substitute hkinds]⟩
  · rw [hground] at hmem
    exact (List.not_mem_nil hmem).elim

theorem Parted.replace (hkinds : WellFounded (Within kinds)) (h : Parted params shown kinds)
    (hshown : ∀ other ∈ shown, other ∈ shown' ∨ other.substitute kinds ∈ shown' ∨
      (other.substitute kinds).Ground) : Parted params shown' kinds :=
  ⟨fun c hc hsolid => (h.classes c hc hsolid).replace hkinds hshown,
    fun id hid => (h.others id hid).replace hkinds hshown⟩

/-! ## Later solutions -/

/-- Free kinds stay free when variables are replaced in all substitutions by what is as revealed as
they are. -/
theorem Free.bind {f : Nat → Kind}
    (hbind : ∀ kind : Kind, kind.substitute kinds' = (kind.substitute kinds).bind f)
    (hafter : ∀ v w, w ∈ (f v).unknowns → Revealed params shown kinds v →
      Revealed params shown kinds w)
    (hbefore : ∀ v w, f v = .unsolved w → Revealed params shown kinds w →
      Revealed params shown kinds v) (h : Free params shown kinds kind) :
    Free params shown kinds' kind := by
  rintro w hw ⟨param, hparam, hstands⟩
  rw [hbind] at hw hstands
  obtain ⟨v, hv, hw⟩ := mem_unknowns_bind.1 hw
  -- The parameter stood for a variable before.
  have hold : ∃ t, substitute kinds (.unsolved param) = .unsolved t ∧ f t = .unsolved w := by
    cases hcase : substitute kinds (.unsolved param) with
    | unsolved t => exact ⟨t, rfl, by rwa [hcase, bind_unsolved] at hstands⟩
    | type => rw [hcase, bind_type] at hstands; cases hstands
    | higher args result => rw [hcase, bind_higher] at hstands; cases hstands
  obtain ⟨t, ht, hft⟩ := hold
  obtain ⟨other, hother, hmem⟩ := hbefore t w hft (hafter v w hw (h v hv)) ⟨param, hparam, ht⟩
  refine ⟨other, hother, ?_⟩
  rw [hbind]
  exact mem_unknowns_bind.2 ⟨t, hmem, by simp [hft]⟩

/-- One variable is replaced by a kind whose variables are revealed, or by a variable that is as
revealed as it is. -/
theorem Free.single {loser : Nat} {winner : Kind}
    (hsingle : ∀ kind : Kind,
      kind.substitute kinds' = (kind.substitute kinds).bind (single loser winner))
    (hwinner : (shape.unknown winner = false ∧
        ∀ v ∈ winner.unknowns, Revealed params shown kinds v) ∨
      ∃ v, winner = .unsolved v ∧
        (Revealed params shown kinds loser ↔ Revealed params shown kinds v))
    (h : Free params shown kinds kind) : Free params shown kinds' kind := by
  refine h.bind hsingle (fun v w hw hv => ?_) fun v w hw hrevealed => ?_
  · by_cases hne : v = loser
    · rw [hne, single_self] at hw
      rcases hwinner with ⟨-, hall⟩ | ⟨u, rfl, hiff⟩
      · exact hall w hw
      · obtain rfl : w = u := by simpa using hw
        exact hiff.1 (hne ▸ hv)
    · rw [single_of_ne hne] at hw
      obtain rfl : w = v := by simpa using hw
      exact hv
  · by_cases hne : v = loser
    · rw [hne, single_self] at hw
      rcases hwinner with ⟨hsolid, -⟩ | ⟨u, rfl, hiff⟩
      · rw [hw] at hsolid
        cases hsolid
      · cases hw
        rw [hne]
        exact hiff.2 hrevealed
    · rw [single_of_ne hne, unsolved.injEq] at hw
      rwa [hw]

/-- Some variables are read as `*`. -/
theorem Free.starring {ids : List Nat}
    (hstars : ∀ kind : Kind, kind.substitute kinds' = (kind.substitute kinds).bind (starring ids))
    (h : Free params shown kinds kind) : Free params shown kinds' kind := by
  have heq : ∀ v w, w ∈ (Kind.starring ids v).unknowns → w = v := by
    intro v w hw
    unfold Kind.starring at hw
    split at hw
    · simp at hw
    · simpa using hw
  refine h.bind hstars (fun v w hw hv => ?_) fun v w hw hrevealed => ?_
  · rw [heq v w hw]
    exact hv
  · rw [← heq v w (by simp [hw])]
    exact hrevealed

theorem Free.congr (hsame : ∀ kind : Kind, kind.substitute kinds' = kind.substitute kinds) :
    Free params shown kinds' kind ↔ Free params shown kinds kind := by
  simp only [Free, Revealed, Stands, hsame]

theorem Parted.congr (h : Parted params shown kinds)
    (hsame : ∀ kind : Kind, kind.substitute kinds' = kind.substitute kinds)
    (hclasses : ∀ c ∈ kinds'.classes, shape.unknown c.representative = false →
      ∃ d ∈ kinds.classes, shape.unknown d.representative = false ∧
        c.representative.substitute kinds = d.representative.substitute kinds) :
    Parted params shown kinds' where
  classes c hc hsolid := by
    obtain ⟨d, hd, hsolid', heq⟩ := hclasses c hc hsolid
    have hfree := h.classes d hd hsolid'
    rw [Free.congr hsame, Free, heq]
    exact hfree
  others id hid := (Free.congr hsame).2 (h.others id hid)

/-! ## Merging -/

/-- The representatives of a partition in which two classes were merged. -/
theorem mem_classes_union {left right : Kind} {pick : Kind → Kind → Kind}
    (hdistinct : Distinct kinds.elements) (hpick : ∀ a b, pick a b = a ∨ pick a b = b)
    {c : Class Kind} (hc : c ∈ (kinds.union left right pick).classes) :
    (∃ d ∈ kinds.classes, c.representative = d.representative) ∨ c.representative = left ∨
      c.representative = right := by
  have hprepared : ∀ {d : Class Kind}, d ∈ (kinds.prepared left right).classes →
      (∃ e ∈ kinds.classes, d.representative = e.representative) ∨ d.representative = left ∨
        d.representative = right := fun hd =>
    (Partition.mem_classes_prepared hd).imp_left fun hd => ⟨_, hd, rfl⟩
  obtain ⟨⟨l, hl⟩, r, hr⟩ := Partition.exists_classOf?_prepared kinds left right
  rcases Partition.union_cases pick hdistinct hl hr with
    ⟨-, hunion⟩ | ⟨-, others, hunion, -, hothers⟩
  · rw [hunion] at hc
    exact hprepared hc
  · rw [hunion] at hc
    rcases List.mem_append.1 hc with hc | hc
    · exact hprepared ((hothers c).1 hc).1
    · rw [List.mem_singleton.1 hc, Class.merged]
      dsimp only
      rcases hpick l.representative r.representative with heq | heq
      · rw [heq]
        exact hprepared (Partition.mem_of_classOf? hl).1
      · rw [heq]
        exact hprepared (Partition.mem_of_classOf? hr).1

theorem Parted.union {left right : Kind} {pick : Kind → Kind → Kind}
    (h : Parted params shown kinds) (hdistinct : Distinct kinds.elements)
    (hpick : ∀ a b, pick a b = a ∨ pick a b = b) (hleft : shape.unknown left = true)
    (hright : shape.unknown right = true ∨ Free params shown kinds right)
    (hfree : ∀ kind, Free params shown kinds kind →
      Free params shown (kinds.union left right pick) kind) :
    Parted params shown (kinds.union left right pick) where
  classes c hc hsolid := by
    rcases mem_classes_union hdistinct hpick hc with ⟨d, hd, heq⟩ | heq | heq
    · rw [heq] at hsolid ⊢
      exact hfree _ (h.classes d hd hsolid)
    · rw [heq, hleft] at hsolid
      cases hsolid
    · rw [heq] at hsolid ⊢
      rcases hright with hunknown | hright
      · rw [hunknown] at hsolid
        cases hsolid
      · exact hfree _ hright
  others id hid := hfree _ (h.others id hid)

/-! ## Closing and adding -/

/-- A variable that represents its class stands for itself. -/
theorem substitute_representative (h : Acyclic created kinds) {c : Class Kind}
    (hc : c ∈ kinds.classes) (hunknown : shape.unknown c.representative = true) :
    c.representative.substitute kinds = c.representative := by
  have hhas := (h.sound.ofUnknown c hc hunknown).2
  have hfind := Partition.find_of_classOf? (Partition.classOf?_eq_some h.sound.distinct hc hhas)
  obtain ⟨id, hid⟩ := unknown_iff.1 hunknown
  rw [hid] at hfind ⊢
  exact (final_iff_substitute h.wellFounded).1 (final_iff.2 hfind)

theorem Parted.closed (h : Parted params shown kinds) (hkinds : Acyclic created kinds) :
    Parted params shown (Kind.closed kinds) := by
  refine h.congr (substitute_closed hkinds.wellFounded) fun c hc hsolid => ?_
  obtain ⟨d, hd, rfl⟩ := List.mem_map.1 hc
  refine ⟨d, hd, ?_, substitute_substitute hkinds.wellFounded _⟩
  rw [← Bool.not_eq_true]
  intro hunknown
  dsimp only at hsolid
  rw [substitute_representative hkinds hd hunknown, hunknown] at hsolid
  cases hsolid

theorem substitute_add (h : Acyclic created kinds) {id : Nat} (hid : id < created) (kind : Kind) :
    kind.substitute (kinds.add (.unsolved id)) = kind.substitute kinds :=
  substitute_of_find_eq h.wellFounded (h.add (proper_unsolved.2 hid)).wellFounded
    (fun other => eq_of_beq (Partition.find_add_beq kinds (.unsolved id) (.unsolved other))) kind

theorem Parted.add (h : Parted params shown kinds) (hkinds : Acyclic created kinds) {id : Nat}
    (hid : id < created) : Parted params shown (kinds.add (.unsolved id)) := by
  refine h.congr (substitute_add hkinds hid) fun c hc hsolid => ?_
  rcases Partition.mem_classes_add hc with hc | rfl
  · exact ⟨c, hc, hsolid, rfl⟩
  · cases hsolid

/-! ## Dropping -/

section Drop

variable {dropped : List Nat}

/-- The kind mentions dropped variables only where they stand for themselves. -/
def Sturdy (dropped : List Nat) (kinds : Partition Kind) (kind : Kind) : Prop :=
  ∀ id ∈ kind.unknowns, id ∉ dropped ∨ kinds.Final (.unsolved id)

/-- Variables are dropped that are no parameters and that no parameter stands for. -/
structure Drop (params : Nat → Prop) (created : Nat) (dropped : List Nat)
    (kinds kinds' : Partition Kind) : Prop where
  before : Acyclic created kinds
  after : Acyclic created kinds'
  drops : Partition.Drops shape (dropped.map .unsolved) (Kind.closed kinds) kinds'
  gone : ∀ id ∈ dropped, kinds'.Final (.unsolved id)
  keeps : ∀ param, params param → param ∉ dropped
  stands : ∀ v, Stands params kinds v → v ∉ dropped

theorem Acyclic.removeAll {pick : Kind → Kind → Kind} (hpick : shape.Picks pick)
    (dropped : List Nat) : ∀ {kinds : Partition Kind}, Acyclic created kinds →
    Acyclic created (kinds.removeAll pick (dropped.map .unsolved)) := by
  induction dropped with
  | nil => exact fun h => h
  | cons id rest ih => exact fun h => ih (h.remove hpick)

theorem Acyclic.drop (h : Acyclic created kinds) (dropped : List Nat) {pick : Kind → Kind → Kind}
    (hpick : shape.Picks pick) (hparams : ∀ param, params param → param ∉ dropped)
    (hstands : ∀ v, Stands params kinds v → v ∉ dropped) :
    Drop params created dropped kinds
      ((Kind.closed kinds).removeAll pick (dropped.map .unsolved)) where
  before := h
  after := h.closed.removeAll hpick dropped
  drops := h.closed.sound.drops hpick fun kind hkind => by
    obtain ⟨id, -, rfl⟩ := List.mem_map.1 hkind
    rfl
  gone id hid := final_iff.2 (Partition.find_of_absent (Partition.classOf?_removeAll
    h.closed.sound.distinct (.inl ⟨_, List.mem_map_of_mem hid, BEq.refl _⟩)))
  keeps := hparams
  stands := hstands

namespace Drop

variable (h : Drop params created dropped kinds kinds')

include h

/-- What a parameter stands for once variables are dropped, it stood for before. -/
theorem stands_of (hv : Stands params kinds' v) : Stands params kinds v := by
  obtain ⟨param, hparam, heq⟩ := hv
  rw [substitute_dropped h.before h.after h.drops (h.keeps param hparam)] at heq
  by_cases hrep : Partition.Among (dropped.map .unsolved)
      ((Kind.closed kinds).find (.unsolved param))
  · rw [find_closed h.before.wellFounded, among_iff_isDropped] at hrep
    obtain ⟨id, hid, hself⟩ := hrep
    exact absurd hid (h.stands id ⟨param, hparam, hself⟩)
  · rw [h.drops.stays (not_among_unsolved (h.keeps param hparam)) hrep,
      find_closed h.before.wellFounded] at heq
    exact ⟨param, hparam, heq⟩

theorem substitute_final {u : Nat} (hfinal : kinds.Final (.unsolved u)) :
    substitute kinds' (.unsolved u) = .unsolved u :=
  (final_iff_substitute h.after.wellFounded).1
    (h.drops.final (final_closed h.before.wellFounded hfinal))

/-- A variable that a parameter stands for is mentioned by what stands for another variable if it
was mentioned before. -/
theorem mem_substitute_iff {id : Nat} (hv : Stands params kinds v) (hid : id ∉ dropped) :
    v ∈ (substitute kinds' (.unsolved id)).unknowns ↔
      v ∈ (substitute kinds (.unsolved id)).unknowns := by
  have hfinal : kinds.Final (.unsolved v) := by
    obtain ⟨param, -, heq⟩ := hv
    exact final_of_mem_substitute h.before.wellFounded
      (show v ∈ (substitute kinds (.unsolved param)).unknowns by simp [heq])
  rw [substitute_dropped h.before h.after h.drops hid]
  by_cases hrep : Partition.Among (dropped.map .unsolved) ((Kind.closed kinds).find (.unsolved id))
  · obtain ⟨hunknown, -, hsame⟩ := h.drops.heir (not_among_unsolved hid) hrep
    obtain ⟨heir, hheir⟩ := unknown_iff.1 hunknown
    rw [hheir, find_closed h.before.wellFounded, find_closed h.before.wellFounded] at hsame
    rw [find_closed h.before.wellFounded, among_iff_isDropped] at hrep
    obtain ⟨other, hother, hself⟩ := hrep
    have hne : v ≠ other := fun heq => h.stands v hv (heq ▸ hother)
    rw [hheir, hself]
    simp only [unknowns_unsolved, List.mem_singleton, hne, iff_false]
    rintro rfl
    rw [(final_iff_substitute h.before.wellFounded).1 hfinal, hself] at hsame
    exact hne (unsolved.inj (eq_of_beq hsame))
  · rw [h.drops.stays (not_among_unsolved hid) hrep, find_closed h.before.wellFounded]

/-- What is shown is shown still. -/
theorem revealed (hshown : ∀ other ∈ shown, Sturdy dropped kinds other)
    (hv : Stands params kinds v) (hrevealed : Revealed params shown kinds v) :
    ∃ other ∈ shown, v ∈ (other.substitute kinds').unknowns := by
  obtain ⟨other, hother, hmem⟩ := hrevealed hv
  refine ⟨other, hother, mem_unknowns_substitute.2 ?_⟩
  obtain ⟨id, hid, hmem⟩ := mem_unknowns_substitute.1 hmem
  refine ⟨id, hid, ?_⟩
  rcases hshown other hother id hid with hkept | hfinal
  · exact (h.mem_substitute_iff hv hkept).2 hmem
  · rw [h.substitute_final hfinal]
    rwa [(final_iff_substitute h.before.wellFounded).1 hfinal] at hmem

/-- Dropping variables leaves kinds free: what is dropped stands for itself afterwards. -/
theorem free (hfree : Free params shown kinds kind)
    (hshown : ∀ other ∈ shown, Sturdy dropped kinds other) : Free params shown kinds' kind := by
  intro v hv hstands
  have hold := h.stands_of hstands
  refine h.revealed hshown hold fun hstands => ?_
  obtain ⟨id, hid, hmem⟩ := mem_unknowns_substitute.1 hv
  by_cases hdropped : id ∈ dropped
  · rw [(final_iff_substitute h.after.wellFounded).1 (h.gone id hdropped)] at hmem
    obtain rfl : v = id := by simpa using hmem
    exact absurd hdropped (h.stands v hold)
  · exact hfree v (mem_unknowns_substitute.2
      ⟨id, hid, (h.mem_substitute_iff hold hdropped).1 hmem⟩) hstands

end Drop

/-- Solutions that are left when variables are dropped were there before. -/
theorem solid_of_removeAll {good : Kind → Prop} {pick : Kind → Kind → Kind}
    (hpick : shape.Picks pick) : ∀ (dropped : List Nat) {kinds : Partition Kind},
    kinds.Sound shape good →
    ∀ c ∈ (kinds.removeAll pick (dropped.map .unsolved)).classes,
      shape.unknown c.representative = false →
      ∃ d ∈ kinds.classes, c.representative = d.representative
  | [], _, _, c, hc, _ => ⟨c, hc, rfl⟩
  | id :: dropped, kinds, h, c, hc, hsolid => by
    have hunknown : shape.unknown (.unsolved id) = true := rfl
    have hremoved := h.remove hpick hunknown
    obtain ⟨d, hd, heq⟩ := solid_of_removeAll hpick dropped hremoved c hc hsolid
    rw [Partition.remove_eq] at hd
    obtain ⟨e, he, hed⟩ := List.mem_filterMap.1 hd
    rcases h.without?_cases hpick hunknown he hed with
      ⟨hsame, -⟩ | ⟨-, hall, hheir⟩
    · exact ⟨e, he, heq.trans hsame⟩
    · have hmem :=
        (Class.mem_of_without? ((Partition.distinct_iff.1 h.distinct).1 e he) hed).1 hheir
      rw [heq, hall _ hmem.1] at hsolid
      cases hsolid

/-- Dropping variables that no parameter stands for keeps solutions apart from parameters. -/
theorem Parted.drop (hparted : Parted params shown kinds) {pick : Kind → Kind → Kind}
    (hpick : shape.Picks pick) (h : Drop params created dropped kinds
      ((Kind.closed kinds).removeAll pick (dropped.map .unsolved)))
    (hshown : ∀ other ∈ shown, Sturdy dropped kinds other) :
    Parted params shown ((Kind.closed kinds).removeAll pick (dropped.map .unsolved)) := by
  refine ⟨fun c hc hsolid => ?_, fun id hid => h.free (hparted.others id hid) hshown⟩
  obtain ⟨d, hd, hrep⟩ := solid_of_removeAll hpick dropped h.before.closed.sound c hc hsolid
  obtain ⟨e, he, rfl⟩ := List.mem_map.1 hd
  dsimp only at hrep
  rw [hrep] at hsolid ⊢
  refine h.free ((free_substitute h.before.wellFounded).2 ?_) hshown
  rcases hunknown : shape.unknown e.representative with _ | _
  · exact hparted.classes e he hunknown
  · rw [substitute_representative h.before he hunknown, hunknown] at hsolid
    cases hsolid

end Drop

end Kind

end PolyFront
