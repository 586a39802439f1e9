import PolyFront.Proofs.Grounding.Spread

/-!
# Defaulting with cyclic solutions

Defaulting reads the kinds of a type that was substituted once and substitutes it again.  When
solutions are settled the second substitution leaves nothing that the first one did not leave,
cyclic or not.  A type that is defaulted therefore has no unsolved kind left, as long as the
solutions of kinds are acyclic.
-/

namespace PolyFront

namespace Partition

variable {α : Type} [BEq α] {shape : TermShape α} {good : α → Prop} {partition : Partition α}

/-- A class of the partition in which two elements have a class is an old one or a new one of one
of the elements. -/
theorem mem_classes_prepared {left right : α} {c : Class α}
    (hc : c ∈ (partition.prepared left right).classes) :
    c ∈ partition.classes ∨ c.representative = left ∨ c.representative = right := by
  rcases mem_classes_add hc with hc | rfl
  · rcases mem_classes_add hc with hc | rfl
    · exact .inl hc
    · exact .inr (.inl rfl)
  · exact .inr (.inr rfl)

variable [EquivBEq α]

/-- Merging keeps a partition sound whatever its classes stand for, when no term is a leaf. -/
theorem Sound.union_any (h : Sound shape good partition) (hleaf : ∀ a, shape.leaf a = false)
    {left right : α} {pick : α → α → α} (hpick : ∀ a b, pick a b = a ∨ pick a b = b)
    (hunknown : ∀ a b, shape.unknown (pick a b) = true →
      shape.unknown a = true ∧ shape.unknown b = true)
    (hleft : good left) (hright : good right) :
    Sound shape good (partition.union left right pick) := by
  have hprepared := h.prepared hleft hright
  obtain ⟨⟨l, hl⟩, r, hr⟩ := exists_classOf?_prepared partition left right
  obtain ⟨hlmem, -⟩ := mem_of_classOf? hl
  obtain ⟨hrmem, -⟩ := mem_of_classOf? hr
  obtain ⟨-, hunion⟩ | ⟨hlr, others, hunion, -, hothers⟩ := union_cases pick h.distinct hl hr
  · rw [hunion]
    exact hprepared
  have hclasses : ∀ c ∈ (partition.union left right pick).classes,
      c ∈ (partition.prepared left right).classes ∨ c = Class.merged pick l r := by
    intro c hc
    rw [hunion] at hc
    rcases List.mem_append.1 hc with hc | hc
    · exact .inl ((hothers c).1 hc).1
    · exact .inr (List.mem_singleton.1 hc)
  refine ⟨distinct_union h.distinct left right pick, ?_, ?_, ?_⟩
  · intro c hc hrep
    rcases hclasses c hc with hc | rfl
    · exact hprepared.ofUnknown c hc hrep
    obtain ⟨hlrep, hrrep⟩ := hunknown _ _ hrep
    obtain ⟨hlmembers, hlhas⟩ := hprepared.ofUnknown l hlmem hlrep
    obtain ⟨hrmembers, hrhas⟩ := hprepared.ofUnknown r hrmem hrrep
    refine ⟨fun a ha => ?_, ?_⟩
    · rcases Class.mem_merged.1 ha with ha | ha
      · exact hlmembers a ha
      · exact hrmembers a ha
    · rw [Class.merged_has, Class.merged]
      rcases hpick l.representative r.representative with heq | heq
      · rw [heq]
        exact .inl hlhas
      · rw [heq]
        exact .inr hrhas
  · intro c hc a ha hleaf'
    rw [hleaf] at hleaf'
    cases hleaf'
  · intro c hc
    rcases hclasses c hc with hc | rfl
    · exact hprepared.good c hc
    obtain ⟨hlmembers, hlrep⟩ := hprepared.good l hlmem
    obtain ⟨hrmembers, hrrep⟩ := hprepared.good r hrmem
    refine ⟨fun a ha => ?_, ?_⟩
    · rcases Class.mem_merged.1 ha with ha | ha
      · exact hlmembers a ha
      · exact hrmembers a ha
    · rw [Class.merged]
      rcases hpick l.representative r.representative with heq | heq
      · rw [heq]
        exact hlrep
      · rw [heq]
        exact hrrep

end Partition

namespace Ty

variable {types : Partition Ty} {kinds : Partition Kind} {type : Ty} {good : Ty → Prop}

theorem unknown_plain (type : Ty) : plainShape.unknown type = shape.unknown type := rfl

section Pick

variable {α : Type} (frames : List (Frame α))

theorem pickType_cases (left right : Ty) :
    pickType frames left right = left ∨ pickType frames left right = right := by
  cases left with
  | unsolved id kind =>
    cases right with
    | unsolved other otherKind =>
      rw [pickType]
      split
      · exact .inl rfl
      · exact .inr rfl
    | _ => exact .inr rfl
  | _ => exact .inl rfl

theorem unknown_pickType {left right : Ty}
    (h : shape.unknown (pickType frames left right) = true) :
    shape.unknown left = true ∧ shape.unknown right = true := by
  cases left with
  | unsolved id kind =>
    cases right with
    | unsolved other otherKind => exact ⟨rfl, rfl⟩
    | _ => cases h
  | _ => cases h

end Pick

/-! ## Substituting again -/

section Again

variable {shape' : TermShape Ty}

/-- What a substituted type meets and has a solution was met before. -/
theorem meets_of_substitute (hsound : types.Sound shape' good)
    (hshape : ∀ type, shape'.unknown type = shape.unknown type) {id : Nat} {kind : Kind}
    (h : Meets types (type.substitute types kinds) id kind) (hsolved : Solved types id) :
    ∃ kind, Meets types type id kind := by
  induction h with
  | mention hmem => exact ((left_of_mem hmem).met hsound hshape hsolved).1
  | step _ houter hmem ih =>
    obtain ⟨_, hmeets⟩ := ih houter
    exact ⟨_, .step hmeets houter hmem⟩

/-- Substituting a second time leaves no variable that was not left. -/
theorem Echoed.mentions_again (h : Echoed types) (hkinds : WellFounded (Kind.Within kinds))
    (hsound : types.Sound shape' good)
    (hshape : ∀ type, shape'.unknown type = shape.unknown type) {id : Nat} {kind : Kind}
    (hmem : (id, kind) ∈ ((type.substitute types kinds).substitute types kinds).mentions) :
    (id, kind) ∈ (type.substitute types kinds).mentions := by
  cases left_of_mem hmem with
  | again htrail houter hown hseen =>
    have hsolved : Solved types id := by
      rcases List.mem_cons.1 hseen with rfl | hseen
      · exact houter
      · exact htrail.facts.2 id hseen
    obtain ⟨_, hmeets⟩ := meets_of_substitute hsound hshape htrail.meets houter
    exact Leaves.mem_substitute
      (.again (.step hmeets houter hown) hsolved (h.of_solved houter hown hsolved))
  | @final met _ metKind own hmeets hfind =>
    cases hmeets with
    | step houter hsolved hmet =>
      obtain ⟨_, hmeets⟩ := meets_of_substitute hsound hshape houter hsolved
      exact Leaves.mem_substitute (.final (.step hmeets hsolved hmet) hfind)
    | mention hmet =>
      have hunsolved : ¬Solved types met := by
        rw [solved_iff metKind, hfind]
        exact fun h => by cases h
      obtain ⟨_, _, first, -, hfirst, rfl⟩ := (left_of_mem hmet).represents hunsolved
      have hself := (find_representative hsound hshape hfirst).2
      have hclass := classOf?_unsolved types met (first.substitute kinds) first
      cases hpresent : types.classOf? (.unsolved met first) with
      | some c =>
        rw [hpresent] at hclass
        rw [Partition.find_of_classOf? hpresent] at hself
        rw [Partition.find_of_classOf? hclass, hself] at hfind
        cases hfind
        exact hmet
      | none =>
        rw [hpresent] at hclass
        rw [Partition.find_of_absent hclass] at hfind
        cases hfind
        rw [Kind.substitute_substitute hkinds]
        exact hmet

/-- Substituting a second time carries no kind that was not carried. -/
theorem carried_again (hkinds : WellFounded (Kind.Within kinds)) (hsound : types.Sound shape' good)
    (hshape : ∀ type, shape'.unknown type = shape.unknown type) {k : Kind}
    (hk : k ∈ ((type.substitute types kinds).substitute types kinds).carried) :
    k ∈ (type.substitute types kinds).carried := by
  rcases mem_carried_substitute_iff.1 hk with ⟨kind, hkind, rfl⟩ |
    ⟨id, kind, hmeets, hsolved, own, hown, rfl⟩
  · have hfixed : kind.substitute kinds = kind := by
      rcases mem_carried_substitute_iff.1 hkind with ⟨own, -, rfl⟩ | ⟨_, _, _, _, own, -, rfl⟩
      · exact Kind.substitute_substitute hkinds own
      · exact Kind.substitute_substitute hkinds own
    rw [hfixed]
    exact hkind
  · obtain ⟨_, hmeets⟩ := meets_of_substitute hsound hshape hmeets hsolved
    exact mem_carried_substitute_iff.2 (.inr ⟨id, _, hmeets, hsolved, own, hown, rfl⟩)

end Again

/-! ## Defaulting -/

theorem mem_kinds_mapKinds {g : Kind → Kind} {k : Kind} (h : k ∈ (type.mapKinds g).kinds) :
    (∃ kind ∈ type.kinds, k = g kind) ∨ ∃ builtIn : BuiltIn, k = builtIn.kind := by
  rcases mem_kinds_cases h with hcarried | ⟨id, hmem⟩ | hbuiltIn
  · rcases mem_carried_bind hcarried with ⟨kind, hkind, rfl⟩ | ⟨id, kind, -, hk⟩
    · exact .inl ⟨kind, mem_kinds_of_carried hkind, rfl⟩
    · rw [carried] at hk
      exact (List.not_mem_nil hk).elim
  · obtain ⟨other, kind, hother, hk⟩ := mem_mentions_bind.1 hmem
    rw [mentions, List.mem_singleton, Prod.mk.injEq] at hk
    obtain ⟨rfl, rfl⟩ := hk
    exact .inl ⟨kind, mem_kinds_of_mentions hother, rfl⟩
  · exact .inr hbuiltIn

theorem unknowns_builtIn (type : BuiltIn) : type.kind.unknowns = [] := by
  cases type with
  | function arity =>
    refine List.eq_nil_iff_forall_not_mem.2 fun id hid => ?_
    exact Nat.not_lt_zero id (Kind.proper_simple 0 (arity + 1) id hid)
  | _ => exact Kind.unknowns_type

/-- A substituted type has substituted kinds. -/
theorem substitute_mem_kinds (hkinds : WellFounded (Kind.Within kinds)) {kind : Kind}
    (hkind : kind ∈ (type.substitute types kinds).kinds) : kind.substitute kinds = kind := by
  rcases mem_kinds_cases hkind with hcarried | ⟨id, hmem⟩ | ⟨builtIn, rfl⟩
  · rcases mem_carried_substitute_iff.1 hcarried with ⟨own, -, rfl⟩ | ⟨_, _, _, _, own, -, rfl⟩
    · exact Kind.substitute_substitute hkinds own
    · exact Kind.substitute_substitute hkinds own
  · cases left_of_mem hmem with
    | final => exact Kind.substitute_substitute hkinds _
    | again => exact Kind.substitute_substitute hkinds _
  · exact Kind.Ground.substitute (unknowns_builtIn builtIn) kinds

theorem defaultable_of_substitute (hkinds : WellFounded (Kind.Within kinds)) {id : Nat}
    (hid : id ∈ (type.substitute types kinds).kinds.flatMap Kind.unknowns) :
    kinds.Final (.unsolved id) := by
  obtain ⟨kind, hkind, hid⟩ := List.mem_flatMap.1 hid
  rw [← substitute_mem_kinds hkinds hkind] at hid
  exact Kind.final_of_mem_substitute hkinds hid

/-- A type that is defaulted has no unsolved kind left. -/
theorem Echoed.default_ground {created : Nat} (h : Echoed types)
    (hkinds : Kind.Acyclic created kinds) (hsound : types.Sound plainShape good) (type : Ty) :
    ∀ kind ∈ (type.default types kinds).1.kinds, kind.Ground := by
  have hwf := hkinds.wellFounded
  have hfinal : ∀ id ∈ (type.substitute types kinds).kinds.flatMap Kind.unknowns,
      kinds.Final (.unsolved id) := fun id hid => defaultable_of_substitute hwf hid
  obtain ⟨bound, hacyclic, hbound⟩ := hkinds.exists_defaultable hfinal
  have hstars := hacyclic.substitute_defaultVariables hbound
  intro kind hkind
  rw [Ty.default, substitute_mapKinds hstars] at hkind
  rcases mem_kinds_mapKinds hkind with ⟨old, hold, rfl⟩ | ⟨builtIn, rfl⟩
  · -- The second substitution brings in no kind that the first one did not.
    have hfirst : old ∈ (type.substitute types kinds).kinds ∨ old.unknowns = [] := by
      rcases mem_kinds_cases hold with hmem | ⟨id, hmem⟩ | ⟨builtIn, rfl⟩
      · exact .inl (mem_kinds_of_carried (carried_again hwf hsound unknown_plain hmem))
      · exact .inl (mem_kinds_of_mentions (h.mentions_again hwf hsound unknown_plain hmem))
      · exact .inr (unknowns_builtIn builtIn)
    rw [Kind.bind_starring_eq_starred]
    · exact old.unknowns_starred
    · rcases hfirst with hfirst | hground
      · exact fun id hid => List.mem_flatMap.2 ⟨old, hfirst, hid⟩
      · rw [hground]
        exact List.nil_subset _
  · exact unknowns_builtIn builtIn

end Ty

end PolyFront
