import PolyFront.Proofs.Subtyping.Terms

/-!
# First-order solutions

Between two checks the solutions of types are settled: a solution mentions only variables that
stand for themselves, and all members of a class become its representative once their variables are
replaced.  Then substitution reads off the bare solution of every variable.  Solving a variable and
closing the solutions replaces one variable in all of them and leaves them settled, whatever class
the solution was in before.
-/

namespace PolyFront

namespace Ty

variable {created : Nat} {types : Partition Ty} {kinds : Partition Kind}

/-- The bare solution of a variable. -/
def solutionOf (types : Partition Ty) (id : Nat) : Ty := (types.find (.unsolved id .type)).bare

theorem bare_find_unsolved (types : Partition Ty) (id : Nat) (kind : Kind) :
    (types.find (.unsolved id kind)).bare = solutionOf types id :=
  bare_eq_of_beq (find_unsolved_beq types id kind .type)

theorem isFinal_iff {id : Nat} : IsFinal types id ↔ solutionOf types id = .unsolved id .type := by
  constructor
  · intro h
    rw [solutionOf, bare_eq_of_beq h, bare_unsolved]
  · intro h
    obtain ⟨kind, hfind⟩ := bare_eq_unsolved h
    rw [IsFinal, Partition.Final, hfind]
    exact unsolved_beq.2 rfl

theorem within_iff {inner outer : Nat} : Within types inner outer ↔
    solutionOf types outer ≠ .unsolved outer .type ∧ (solutionOf types outer).Mentions inner := by
  rw [Within, isFinal_iff, solutionOf, mentions_bare_iff]
  rfl

/-- Solutions that mention only variables that stand for themselves, and classes whose members
become their representatives once variables are replaced. -/
structure Settled (created : Nat) (types : Partition Ty) : Prop where
  sound : types.Sound shape (Simple created)
  final : ∀ c ∈ types.classes, ∀ id, c.representative.Mentions id →
    solutionOf types id = .unsolved id .type
  holds : ∀ c ∈ types.classes, ∀ a ∈ c.cluster.members,
    a.bare.subst (solutionOf types) = c.representative.bare

namespace Settled

theorem empty (created : Nat) : Settled created Partition.empty where
  sound := .empty
  final _ hc := (List.not_mem_nil hc).elim
  holds _ hc := (List.not_mem_nil hc).elim

theorem solutionOf_cases (types : Partition Ty) (id : Nat) :
    solutionOf types id = .unsolved id .type ∨
      ∃ c ∈ types.classes, solutionOf types id = c.representative.bare := by
  unfold solutionOf
  cases hclass : types.classOf? (.unsolved id .type) with
  | none =>
    rw [Partition.find_of_absent hclass, bare_unsolved]
    exact .inl rfl
  | some c =>
    rw [Partition.find_of_classOf? hclass]
    exact .inr ⟨c, (Partition.mem_of_classOf? hclass).1, rfl⟩

/-- A solution mentions only variables that stand for themselves. -/
theorem mentioned (h : Settled created types) {id v : Nat}
    (hmem : (solutionOf types id).Mentions v) : solutionOf types v = .unsolved v .type := by
  rcases solutionOf_cases types id with heq | ⟨c, hc, heq⟩
  · rw [heq, mentions_unsolved] at hmem
    rw [hmem, heq]
  · rw [heq, mentions_bare_iff] at hmem
    exact h.final c hc v hmem

theorem firstOrder (h : Settled created types) (id : Nat) : (solutionOf types id).FirstOrder := by
  rcases solutionOf_cases types id with heq | ⟨c, hc, heq⟩
  · rw [heq]
    exact firstOrder_unsolved _ _
  · rw [heq]
    exact (h.sound.good c hc).2.firstOrder.bare

theorem lt (h : Settled created types) {id v : Nat} (hid : id < created)
    (hmem : (solutionOf types id).Mentions v) : v < created := by
  rcases solutionOf_cases types id with heq | ⟨c, hc, heq⟩
  · rw [heq, mentions_unsolved] at hmem
    omega
  · rw [heq, mentions_bare_iff] at hmem
    exact (h.sound.good c hc).2.lt hmem

/-- A variable that was not created yet has no solution. -/
theorem of_uncreated (h : Settled created types) {id : Nat} (hid : created ≤ id) :
    solutionOf types id = .unsolved id .type := by
  have habsent : types.classOf? (.unsolved id .type) = none := by
    refine Partition.classOf?_eq_none_iff.2 fun c hc hhas => ?_
    obtain ⟨member, hmember, heq⟩ := Class.has_iff.1 hhas
    have hmentions : member.Mentions id :=
      (mem_mentions_of_beq heq).1 ⟨.type, by rw [mentions]; exact List.mem_cons_self⟩
    have hlt := ((h.sound.good c hc).1 member hmember).lt hmentions
    omega
  rw [solutionOf, Partition.find_of_absent habsent, bare_unsolved]

/-- Replacing variables by their solutions a second time changes nothing. -/
theorem solution_subst (h : Settled created types) (id : Nat) :
    (solutionOf types id).subst (solutionOf types) = solutionOf types id := by
  rw [solutionOf]
  refine bare_subst_self fun v hmem => ?_
  rw [← mentions_bare_iff] at hmem
  exact h.mentioned hmem

theorem subst_subst (h : Settled created types) (type : Ty) :
    (type.subst (solutionOf types)).subst (solutionOf types) = type.subst (solutionOf types) := by
  rw [Ty.subst_subst]
  exact subst_congr fun id _ => h.solution_subst id

theorem wellFounded (h : Settled created types) : WellFounded (Within types) := by
  refine wellFounded_of_minimal emptyWf.wf fun inner outer hwithin => .inr fun v hv => ?_
  rw [within_iff] at hwithin hv
  exact hv.1 (h.mentioned hwithin.2)

end Settled

/-! ## Substitution -/

/-- The bare substitution of a variable. -/
def expansion (types : Partition Ty) (kinds : Partition Kind) (id : Nat) : Ty :=
  (substitute types kinds (.unsolved id .type)).bare

theorem bare_resolved_unsolved {type : Ty} {id : Nat} {kind : Kind} (h : type = .unsolved id kind) :
    (resolved types kinds type).bare = .unsolved id .type := by
  rw [h, resolved, bare_unsolved]

/-- The kind of a variable does not matter for its bare substitution. -/
theorem bare_substitute_unsolved (h : WellFounded (Within types)) (id : Nat) (kind : Kind) :
    (substitute types kinds (.unsolved id kind)).bare = expansion types kinds id := by
  rw [expansion, substitute_unsolved h, substitute_unsolved h]
  have hbeq := find_unsolved_beq types id kind .type
  cases hunknown : shape.unknown (types.find (.unsolved id kind)) with
  | false => rw [find_unsolved_of_solved .type hunknown]
  | true =>
    obtain ⟨other, otherKind, hother⟩ := unknown_iff.1 hunknown
    rw [shape.unknown_congr hbeq] at hunknown
    obtain ⟨other', otherKind', hother'⟩ := unknown_iff.1 hunknown
    rw [hother, hother', unsolved_beq] at hbeq
    rw [bare_resolved_unsolved hother, bare_resolved_unsolved hother', hbeq]

theorem bare_substitute_eq (h : WellFounded (Within types)) {type : Ty} (htype : type.FirstOrder) :
    (type.substitute types kinds).bare = type.bare.subst (expansion types kinds) := by
  refine htype.bare_bind fun id kind _ => ?_
  rw [← bare_substitute_unsolved h id kind, substitute, bind_unsolved]

theorem expansion_of_final (h : WellFounded (Within types)) {id : Nat} (hfinal : IsFinal types id) :
    expansion types kinds id = .unsolved id .type := by
  rw [expansion, bare_eq_of_beq (substitute_final_beq h kinds .type hfinal), bare_unsolved]

section Sound

variable (hsound : types.Sound shape (Simple created)) (h : WellFounded (Within types))

include hsound in
theorem firstOrder_find (id : Nat) (kind : Kind) :
    (types.find (.unsolved id kind)).FirstOrder := by
  cases hclass : types.classOf? (.unsolved id kind) with
  | none =>
    rw [Partition.find_of_absent hclass]
    exact firstOrder_unsolved _ _
  | some c =>
    rw [Partition.find_of_classOf? hclass]
    exact (hsound.good c (Partition.mem_of_classOf? hclass).1).2.firstOrder

include hsound in
theorem final_of_find {id other : Nat} {kind otherKind : Kind}
    (hfind : types.find (.unsolved id kind) = .unsolved other otherKind) : IsFinal types other := by
  have hunknown : shape.unknown (types.find (.unsolved id kind)) = true := by
    rw [hfind]
    rfl
  have hself := hsound.final_find hunknown
  rw [hfind] at hself
  exact final_unsolved.1 hself

include hsound h

/-- The substitution of a variable is that of its solution. -/
theorem expansion_eq (id : Nat) :
    expansion types kinds id = (solutionOf types id).subst (expansion types kinds) := by
  rw [expansion, substitute_unsolved h, solutionOf]
  cases hunknown : shape.unknown (types.find (.unsolved id .type)) with
  | false =>
    rw [resolved_of_solved hunknown, bare_substitute_eq h (firstOrder_find hsound id .type)]
  | true =>
    obtain ⟨other, otherKind, hother⟩ := unknown_iff.1 hunknown
    have hfinal := final_of_find hsound hother
    rw [bare_resolved_unsolved hother, hother, bare_unsolved, subst_unsolved,
      expansion_of_final h hfinal]

theorem expansion_of_mentions {type : Ty} {id : Nat}
    (hmem : (type.substitute types kinds).Mentions id) :
    expansion types kinds id = .unsolved id .type := by
  obtain ⟨kind, hmem⟩ := hmem
  obtain ⟨other, otherKind, finalKind, hfind, -⟩ := exists_find_of_mem_substitute h hmem
  exact expansion_of_final h (final_of_find hsound hfind)

theorem Simple.substitute {type : Ty} (htype : type.Simple created) :
    (type.substitute types kinds).Simple created := by
  have hbind : ∀ {type : Ty}, type.Simple created → (∀ id kind, type.Mentions id →
      (Ty.substitute types kinds (.unsolved id kind)).Simple created) →
      (type.substitute types kinds).Simple created := by
    intro type htype hvariable
    refine simple_iff.2 ⟨htype.firstOrder.bind fun id kind hmem => ?_, ?_⟩
    · have hsimple := hvariable id kind ⟨kind, hmem⟩
      rw [Ty.substitute, bind_unsolved] at hsimple
      exact hsimple.firstOrder
    · rintro id ⟨kind, hmem⟩
      obtain ⟨v, vkind, hv, hmem⟩ := mem_mentions_substitute.1 hmem
      exact (hvariable v vkind ⟨vkind, hv⟩).lt ⟨kind, hmem⟩
  refine hbind htype fun id kind hmem => ?_
  have hid := htype.lt hmem
  clear hmem
  induction id using h.induction generalizing kind with
  | h id ih =>
    rw [substitute_unsolved h]
    have hfind : (types.find (.unsolved id kind)).Simple created :=
      hsound.find_good (simple_unsolved.2 hid)
    cases hunknown : shape.unknown (types.find (.unsolved id kind)) with
    | true =>
      obtain ⟨final, finalKind, hfinal⟩ := unknown_iff.1 hunknown
      rw [hfinal, simple_unsolved] at hfind
      rw [hfinal, resolved]
      exact simple_unsolved.2 hfind
    | false =>
      rw [resolved_of_solved hunknown]
      refine hbind hfind fun inner innerKind hinner => ?_
      have hlt := hfind.lt hinner
      obtain ⟨mentionedKind, hmem⟩ := hinner
      exact ih inner (within_of_mem hunknown hmem) innerKind hlt

/-- Closed solutions are settled once members and representatives have the same substitution. -/
theorem settled_closed (hholds : ∀ c ∈ types.classes, ∀ a ∈ c.cluster.members,
      a.bare.subst (expansion types kinds) = c.representative.bare.subst (expansion types kinds)) :
    Settled created (closed types kinds) ∧
      solutionOf (closed types kinds) = expansion types kinds := by
  have hsolution : solutionOf (closed types kinds) = expansion types kinds := by
    funext id
    rw [solutionOf, closed, Partition.find_mapRepresentatives]
    cases hclass : types.classOf? (.unsolved id .type) with
    | some c =>
      have hgood := hsound.good c (Partition.mem_of_classOf? hclass).1
      dsimp only
      rw [bare_substitute_eq h hgood.2.firstOrder, expansion_eq hsound h, solutionOf,
        Partition.find_of_classOf? hclass]
    | none =>
      have hfinal : IsFinal types id := by
        rw [IsFinal, Partition.Final, Partition.find_of_absent hclass]
        exact BEq.refl _
      rw [expansion_of_final h hfinal]
      exact bare_unsolved _ _
  refine ⟨⟨?_, ?_, ?_⟩, hsolution⟩
  · refine hsound.mapRepresentatives ?_ unknown_bind leaf_bind (Simple.substitute hsound h)
    intro type hunknown hfinal
    obtain ⟨id, kind, rfl⟩ := unknown_iff.1 hunknown
    exact substitute_final_beq h kinds kind (final_unsolved.1 hfinal)
  · intro d hd id hmem
    obtain ⟨c, hc, rfl⟩ := List.mem_map.1 hd
    rw [hsolution]
    exact expansion_of_mentions hsound h hmem
  · intro d hd a ha
    obtain ⟨c, hc, rfl⟩ := List.mem_map.1 hd
    rw [hsolution, hholds c hc a ha]
    exact (bare_substitute_eq h (hsound.good c hc).2.firstOrder).symm

end Sound

namespace Settled

/-- Settled solutions are their own substitutions. -/
theorem expansion_eq_solutionOf (h : Settled created types) (kinds : Partition Kind) :
    expansion types kinds = solutionOf types := by
  funext id
  refine (expansion_eq h.sound h.wellFounded id).trans (Eq.trans ?_ (h.solution_subst id))
  refine subst_congr fun v hmem => ?_
  have hfinal := h.mentioned hmem
  rw [expansion_of_final h.wellFounded (isFinal_iff.2 hfinal), hfinal]

theorem bare_substitute (h : Settled created types) (kinds : Partition Kind) {type : Ty}
    (htype : type.FirstOrder) :
    (type.substitute types kinds).bare = type.bare.subst (solutionOf types) := by
  rw [bare_substitute_eq h.wellFounded htype, h.expansion_eq_solutionOf kinds]

theorem substitute (h : Settled created types) (kinds : Partition Kind) {type : Ty}
    (htype : type.Simple created) : (type.substitute types kinds).Simple created :=
  Simple.substitute h.sound h.wellFounded htype

theorem closed (h : Settled created types) (kinds : Partition Kind) :
    Settled created (Ty.closed types kinds) ∧
      solutionOf (Ty.closed types kinds) = solutionOf types := by
  have hexpansion := h.expansion_eq_solutionOf kinds
  rw [← hexpansion]
  refine settled_closed h.sound h.wellFounded fun c hc a ha => ?_
  rw [hexpansion, h.holds c hc a ha]
  exact (bare_subst_self fun id hmem => h.final c hc id hmem).symm

/-- Creating a variable changes no solution. -/
theorem add (h : Settled created types) (kind : Kind) :
    Settled (created + 1) (types.add (.unsolved created kind)) ∧
      solutionOf (types.add (.unsolved created kind)) = solutionOf types := by
  have hsolution : solutionOf (types.add (.unsolved created kind)) = solutionOf types := by
    funext id
    exact bare_eq_of_beq (Partition.find_add_beq types _ _)
  have hnew := h.of_uncreated (Nat.le_refl created)
  refine ⟨⟨?_, ?_, ?_⟩, hsolution⟩
  · exact (h.sound.mono fun _ ha => ha.mono (Nat.le_succ _)).add
      (simple_unsolved.2 (Nat.lt_succ_self _))
  · intro c hc id hmem
    rw [hsolution]
    rcases Partition.mem_classes_add hc with hc | rfl
    · exact h.final c hc id hmem
    · rw [mentions_unsolved.1 hmem, hnew]
  · intro c hc a ha
    rw [hsolution]
    rcases Partition.mem_classes_add hc with hc | rfl
    · exact h.holds c hc a ha
    · obtain rfl : a = .unsolved created kind := by
        simpa [Cluster.singleton, Cluster.members, Cluster.membersList] using ha
      rw [bare_unsolved, subst_unsolved, hnew]

end Settled

/-! ## Solving -/

/-- One variable is replaced. -/
def single (id : Nat) (type : Ty) : Nat → Ty :=
  fun other => if other = id then type else .unsolved other .type

theorem single_self (id : Nat) (type : Ty) : single id type id = type := if_pos rfl

theorem single_of_ne {id other : Nat} (h : other ≠ id) (type : Ty) :
    single id type other = .unsolved other .type := if_neg h

/-- A solved variable is replaced by its solution, or the variable that is its solution by it. -/
inductive Replaces (id : Nat) (kind : Kind) (type : Ty) : Nat → Ty → Prop where
  | solved : Replaces id kind type id type
  | represents {other : Nat} {otherKind : Kind} (h : type = .unsolved other otherKind) :
    Replaces id kind type other (.unsolved id kind)

/-- What replaces a variable does not mention it, and mentions only variables that stand for
themselves. -/
theorem Replaces.mentioned {id : Nat} {kind : Kind} {type : Ty} {loser : Nat} {winner : Ty}
    (h : Replaces id kind type loser winner) (hfinal : solutionOf types id = .unsolved id .type)
    (hmentions : ∀ v, type.Mentions v → v ≠ id ∧ solutionOf types v = .unsolved v .type) :
    ∀ v, winner.Mentions v → v ≠ loser ∧ solutionOf types v = .unsolved v .type := by
  cases h with
  | solved => exact hmentions
  | @represents other otherKind htype =>
    intro v hv
    obtain rfl := mentions_unsolved.1 hv
    refine ⟨?_, hfinal⟩
    rintro rfl
    exact (hmentions v (by rw [htype]; exact mentions_unsolved.2 rfl)).1 rfl

/-- Both the variable and its solution become what replaces one of them. -/
theorem Replaces.subst_single {id : Nat} {kind : Kind} {type : Ty} {loser : Nat} {winner : Ty}
    (h : Replaces id kind type loser winner) (hmentions : ¬type.Mentions id) :
    (Ty.unsolved id .type).subst (single loser winner.bare) = winner.bare ∧
      type.bare.subst (single loser winner.bare) = winner.bare := by
  cases h with
  | solved =>
    refine ⟨by rw [subst_unsolved, single_self], bare_subst_self fun v hv => single_of_ne ?_ _⟩
    rintro rfl
    exact hmentions hv
  | @represents other otherKind htype =>
    subst htype
    rw [mentions_unsolved] at hmentions
    rw [subst_unsolved, bare_unsolved, bare_unsolved, subst_unsolved, single_of_ne hmentions,
      single_self]
    exact ⟨rfl, rfl⟩

section Solve

variable {id : Nat} {kind : Kind} {type : Ty} {pick : Ty → Ty → Ty}

/-- The classes in which a variable and its solution stand before they are merged. -/
theorem Settled.prepared (h : Settled created types)
    (hfinal : solutionOf types id = .unsolved id .type)
    (hmentions : ∀ v, type.Mentions v → solutionOf types v = .unsolved v .type) :
    ∀ c ∈ (types.prepared (.unsolved id kind) type).classes,
      (∀ v, c.representative.Mentions v → solutionOf types v = .unsolved v .type) ∧
        ∀ a, c.Has a → a.bare.subst (solutionOf types) = c.representative.bare := by
  have hsingleton : ∀ element : Ty,
      (∀ v, element.Mentions v → solutionOf types v = .unsolved v .type) →
        ∀ a, (⟨.singleton element, element⟩ : Class Ty).Has a →
          a.bare.subst (solutionOf types) = element.bare := by
    intro element helement a ha
    obtain ⟨m, hm, heq⟩ := Class.has_iff.1 ha
    obtain rfl : m = element := by
      simpa [Cluster.singleton, Cluster.members, Cluster.membersList] using hm
    rw [bare_eq_of_beq heq]
    exact bare_subst_self helement
  have hvariable : ∀ v, Mentions v (.unsolved id kind) →
      solutionOf types v = .unsolved v .type := by
    intro v hv
    rw [mentions_unsolved.1 hv, hfinal]
  intro c hc
  rcases Partition.mem_classes_add hc with hc | rfl
  · rcases Partition.mem_classes_add hc with hc | rfl
    · refine ⟨h.final c hc, fun a ha => ?_⟩
      obtain ⟨m, hm, heq⟩ := Class.has_iff.1 ha
      rw [bare_eq_of_beq heq, h.holds c hc m hm]
    · exact ⟨hvariable, hsingleton _ hvariable⟩
  · exact ⟨hmentions, hsingleton _ hmentions⟩

/-- What merging two classes does: one variable, and all that it stood for, is represented by the
winner. -/
structure Merged (types types' : Partition Ty) (loser : Nat) (winner : Ty) : Prop where
  lost : solutionOf types' loser = winner.bare
  solution : ∀ v, solutionOf types' v = solutionOf types v ∨ solutionOf types' v = winner.bare ∧
    (solutionOf types v).subst (single loser winner.bare) = winner.bare
  classes : ∀ c ∈ types'.classes, ∀ a ∈ c.cluster.members,
    (∀ v, c.representative.Mentions v → solutionOf types v = .unsolved v .type) ∧
        a.bare.subst (solutionOf types) = c.representative.bare ∨
      c.representative.bare = winner.bare ∧
        (a.bare.subst (solutionOf types)).subst (single loser winner.bare) = winner.bare

theorem Settled.merges (h : Settled created types) (hpick : shape.Picks pick)
    (hfinal : solutionOf types id = .unsolved id .type)
    (hmentions : ∀ v, type.Mentions v → v ≠ id ∧ solutionOf types v = .unsolved v .type) :
    ∃ loser winner, Replaces id kind type loser winner ∧
      Merged types (types.union (.unsolved id kind) type pick) loser winner := by
  have hnot : ¬type.Mentions id := fun hmem => (hmentions id hmem).1 rfl
  have hclasses : ∀ c ∈ (types.prepared (.unsolved id kind) type).classes, _ :=
    h.prepared hfinal fun v hv => (hmentions v hv).2
  obtain ⟨⟨l, hl⟩, r, hr⟩ := Partition.exists_classOf?_prepared types (.unsolved id kind) type
  obtain ⟨hlmem, hlhas⟩ := Partition.mem_of_classOf? hl
  obtain ⟨hrmem, hrhas⟩ := Partition.mem_of_classOf? hr
  have hlrep : l.representative.bare = .unsolved id .type := by
    rw [← (hclasses l hlmem).2 _ hlhas, bare_unsolved, subst_unsolved, hfinal]
  have hrrep : r.representative.bare = type.bare := by
    rw [← (hclasses r hrmem).2 _ hrhas]
    exact bare_subst_self fun v hv => (hmentions v hv).2
  have hlr : l ≠ r := by
    rintro rfl
    obtain ⟨kind', heq⟩ := bare_eq_unsolved (hrrep.symm.trans hlrep)
    exact hnot (by rw [heq]; exact mentions_unsolved.2 rfl)
  -- The winner is the representative of the merged class.
  have hpicked : ∃ loser winner, Replaces id kind type loser winner ∧
      (pick l.representative r.representative).bare = winner.bare ∧
      (loser = id ∨ ∃ otherKind, type = .unsolved loser otherKind) := by
    have hlunknown : shape.unknown l.representative = true := by
      obtain ⟨kind', heq⟩ := bare_eq_unsolved hlrep
      rw [heq]
      rfl
    have hright : pick l.representative r.representative = r.representative →
        (pick l.representative r.representative).bare = type.bare := by
      intro heq
      rw [heq, hrrep]
    cases hrunknown : shape.unknown r.representative with
    | false => exact ⟨id, type, .solved, hright (hpick.solved hlunknown hrunknown), .inl rfl⟩
    | true =>
      rcases hpick.chosen hlunknown hrunknown with heq | heq
      · obtain ⟨other, otherKind, hother⟩ := unknown_iff.1 hrunknown
        rw [hother, bare_unsolved] at hrrep
        obtain ⟨kind', htype⟩ := bare_eq_unsolved hrrep.symm
        refine ⟨other, _, .represents htype, ?_, .inr ⟨kind', htype⟩⟩
        rw [heq, hlrep, bare_unsolved]
      · exact ⟨id, type, .solved, hright heq, .inl rfl⟩
  obtain ⟨loser, winner, hreplaces, hwinner, hloser⟩ := hpicked
  obtain ⟨hleft, hright⟩ := hreplaces.subst_single hnot
  refine ⟨loser, winner, hreplaces, ?_⟩
  have hunion := Partition.classOf?_union pick h.sound.distinct hl hr hlr
  have hprepared : ∀ v, ((types.prepared (.unsolved id kind) type).find (.unsolved v .type)).bare =
      solutionOf types v := fun v =>
    bare_eq_of_beq (Partition.find_prepared_beq types _ _ _)
  have hmerged : ∀ v, l.Has (.unsolved v .type) ∨ r.Has (.unsolved v .type) →
      solutionOf (types.union (.unsolved id kind) type pick) v = winner.bare := by
    intro v hv
    obtain ⟨-, hclass⟩ := (hunion (.unsolved v .type)).resolve_right fun hout => hout.1 hv
    rw [solutionOf, Partition.find_of_classOf? hclass, Class.merged, hwinner]
  have hold : ∀ v, (l.Has (.unsolved v .type) ∨ r.Has (.unsolved v .type)) →
      (solutionOf types v).subst (single loser winner.bare) = winner.bare := by
    rintro v (hv | hv)
    · have heq := (hclasses l hlmem).2 _ hv
      rw [bare_unsolved, subst_unsolved, hlrep] at heq
      rw [heq, hleft]
    · have heq := (hclasses r hrmem).2 _ hv
      rw [bare_unsolved, subst_unsolved, hrrep] at heq
      rw [heq, hright]
  refine ⟨hmerged loser ?_, fun v => ?_, fun c hc a ha => ?_⟩
  · rcases hloser with rfl | ⟨otherKind, rfl⟩
    · exact .inl ((Class.has_congr (unsolved_beq.2 rfl)).1 hlhas)
    · exact .inr ((Class.has_congr (unsolved_beq.2 rfl)).1 hrhas)
  · rcases hunion (.unsolved v .type) with ⟨hin, -⟩ | ⟨-, hclass⟩
    · exact .inr ⟨hmerged v hin, hold v hin⟩
    · refine .inl ?_
      rw [solutionOf, Partition.find, hclass]
      exact hprepared v
  · obtain ⟨heq, -⟩ | ⟨-, others, hclasses', -, hothers⟩ :=
      Partition.union_cases pick h.sound.distinct hl hr
    · exact (hlr heq).elim
    rw [hclasses'] at hc
    rcases List.mem_append.1 hc with hc | hc
    · obtain ⟨hcmem, -, -⟩ := (hothers c).1 hc
      obtain ⟨hmentioned, hhas⟩ := hclasses c hcmem
      exact .inl ⟨hmentioned, hhas a (Class.has_of_mem ha)⟩
    · obtain rfl := List.mem_singleton.1 hc
      refine .inr ⟨hwinner, ?_⟩
      rcases Class.mem_merged.1 ha with ha | ha
      · rw [(hclasses l hlmem).2 a (Class.has_of_mem ha), hlrep, hleft]
      · rw [(hclasses r hrmem).2 a (Class.has_of_mem ha), hrrep, hright]

/-- Solving a variable by a type of other variables that stand for themselves replaces one variable
in all solutions. -/
theorem Settled.solve (h : Settled created types) (hpick : shape.Picks pick) (hid : id < created)
    (hfinal : solutionOf types id = .unsolved id .type) (htype : type.Simple created)
    (hmentions : ∀ v, type.Mentions v → v ≠ id ∧ solutionOf types v = .unsolved v .type) :
    ∃ loser winner, Replaces id kind type loser winner ∧
      Settled created (Ty.closed (types.union (.unsolved id kind) type pick) kinds) ∧
      ∀ v, solutionOf (Ty.closed (types.union (.unsolved id kind) type pick) kinds) v =
        (solutionOf types v).subst (single loser winner.bare) := by
  obtain ⟨loser, winner, hreplaces, hmerged⟩ : ∃ loser winner, Replaces id kind type loser winner ∧
      Merged types (types.union (.unsolved id kind) type pick) loser winner :=
    h.merges hpick hfinal hmentions
  refine ⟨loser, winner, hreplaces, ?_⟩
  have hwinner := hreplaces.mentioned hfinal hmentions
  have hunknown : shape.unknown (types.find (.unsolved id kind)) = true := by
    obtain ⟨kind', heq⟩ := bare_eq_unsolved ((bare_find_unsolved types id kind).trans hfinal)
    rw [heq]
    rfl
  have hsound := h.sound.union hpick (simple_unsolved.2 hid) htype hunknown
  generalize types.union (.unsolved id kind) type pick = types' at hmerged hsound ⊢
  have hkept : ∀ {v}, v ≠ loser → solutionOf types v = .unsolved v .type →
      solutionOf types' v = .unsolved v .type := by
    intro v hne hv
    rcases hmerged.solution v with heq | ⟨heq, hsubst⟩
    · rw [heq, hv]
    · rw [heq, ← hsubst, hv, subst_unsolved, single_of_ne hne]
  have hwell : WellFounded (Within types') := by
    refine wellFounded_of_minimal h.wellFounded fun inner outer hwithin => ?_
    rw [within_iff] at hwithin
    obtain ⟨hsolved, hinner⟩ := hwithin
    rcases hmerged.solution outer with heq | ⟨heq, -⟩
    · rw [heq] at hsolved hinner
      exact .inl (within_iff.2 ⟨hsolved, hinner⟩)
    · rw [heq, mentions_bare_iff] at hinner
      obtain ⟨hne, hself⟩ := hwinner inner hinner
      exact .inr fun v hv => (within_iff.1 hv).1 (hkept hne hself)
  have hexpanded : ∀ {v}, v ≠ loser → solutionOf types v = .unsolved v .type →
      expansion types' kinds v = .unsolved v .type := fun hne hv =>
    expansion_of_final hwell (isFinal_iff.2 (hkept hne hv))
  have hwinnerSelf : winner.bare.subst (expansion types' kinds) = winner.bare :=
    bare_subst_self fun v hv => hexpanded (hwinner v hv).1 (hwinner v hv).2
  -- Of variables that stood for themselves only one is replaced.
  have hsingle : ∀ {v}, solutionOf types v = .unsolved v .type →
      expansion types' kinds v = single loser winner.bare v := by
    intro v hv
    by_cases hne : v = loser
    · rw [hne, single_self, expansion_eq hsound hwell, hmerged.lost, hwinnerSelf]
    · rw [hexpanded hne hv, single_of_ne hne]
  have hexpansion : ∀ v, expansion types' kinds v =
      (solutionOf types v).subst (single loser winner.bare) := by
    intro v
    rw [expansion_eq hsound hwell]
    rcases hmerged.solution v with heq | ⟨heq, hsubst⟩
    · rw [heq]
      exact subst_congr fun w hw => hsingle (h.mentioned hw)
    · rw [heq, hwinnerSelf, hsubst]
  have hmember : ∀ a : Ty, a.bare.subst (expansion types' kinds) =
      (a.bare.subst (solutionOf types)).subst (single loser winner.bare) := by
    intro a
    rw [Ty.subst_subst]
    exact subst_congr fun v _ => hexpansion v
  have hholds : ∀ c ∈ types'.classes, ∀ a ∈ c.cluster.members,
      a.bare.subst (expansion types' kinds) =
        c.representative.bare.subst (expansion types' kinds) := by
    intro c hc a ha
    rw [hmember]
    rcases hmerged.classes c hc a ha with ⟨hmentioned, heq⟩ | ⟨hrep, heq⟩
    · rw [heq]
      exact subst_congr fun v hv => (hsingle (hmentioned v (mentions_bare_iff.1 hv))).symm
    · rw [heq, hrep, hwinnerSelf]
  obtain ⟨hsettled, hsolution⟩ := settled_closed hsound hwell hholds
  exact ⟨hsettled, fun v => by rw [hsolution, hexpansion]⟩

end Solve

end Ty

end PolyFront
