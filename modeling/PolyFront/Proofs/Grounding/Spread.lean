import PolyFront.Proofs.Grounding.Expansion
import PolyFront.Proofs.Solutions.Defaults

/-!
# Solutions that are spread out

A type is spread out when it mentions whatever the solutions of its variables mention, and a
variable that is solved and mentioned all the same stands in its own solution.  Substitution gives
such types, and closing solutions under substitution spreads them out, as long as a variable that
is met from its own solution stands there.  Closing also makes the solution of a variable mention
the variable with every kind that it is mentioned with anywhere, though solutions may disagree
about kinds before.
-/

namespace PolyFront

namespace Ty

variable {types : Partition Ty} {kinds : Partition Kind} {type : Ty} {id : Nat}

/-- A type mentions what the solutions of its variables mention, and a solved variable that it
mentions is mentioned by its own solution. -/
structure Spread (types : Partition Ty) (type : Ty) : Prop where
  final : ∀ {id}, Mentions id type → ¬Solved types id → IsFinal types id
  again : ∀ {id}, Mentions id type → Solved types id → Mentions id (solution types id)
  inner : ∀ {id}, Mentions id type → Solved types id → ∀ {inner},
    Mentions inner (solution types id) → Mentions inner type

/-- All representatives are spread out. -/
def AllSpread (types : Partition Ty) : Prop := ∀ c ∈ types.classes, Spread types c.representative

/-- A solved variable that a representative mentions is mentioned by its own solution with the same
kind. -/
def Echoed (types : Partition Ty) : Prop :=
  ∀ c ∈ types.classes, ∀ id kind, (id, kind) ∈ c.representative.mentions → Solved types id →
    (id, kind) ∈ (solution types id).mentions

theorem Solved.exists_class (h : Solved types id) :
    ∃ c ∈ types.classes, solution types id = c.representative := by
  obtain ⟨c, hclass⟩ := h.present
  exact ⟨c, (Partition.mem_of_classOf? hclass).1, Partition.find_of_classOf? hclass⟩

theorem AllSpread.of_solved (h : AllSpread types) (hsolved : Solved types id) :
    Spread types (solution types id) := by
  obtain ⟨c, hc, heq⟩ := hsolved.exists_class
  rw [heq]
  exact h c hc

theorem Echoed.of_solved (h : Echoed types) {outer : Nat} {kind : Kind}
    (houter : Solved types outer) (hmem : (id, kind) ∈ (solution types outer).mentions)
    (hsolved : Solved types id) : (id, kind) ∈ (solution types id).mentions := by
  obtain ⟨c, hc, heq⟩ := houter.exists_class
  rw [heq] at hmem
  exact h c hc id kind hmem hsolved

/-- A type that is spread out mentions all that it meets. -/
theorem Spread.mention_of_meets (h : Spread types type) {kind : Kind}
    (hmeets : Meets types type id kind) : Mentions id type := by
  induction hmeets with
  | mention hmem => exact ⟨_, hmem⟩
  | step _ hsolved hmem ih => exact h.inner ih hsolved ⟨_, hmem⟩

theorem AllSpread.recurring (h : AllSpread types) : Recurring types :=
  fun _ _ hsolved hmeets => (h.of_solved hsolved).mention_of_meets hmeets

/-! ## Variables without a solution -/

theorem not_solved_of_final (h : IsFinal types id) : ¬Solved types id := by
  intro hsolved
  rw [Solved, shape.unknown_congr h] at hsolved
  cases hsolved

theorem IsFinal.find (h : IsFinal types id) (kind : Kind) :
    ∃ own, types.find (.unsolved id kind) = .unsolved id own := by
  have hself : (types.find (.unsolved id kind) == .unsolved id kind) = true := final_unsolved.2 h
  have hunknown : shape.unknown (types.find (.unsolved id kind)) = true := by
    rw [shape.unknown_congr hself]
    rfl
  obtain ⟨other, own, hfind⟩ := unknown_iff.1 hunknown
  rw [hfind] at hself
  exact ⟨own, by rw [hfind, unsolved_beq.1 hself]⟩

theorem spread_unsolved (h : IsFinal types id) (kind : Kind) :
    Spread types (.unsolved id kind) := by
  have heq : ∀ {v}, Mentions v (.unsolved id kind) → v = id := fun hv => mentions_unsolved.1 hv
  refine ⟨fun hv _ => ?_, fun hv hsolved => ?_, fun hv hsolved => ?_⟩
  · rw [heq hv]
    exact h
  all_goals
    rw [heq hv] at hsolved
    exact absurd hsolved (not_solved_of_final h)

/-! ## Substitution -/

section Substitute

variable {shape' : TermShape Ty} {good : Ty → Prop}

/-- A variable that represents its class stands for itself. -/
theorem find_representative (h : types.Sound shape' good)
    (hshape : ∀ type, shape'.unknown type = shape.unknown type) {met : Nat} {metKind own : Kind}
    (hfind : types.find (.unsolved met metKind) = .unsolved id own) :
    ¬Solved types id ∧ types.find (.unsolved id own) = .unsolved id own := by
  have hself := h.find_find (a := .unsolved met metKind) (by rw [hfind, hshape]; rfl)
  rw [hfind] at hself
  refine ⟨?_, hself⟩
  rw [solved_iff own, hself]
  exact fun h => by cases h

theorem final_of_representative (h : types.Sound shape' good)
    (hshape : ∀ type, shape'.unknown type = shape.unknown type) {met : Nat} {metKind own : Kind}
    (hfind : types.find (.unsolved met metKind) = .unsolved id own) : IsFinal types id := by
  suffices hfinal : types.Final (.unsolved id own) from final_unsolved.1 hfinal
  rw [Partition.Final, (find_representative h hshape hfind).2]
  exact BEq.refl _

/-- A variable that represents its class is its own substitution. -/
theorem substitute_representative {kind own : Kind}
    (hfind : types.find (.unsolved id kind) = .unsolved id own) :
    substitute types kinds (.unsolved id kind) = .unsolved id (own.substitute kinds) := by
  rw [substitute, bind_unsolved]
  exact expand_of_unsolved List.nodup_nil List.not_mem_nil (fun _ hs => (List.not_mem_nil hs).elim)
    (Nat.le_refl _) hfind

/-- What is left with a solution was met, and met from that solution. -/
theorem Left.met (h : types.Sound shape' good)
    (hshape : ∀ type, shape'.unknown type = shape.unknown type) {kind : Kind}
    (hleft : Left types kinds type id kind) (hsolved : Solved types id) :
    (∃ kind, Meets types type id kind) ∧ ∃ kind, Meets types (solution types id) id kind := by
  cases hleft with
  | final _ hfind => exact absurd hsolved (find_representative h hshape hfind).1
  | again htrail houter hmem hseen =>
    exact ⟨⟨_, .step htrail.meets houter hmem⟩, _, htrail.meets_from houter hmem hseen⟩

/-- What is left without a solution represents a variable that was met. -/
theorem Left.represents {kind : Kind} (hleft : Left types kinds type id kind)
    (hunsolved : ¬Solved types id) :
    ∃ met metKind own, Meets types type met metKind ∧
      types.find (.unsolved met metKind) = .unsolved id own ∧ kind = own.substitute kinds := by
  cases hleft with
  | final hmeets hfind => exact ⟨_, _, _, hmeets, hfind, rfl⟩
  | again htrail houter _ hseen =>
    rcases List.mem_cons.1 hseen with rfl | hseen
    · exact absurd houter hunsolved
    · exact absurd (htrail.facts.2 _ hseen) hunsolved

theorem mentions_substitute_of_meets (hsolved : Solved types id) {kind : Kind}
    (hmeets : Meets types type id kind) (hself : Mentions id (solution types id)) :
    Mentions id (type.substitute types kinds) := by
  obtain ⟨own, hown⟩ := hself
  exact ⟨_, Leaves.mem_substitute (.again hmeets hsolved hown)⟩

theorem mentions_substitute_of_final (hfinal : IsFinal types id) {kind : Kind}
    (hmeets : Meets types type id kind) : Mentions id (type.substitute types kinds) := by
  obtain ⟨own, hown⟩ := hfinal.find kind
  exact ⟨_, Leaves.mem_substitute (.final hmeets hown)⟩

/-- A substituted type is spread out. -/
theorem AllSpread.spread_substitute (h : AllSpread types) (hsound : types.Sound shape' good)
    (hshape : ∀ type, shape'.unknown type = shape.unknown type) (kinds : Partition Kind)
    (type : Ty) : Spread types (type.substitute types kinds) where
  final := by
    rintro id ⟨kind, hmem⟩ hunsolved
    obtain ⟨_, _, _, -, hfind, -⟩ := (left_of_mem hmem).represents hunsolved
    exact final_of_representative hsound hshape hfind
  again := by
    rintro id ⟨kind, hmem⟩ hsolved
    obtain ⟨-, _, hself⟩ := (left_of_mem hmem).met hsound hshape hsolved
    exact h.recurring id _ hsolved hself
  inner := by
    rintro id ⟨kind, hmem⟩ hsolved inner ⟨innerKind, hinner⟩
    obtain ⟨⟨_, hmeets⟩, -⟩ := (left_of_mem hmem).met hsound hshape hsolved
    have hspread := h.of_solved hsolved
    by_cases hsolved' : Solved types inner
    · exact mentions_substitute_of_meets hsolved' (.step hmeets hsolved hinner)
        (hspread.again ⟨_, hinner⟩ hsolved')
    · exact mentions_substitute_of_final (hspread.final ⟨_, hinner⟩ hsolved')
        (.step hmeets hsolved hinner)

/-- Substitution brings nothing into a type that is spread out. -/
theorem Spread.of_substitute (h : Spread types type) (hsound : types.Sound shape' good)
    (hshape : ∀ type, shape'.unknown type = shape.unknown type)
    (hid : Mentions id (type.substitute types kinds)) : Mentions id type := by
  obtain ⟨kind, hmem⟩ := hid
  by_cases hsolved : Solved types id
  · obtain ⟨⟨_, hmeets⟩, -⟩ := (left_of_mem hmem).met hsound hshape hsolved
    exact h.mention_of_meets hmeets
  · obtain ⟨met, metKind, own, hmeets, hfind, -⟩ := (left_of_mem hmem).represents hsolved
    have hmet := h.mention_of_meets hmeets
    have hunsolved : ¬Solved types met := by
      rw [solved_iff metKind, hfind]
      exact fun h => by cases h
    obtain ⟨_, hself⟩ := (h.final hmet hunsolved).find metKind
    rw [hfind] at hself
    cases hself
    exact hmet

/-! ## Closing -/

theorem closed_find (types : Partition Ty) (kinds : Partition Kind) (type : Ty) :
    (closed types kinds).find type = match types.classOf? type with
      | some c => c.representative.substitute types kinds
      | none => type := by
  rw [closed, Partition.find, Partition.classOf?_mapRepresentatives]
  cases types.classOf? type <;> rfl

/-- A variable that represents its class still does when solutions are closed. -/
theorem closed_find_unsolved (hsound : types.Sound shape' good)
    (hshape : ∀ type, shape'.unknown type = shape.unknown type) {met : Nat} {metKind own : Kind}
    (hclass : ∃ c, types.classOf? (.unsolved met metKind) = some c)
    (hfind : types.find (.unsolved met metKind) = .unsolved id own) :
    (closed types kinds).find (.unsolved met metKind) = .unsolved id (own.substitute kinds) := by
  obtain ⟨c, hclass⟩ := hclass
  have hrep := Partition.find_of_classOf? hclass
  rw [closed_find, hclass]
  change c.representative.substitute types kinds = _
  rw [← hrep, hfind]
  exact substitute_representative (find_representative hsound hshape hfind).2

theorem Solved.closed (h : Solved types id) (kinds : Partition Kind) :
    Solved (Ty.closed types kinds) id ∧
      solution (Ty.closed types kinds) id = (solution types id).substitute types kinds := by
  obtain ⟨c, hclass⟩ := h.present
  have hsolution : solution (Ty.closed types kinds) id =
      (solution types id).substitute types kinds := by
    rw [solution, closed_find, hclass, solution, Partition.find_of_classOf? hclass]
  refine ⟨?_, hsolution⟩
  rw [Solved, ← solution, hsolution]
  exact unknown_bind h

theorem solved_of_closed (hsound : types.Sound shape' good)
    (hshape : ∀ type, shape'.unknown type = shape.unknown type)
    (h : Solved (closed types kinds) id) : Solved types id := by
  cases hunsolved : shape.unknown (types.find (.unsolved id .type)) with
  | false => exact hunsolved
  | true =>
    obtain ⟨other, own, hfind⟩ := unknown_iff.1 hunsolved
    cases hclass : types.classOf? (.unsolved id .type) with
    | none =>
      rw [Solved, closed_find, hclass] at h
      cases h
    | some c =>
      rw [Solved, closed_find_unsolved hsound hshape ⟨c, hclass⟩ hfind] at h
      cases h

theorem final_closed (hsound : types.Sound shape' good)
    (hshape : ∀ type, shape'.unknown type = shape.unknown type) (h : IsFinal types id)
    (kinds : Partition Kind) : IsFinal (closed types kinds) id := by
  obtain ⟨own, hfind⟩ := h.find .type
  rw [IsFinal, Partition.Final]
  cases hclass : types.classOf? (.unsolved id .type) with
  | some c =>
    rw [closed_find_unsolved hsound hshape ⟨c, hclass⟩ hfind]
    exact unsolved_beq.2 rfl
  | none =>
    rw [closed_find, hclass]
    exact BEq.refl _

/-- Closing solutions spreads every substituted type out. -/
theorem Recurring.spread_closed (h : Recurring types) (hsound : types.Sound shape' good)
    (hshape : ∀ type, shape'.unknown type = shape.unknown type) (kinds : Partition Kind)
    (type : Ty) : Spread (Ty.closed types kinds) (type.substitute types kinds) where
  final := by
    rintro id ⟨kind, hmem⟩ hunsolved
    have hold : ¬Solved types id := fun hsolved => hunsolved (hsolved.closed kinds).1
    obtain ⟨_, _, _, -, hfind, -⟩ := (left_of_mem hmem).represents hold
    exact final_closed hsound hshape (final_of_representative hsound hshape hfind) kinds
  again := by
    rintro id ⟨kind, hmem⟩ hsolved
    have hold := solved_of_closed hsound hshape hsolved
    obtain ⟨-, _, hself⟩ := (left_of_mem hmem).met hsound hshape hold
    have hself := h id _ hold hself
    rw [(hold.closed kinds).2]
    obtain ⟨own, hown⟩ := hself
    exact mentions_substitute_of_meets hold (.mention hown) ⟨own, hown⟩
  inner := by
    rintro id ⟨kind, hmem⟩ hsolved inner hinner
    have hold := solved_of_closed hsound hshape hsolved
    obtain ⟨⟨_, hmeets⟩, -⟩ := (left_of_mem hmem).met hsound hshape hold
    rw [(hold.closed kinds).2] at hinner
    obtain ⟨innerKind, hinner⟩ := hinner
    by_cases hsolved' : Solved types inner
    · obtain ⟨⟨_, hmeets'⟩, _, hself⟩ := (left_of_mem hinner).met hsound hshape hsolved'
      exact mentions_substitute_of_meets hsolved' (hmeets.trans hold hmeets')
        (h inner _ hsolved' hself)
    · obtain ⟨_, _, _, hmeets', hfind, -⟩ := (left_of_mem hinner).represents hsolved'
      exact ⟨_, Leaves.mem_substitute (.final (hmeets.trans hold hmeets') hfind)⟩

theorem Recurring.allSpread_closed (h : Recurring types) (hsound : types.Sound shape' good)
    (hshape : ∀ type, shape'.unknown type = shape.unknown type) (kinds : Partition Kind) :
    AllSpread (Ty.closed types kinds) := by
  intro c hc
  obtain ⟨old, -, rfl⟩ := List.mem_map.1 hc
  exact h.spread_closed hsound hshape kinds old.representative

/-- Closing solutions settles them. -/
theorem Recurring.settled_closed (h : Recurring types) (hsound : types.Sound shape' good)
    (hshape : ∀ type, shape'.unknown type = shape.unknown type) (kinds : Partition Kind) :
    Echoed (Ty.closed types kinds) := by
  intro c hc id kind hmem hsolved
  obtain ⟨old, -, rfl⟩ := List.mem_map.1 hc
  have hold := solved_of_closed hsound hshape hsolved
  have hleft := left_of_mem hmem
  obtain ⟨-, _, hself⟩ := hleft.met hsound hshape hold
  rw [(hold.closed kinds).2]
  cases hleft with
  | final _ hfind => exact absurd hold (find_representative hsound hshape hfind).1
  | again htrail houter hown hseen =>
    exact mem_solution_of_left htrail houter hown hseen (h id _ hold hself)

/-- A type stays spread out when solutions are closed that were spread out themselves. -/
theorem Spread.closed (h : Spread types type) (hall : AllSpread types)
    (hsound : types.Sound shape' good) (hshape : ∀ type, shape'.unknown type = shape.unknown type)
    (kinds : Partition Kind) : Spread (Ty.closed types kinds) type where
  final hid hunsolved := final_closed hsound hshape
    (h.final hid fun hsolved => hunsolved (hsolved.closed kinds).1) kinds
  again hid hsolved := by
    have hold := solved_of_closed hsound hshape hsolved
    obtain ⟨own, hown⟩ := h.again hid hold
    rw [(hold.closed kinds).2]
    exact mentions_substitute_of_meets hold (.mention hown) ⟨own, hown⟩
  inner hid hsolved inner hinner := by
    have hold := solved_of_closed hsound hshape hsolved
    rw [(hold.closed kinds).2] at hinner
    exact h.inner hid hold ((hall.of_solved hold).of_substitute hsound hshape hinner)

/-! ## Adding -/

theorem find_add_unsolved (types : Partition Ty) (added v : Nat) (kind own : Kind) :
    (types.add (.unsolved added kind)).find (.unsolved v own) = types.find (.unsolved v own) ∨
      (types.classOf? (.unsolved v own) = none ∧ v = added ∧
        (types.add (.unsolved added kind)).find (.unsolved v own) = .unsolved added kind) := by
  rcases Partition.find_add types (.unsolved added kind) (.unsolved v own) with
    heq | ⟨habsent, hbeq, heq⟩
  · exact .inl heq
  · exact .inr ⟨habsent, unsolved_beq.1 hbeq, heq⟩

theorem solved_add {added : Nat} {kind : Kind} :
    Solved (types.add (.unsolved added kind)) id ↔ Solved types id := by
  rw [Solved, shape.unknown_congr (Partition.find_add_beq types (.unsolved added kind) _), Solved]

theorem solution_add (hsolved : Solved types id) (added : Nat) (kind : Kind) :
    solution (types.add (.unsolved added kind)) id = solution types id := by
  rcases find_add_unsolved types added id kind .type with heq | ⟨habsent, -⟩
  · exact heq
  · obtain ⟨c, hclass⟩ := hsolved.present
    rw [habsent] at hclass
    cases hclass

theorem isFinal_add {added : Nat} {kind : Kind} (h : IsFinal types id) :
    IsFinal (types.add (.unsolved added kind)) id :=
  BEq.trans (Partition.find_add_beq types (.unsolved added kind) (.unsolved id .type)) h

/-- A new variable leaves types spread out. -/
theorem Spread.add (h : Spread types type) (added : Nat) (kind : Kind) :
    Spread (types.add (.unsolved added kind)) type where
  final hid hunsolved := isFinal_add (h.final hid fun hsolved => hunsolved (solved_add.2 hsolved))
  again hid hsolved := by
    rw [solution_add (solved_add.1 hsolved)]
    exact h.again hid (solved_add.1 hsolved)
  inner hid hsolved inner hinner := by
    rw [solution_add (solved_add.1 hsolved)] at hinner
    exact h.inner hid (solved_add.1 hsolved) hinner

theorem mem_classes_add_unsolved {added : Nat} {kind : Kind} {c : Class Ty}
    (hc : c ∈ (types.add (.unsolved added kind)).classes) :
    c ∈ types.classes ∨
      c.representative = .unsolved added kind ∧
        IsFinal (types.add (.unsolved added kind)) added := by
  by_cases hcontains : types.contains (.unsolved added kind) = true
  · rw [Partition.add, if_pos hcontains] at hc
    exact .inl hc
  rcases Partition.mem_classes_add hc with hc | rfl
  · exact .inl hc
  suffices hfinal : (types.add (.unsolved added kind)).Final (.unsolved added kind) from
    .inr ⟨rfl, final_unsolved.1 hfinal⟩
  refine BEq.trans (Partition.find_add_beq _ _ _) ?_
  rw [Partition.contains, Option.isSome_iff_ne_none, ne_eq, Decidable.not_not] at hcontains
  rw [Partition.find_of_absent hcontains]
  exact BEq.refl _

theorem AllSpread.add (h : AllSpread types) (added : Nat) (kind : Kind) :
    AllSpread (types.add (.unsolved added kind)) := by
  intro c hc
  rcases mem_classes_add_unsolved hc with hc | ⟨heq, hfinal⟩
  · exact (h c hc).add added kind
  · rw [heq]
    exact spread_unsolved hfinal kind

theorem Echoed.add (h : Echoed types) (added : Nat) (kind : Kind) :
    Echoed (types.add (.unsolved added kind)) := by
  intro c hc id own hmem hsolved
  rw [solution_add (solved_add.1 hsolved)]
  rcases mem_classes_add_unsolved hc with hc | ⟨heq, hfinal⟩
  · exact h c hc id own hmem (solved_add.1 hsolved)
  · rw [heq, mentions, List.mem_singleton, Prod.mk.injEq] at hmem
    exact absurd hsolved (not_solved_of_final (hmem.1 ▸ hfinal))

/-! ## Removing -/

section Remove

variable {pick : Ty → Ty → Ty}

/-- What is solved after a variable is removed keeps its solution. -/
theorem solved_of_remove (hsound : types.Sound shape' good)
    (hshape : ∀ type, shape'.unknown type = shape.unknown type) (hpick : shape'.Picks pick)
    {removed : Nat} (h : Solved (types.remove (.unsolved removed .type) pick) id) :
    Solved types id ∧
      solution (types.remove (.unsolved removed .type) pick) id = solution types id := by
  have hvariable : shape'.unknown (.unsolved removed .type) = true := by
    rw [hshape]
    rfl
  rcases hsound.find_remove hpick hvariable (.unsolved id .type) with
    heq | ⟨-, heq⟩ | ⟨-, hunknown, -⟩
  · rw [Solved, heq] at h
    exact ⟨h, heq⟩
  · rw [Solved, heq] at h
    cases h
  · rw [hshape, h] at hunknown
    cases hunknown

theorem isFinal_remove (hsound : types.Sound shape' good)
    (hshape : ∀ type, shape'.unknown type = shape.unknown type) (hpick : shape'.Picks pick)
    (removed : Nat) (h : IsFinal types id) :
    IsFinal (types.remove (.unsolved removed .type) pick) id :=
  hsound.final_remove hpick (by rw [hshape]; rfl) h

/-- What was solved stays so when a variable is removed, unless it is removed itself. -/
theorem Solved.remove (h : Solved types id) (hsound : types.Sound shape' good)
    (hshape : ∀ type, shape'.unknown type = shape.unknown type) (hpick : shape'.Picks pick)
    {removed : Nat} (hne : id ≠ removed) :
    Solved (types.remove (.unsolved removed .type) pick) id := by
  have hvariable : shape'.unknown (.unsolved removed .type) = true := by
    rw [hshape]
    rfl
  rcases hsound.find_remove hpick hvariable (.unsolved id .type) with
    heq | ⟨hself, -⟩ | ⟨hremoved, -⟩
  · rw [Solved, heq]
    exact h
  · exact absurd (unsolved_beq.1 hself) hne
  · rw [Solved, shape.unknown_congr hremoved] at h
    cases h

/-- Removing a variable leaves types spread out. -/
theorem Spread.remove (h : Spread types type) (hsound : types.Sound shape' good)
    (hshape : ∀ type, shape'.unknown type = shape.unknown type) (hpick : shape'.Picks pick)
    (removed : Nat) : Spread (types.remove (.unsolved removed .type) pick) type where
  final {v} hid hunsolved := by
    by_cases hself : v = removed
    · rw [IsFinal, Partition.Final, Partition.find_of_absent
        (Partition.classOf?_remove_self hsound.distinct pick (unsolved_beq.2 hself))]
      exact BEq.refl _
    · refine isFinal_remove hsound hshape hpick removed (h.final hid fun hold => hunsolved ?_)
      exact hold.remove hsound hshape hpick hself
  again hid hsolved := by
    obtain ⟨hold, heq⟩ := solved_of_remove hsound hshape hpick hsolved
    rw [heq]
    exact h.again hid hold
  inner hid hsolved inner hinner := by
    obtain ⟨hold, heq⟩ := solved_of_remove hsound hshape hpick hsolved
    rw [heq] at hinner
    exact h.inner hid hold hinner

/-- The representative of a class from which a variable was removed is the old one or a variable
that stands for itself. -/
theorem mem_classes_remove (hsound : types.Sound shape' good)
    (hshape : ∀ type, shape'.unknown type = shape.unknown type) (hpick : shape'.Picks pick)
    {removed : Nat} {d : Class Ty}
    (hd : d ∈ (types.remove (.unsolved removed .type) pick).classes) :
    (∃ c ∈ types.classes, d.representative = c.representative) ∨
      ∃ id kind, d.representative = .unsolved id kind ∧
        IsFinal (types.remove (.unsolved removed .type) pick) id := by
  have hremoved : shape'.unknown (.unsolved removed .type) = true := by
    rw [hshape]
    rfl
  have hd' := hd
  rw [Partition.remove_eq] at hd
  obtain ⟨c, hc, hcd⟩ := List.mem_filterMap.1 hd
  rcases hsound.without?_cases hpick hremoved hc hcd with ⟨heq, -⟩ | ⟨hself, hmembers, hheir⟩
  · exact .inl ⟨c, hc, heq⟩
  have hclass := Partition.classOf?_eq_some
    (Partition.distinct_remove hsound.distinct (.unsolved removed .type) pick) hd'
    (Class.has_of_mem hheir)
  have hfind := Partition.find_of_classOf? hclass
  have hunknown : shape.unknown d.representative = true := by
    rw [← hshape]
    refine hmembers _ ?_
    have hnodup := (Partition.distinct_iff.1 hsound.distinct).1 c hc
    exact ((Class.mem_of_without? hnodup hcd).1 hheir).1
  obtain ⟨id, kind, hrep⟩ := unknown_iff.1 hunknown
  rw [hrep] at hfind
  suffices hfinal : (types.remove (.unsolved removed .type) pick).Final (.unsolved id kind) from
    .inr ⟨id, kind, hrep, final_unsolved.1 hfinal⟩
  rw [Partition.Final, hfind]
  exact BEq.refl _

/-- Removing a variable leaves all representatives spread out. -/
theorem AllSpread.remove (h : AllSpread types) (hsound : types.Sound shape' good)
    (hshape : ∀ type, shape'.unknown type = shape.unknown type) (hpick : shape'.Picks pick)
    (removed : Nat) : AllSpread (types.remove (.unsolved removed .type) pick) := by
  intro d hd
  rcases mem_classes_remove hsound hshape hpick hd with ⟨c, hc, heq⟩ | ⟨id, kind, heq, hfinal⟩
  · rw [heq]
    exact (h c hc).remove hsound hshape hpick removed
  · rw [heq]
    exact spread_unsolved hfinal kind

theorem Echoed.remove (h : Echoed types) (hsound : types.Sound shape' good)
    (hshape : ∀ type, shape'.unknown type = shape.unknown type) (hpick : shape'.Picks pick)
    (removed : Nat) : Echoed (types.remove (.unsolved removed .type) pick) := by
  intro d hd id own hmem hsolved
  obtain ⟨hold, hsolution⟩ := solved_of_remove hsound hshape hpick hsolved
  rcases mem_classes_remove hsound hshape hpick hd with ⟨c, hc, heq⟩ | ⟨v, kind, heq, hfinal⟩
  · rw [heq] at hmem
    rw [hsolution]
    exact h c hc id own hmem hold
  · rw [heq, mentions, List.mem_singleton, Prod.mk.injEq] at hmem
    exact absurd hsolved (not_solved_of_final (hmem.1 ▸ hfinal))

end Remove

end Substitute

end Ty

end PolyFront
