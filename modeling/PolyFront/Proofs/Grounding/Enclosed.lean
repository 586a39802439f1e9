import PolyFront.Proofs.Grounding.Merged

/-!
# What a solution can reach

The variables that a type reaches through solutions and classes are shut off from the others when
neither leads out of them.  A variable outside of them can be solved by a part of the type without
being met from its own solution, and what happens inside of them leaves it alone.
-/

namespace PolyFront

namespace Ty

variable {types types' : Partition Ty} {kinds : Partition Kind} {type type' : Ty} {id : Nat}
  {good : Ty → Prop} {inside : Nat → Prop}

/-- A type mentions no variable that another one stands for, and a solved variable that it mentions
is mentioned by its own solution. -/
structure Loose (types : Partition Ty) (type : Ty) : Prop where
  final : ∀ {id}, Mentions id type → ¬Solved types id → IsFinal types id
  again : ∀ {id}, Mentions id type → Solved types id → Mentions id (solution types id)

theorem Spread.loose (h : Spread types type) : Loose types type := ⟨h.final, h.again⟩

theorem Loose.of_mentions (h : Loose types type)
    (hmentions : ∀ {id}, Mentions id type' → Mentions id type) : Loose types type' :=
  ⟨fun hid => h.final (hmentions hid), fun hid => h.again (hmentions hid)⟩

theorem Loose.add (h : Loose types type) (added : Nat) (kind : Kind) :
    Loose (types.add (.unsolved added kind)) type where
  final hid hunsolved := isFinal_add (h.final hid fun hsolved => hunsolved (solved_add.2 hsolved))
  again hid hsolved := by
    rw [solution_add (solved_add.1 hsolved)]
    exact h.again hid (solved_add.1 hsolved)

/-- Neither solutions nor classes lead out of some variables. -/
structure Shut (types : Partition Ty) (inside : Nat → Prop) : Prop where
  inner : ∀ {v w}, inside v → Solved types v → Mentions w (solution types v) → inside w
  mates : ∀ {a b}, inside a → Mates types a b → inside b

/-- The variables that a type mentions, and those that are in a class with one of them. -/
def Reached (types : Partition Ty) (type : Ty) (v : Nat) : Prop :=
  Mentions v type ∨ ∃ u, Mentions u type ∧ Mates types u v

theorem Spread.shut (h : Spread types type) : Shut types (Reached types type) where
  inner hv hsolved hw := by
    rcases hv with hv | ⟨u, -, hmates⟩
    · exact .inl (h.inner hv hsolved hw)
    · exact absurd hsolved hmates.symm.1
  mates ha hmates := by
    rcases ha with ha | ⟨u, hu, hmates'⟩
    · exact .inr ⟨_, ha, hmates⟩
    · exact .inr ⟨u, hu, hmates'.trans hmates⟩

/-- A variable that stands for itself and is not mentioned is not reached. -/
theorem Spread.not_reached (h : Spread types type) (hfinal : IsFinal types id)
    (hid : ¬Mentions id type) : ¬Reached types type id := by
  rintro (hmentions | ⟨u, hu, hmates⟩)
  · exact hid hmentions
  · obtain rfl := hmates.eq (h.final hu hmates.1) hfinal
    exact hid hu

section Shut

theorem Shut.meets (h : Shut types inside) (htype : ∀ {v}, Mentions v type → inside v) {kind : Kind}
    (hmeets : Meets types type id kind) : inside id := by
  induction hmeets with
  | mention hmem => exact htype ⟨_, hmem⟩
  | step _ hsolved hmem ih => exact h.inner ih hsolved ⟨_, hmem⟩

/-- Substitution leads out of the variables no more than solutions do. -/
theorem Shut.substitute (h : Shut types inside) (hsound : types.Sound plainShape good)
    (htype : ∀ {v}, Mentions v type → inside v) {v : Nat}
    (hv : Mentions v (type.substitute types kinds)) : inside v := by
  obtain ⟨kind, hmem⟩ := hv
  by_cases hsolved : Solved types v
  · obtain ⟨⟨_, hmeets⟩, -⟩ := (left_of_mem hmem).met hsound unknown_plain hsolved
    exact h.meets htype hmeets
  · obtain ⟨met, metKind, own, hmeets, hfind, -⟩ := (left_of_mem hmem).represents hsolved
    have hunsolved : ¬Solved types met := by
      rw [solved_iff metKind, hfind]
      exact fun h => by cases h
    refine h.mates (h.meets htype hmeets) ⟨hunsolved, ?_⟩
    have hself := (find_representative hsound unknown_plain hfind).2
    have hmet := find_unsolved_beq types met .type metKind
    rw [hfind, ← hself] at hmet
    exact BEq.trans hmet (find_unsolved_beq types v own .type)

/-- Closing solutions leaves the representative of a variable without a solution. -/
theorem find_closed_beq (hsound : types.Sound plainShape good) {v : Nat} (hv : ¬Solved types v)
    (kinds : Partition Kind) :
    ((Ty.closed types kinds).find (.unsolved v .type) ==
      types.find (.unsolved v .type)) = true := by
  rw [Solved, Bool.not_eq_false] at hv
  obtain ⟨other, own, hfind⟩ := unknown_iff.1 hv
  cases hclass : types.classOf? (.unsolved v .type) with
  | some c =>
    rw [closed_find_unsolved hsound unknown_plain ⟨c, hclass⟩ hfind, hfind]
    exact unsolved_beq.2 rfl
  | none =>
    rw [closed_find, hclass, Partition.find_of_absent hclass]
    exact BEq.refl _

theorem mates_closed (hsound : types.Sound plainShape good) {a b : Nat}
    (h : Mates (Ty.closed types kinds) a b) : Mates types a b := by
  have hunsolved : ∀ {v}, ¬Solved (Ty.closed types kinds) v → ¬Solved types v := fun h hsolved =>
    h (hsolved.closed kinds).1
  refine ⟨hunsolved h.1, ?_⟩
  exact BEq.trans (BEq.symm (find_closed_beq hsound (hunsolved h.1) kinds))
    (BEq.trans h.2 (find_closed_beq hsound (hunsolved h.symm.1) kinds))

theorem Shut.closed (h : Shut types inside) (hsound : types.Sound plainShape good)
    (kinds : Partition Kind) : Shut (Ty.closed types kinds) inside where
  inner hv hsolved hw := by
    have hold := solved_of_closed hsound unknown_plain hsolved
    rw [(hold.closed kinds).2] at hw
    exact h.substitute hsound (fun hinner => h.inner hv hold hinner) hw
  mates ha hmates := h.mates ha (mates_closed hsound hmates)

theorem mates_add {added a b : Nat} {kind : Kind} :
    Mates (types.add (.unsolved added kind)) a b ↔ Mates types a b := by
  have hbeq : ∀ type, ((types.add (.unsolved added kind)).find type == types.find type) = true :=
    Partition.find_add_beq types _
  refine and_congr (not_congr solved_add) ⟨fun h => ?_, fun h => ?_⟩
  · exact BEq.trans (BEq.symm (hbeq _)) (BEq.trans h (hbeq _))
  · exact BEq.trans (hbeq _) (BEq.trans h (BEq.symm (hbeq _)))

theorem Shut.add (h : Shut types inside) (added : Nat) (kind : Kind) :
    Shut (types.add (.unsolved added kind)) inside where
  inner hv hsolved hw := by
    rw [solution_add (solved_add.1 hsolved)] at hw
    exact h.inner hv (solved_add.1 hsolved) hw
  mates ha hmates := h.mates ha (mates_add.1 hmates)

/-- A variable that is in no class is in one with itself only. -/
theorem Mates.of_absent (hsound : types.Sound plainShape good) {a b : Nat} (h : Mates types a b)
    (ha : types.classOf? (.unsolved a .type) = none) : b = a := by
  have hfind := h.2
  rw [Partition.find_of_absent ha] at hfind
  cases hclass : types.classOf? (.unsolved b .type) with
  | none =>
    rw [Partition.find_of_absent hclass] at hfind
    exact (unsolved_beq.1 hfind).symm
  | some c =>
    rw [Partition.find_of_classOf? hclass] at hfind
    have hc := (Partition.mem_of_classOf? hclass).1
    have hunknown : plainShape.unknown c.representative = true := by
      rw [unknown_plain, ← shape.unknown_congr hfind]
      rfl
    have hhas := (hsound.ofUnknown c hc hunknown).2
    refine absurd ((Class.has_congr (BEq.symm hfind)).1 hhas) fun hself => ?_
    rw [Partition.classOf?_eq_some hsound.distinct hc hself] at ha
    cases ha

theorem Shut.insert (h : Shut types inside) (hsound : types.Sound plainShape good)
    (hid : types.classOf? (.unsolved id .type) = none) :
    Shut types fun v => inside v ∨ v = id where
  inner hv hsolved hw := by
    rcases hv with hv | rfl
    · exact .inl (h.inner hv hsolved hw)
    · rw [Solved, Partition.find_of_absent hid] at hsolved
      cases hsolved
  mates ha hmates := by
    rcases ha with ha | rfl
    · exact .inl (h.mates ha hmates)
    · exact .inr (hmates.of_absent hsound hid)

theorem mates_remove (hsound : types.Sound plainShape good) {pick : Ty → Ty → Ty}
    (hpick : plainShape.Picks pick) {removed a b : Nat}
    (h : Mates (types.remove (.unsolved removed .type) pick) a b) : a = b ∨ Mates types a b := by
  have hvariable : plainShape.unknown (.unsolved removed .type) = true := rfl
  have hne : ∀ {u v}, u = removed → v ≠ removed →
      ((types.remove (.unsolved removed .type) pick).find (.unsolved u .type) ==
        (types.remove (.unsolved removed .type) pick).find (.unsolved v .type)) = false := by
    rintro u v rfl hv
    rw [Partition.find_of_absent (Partition.classOf?_remove_self hsound.distinct pick (BEq.refl _)),
      BEq.comm]
    exact hsound.find_remove_ne hpick hvariable (by
      rw [← Bool.not_eq_true, unsolved_beq]
      exact hv)
  by_cases ha : a = removed
  · by_cases hb : b = removed
    · exact .inl (ha.trans hb.symm)
    · have hsame := h.2
      rw [hne ha hb] at hsame
      cases hsame
  by_cases hb : b = removed
  · have hsame := h.symm.2
    rw [hne hb ha] at hsame
    cases hsame
  have hunsolved : ∀ {v}, v ≠ removed → ¬Solved (types.remove (.unsolved removed .type) pick) v →
      ¬Solved types v := fun hv h hsolved => h (hsolved.remove hsound unknown_plain hpick hv)
  have hfind : ∀ {v}, v ≠ removed → ¬Solved types v →
      types.find ((types.remove (.unsolved removed .type) pick).find (.unsolved v .type)) =
        types.find (.unsolved v .type) := fun hv hunsolved =>
    (hsound.find_find_remove hpick hvariable (by
      rw [← Bool.not_eq_true, unsolved_beq]
      exact hv) (by rw [unknown_plain, ← Bool.not_eq_false]; exact hunsolved)).1
  refine .inr ⟨hunsolved ha h.1, ?_⟩
  rw [← hfind ha (hunsolved ha h.1), ← hfind hb (hunsolved hb h.symm.1)]
  exact Partition.find_congr h.2

theorem Shut.remove (h : Shut types inside) (hsound : types.Sound plainShape good)
    {pick : Ty → Ty → Ty} (hpick : plainShape.Picks pick) (removed : Nat) :
    Shut (types.remove (.unsolved removed .type) pick) inside where
  inner hv hsolved hw := by
    obtain ⟨hold, hsolution⟩ := solved_of_remove hsound unknown_plain hpick hsolved
    rw [hsolution] at hw
    exact h.inner hv hold hw
  mates ha hmates := by
    rcases mates_remove hsound hpick hmates with rfl | hmates
    · exact ha
    · exact h.mates ha hmates

variable {other : Ty}

/-- Solving a variable from outside leads out of the variables inside only when it is merged with
one of them. -/
theorem Merge.shut (h : Merge types types' id other) (hshut : Shut types inside) (hid : ¬inside id)
    (hother : ∀ o kind, other = .unsolved o kind → Solved types o) : Shut types' inside where
  inner {v w} hv hsolved hw := by
    by_cases hold : Solved types v
    · rw [(h.kept hold).2] at hw
      exact hshut.inner hv hold hw
    · exact absurd (hshut.mates hv (h.solved hsolved hold).1.symm) hid
  mates ha hmates := by
    rcases h.mates hmates with hmates | ⟨⟨o, kind, heq, hunsolved⟩, -⟩
    · exact hshut.mates ha hmates
    · exact absurd (hother o kind heq) hunsolved

/-- A variable from outside that is merged with one inside comes inside with its class. -/
theorem Merge.shut_mates {o : Nat} {kind : Kind} (h : Merge types types' id (.unsolved o kind))
    (hshut : Shut types inside) (ho : inside o) (hunsolved : ¬Solved types o) :
    Shut types' fun v => inside v ∨ Mates types id v where
  inner {v w} hv hsolved hw := by
    by_cases hold : Solved types v
    · rw [(h.kept hold).2] at hw
      rcases hv with hv | hmates
      · exact .inl (hshut.inner hv hold hw)
      · exact absurd hold hmates.symm.1
    · have hsolution := (h.solved hsolved hold).2
      rw [Solved, ← solution, hsolution] at hsolved
      exact absurd ((solved_iff kind).2 hsolved) hunsolved
  mates {a b} ha hmates := by
    rcases h.mates hmates with hmates | ⟨-, hboth⟩
    · exact ha.imp (hshut.mates · hmates) (·.trans hmates)
    · rcases hboth b (.inr rfl) with hb | ⟨_, _, heq, hb⟩
      · exact .inr hb
      · cases heq
        exact .inl (hshut.mates ho hb)

end Shut

end Ty

end PolyFront
