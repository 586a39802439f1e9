import PolyFront.Proofs.Grounding.Defaulted

/-!
# Solutions that stay recurring

Merging the class of a variable without a solution with that of another type gives a solution to the
variables of that class, or none if the other type is such a variable too, and changes no solution
that there was.  Afterwards a variable that is met from its own solution still stands there, as long
as the new solution mentions every variable that has it as its solution and is met from it.
-/

namespace PolyFront

namespace Ty

variable {types types' : Partition Ty} {id : Nat} {other : Ty}

/-- Variables without a solution that are in one class. -/
def Mates (types : Partition Ty) (a b : Nat) : Prop :=
  ¬Solved types a ∧ (types.find (.unsolved a .type) == types.find (.unsolved b .type)) = true

theorem Mates.symm {a b : Nat} (h : Mates types a b) : Mates types b a :=
  ⟨fun hsolved => h.1 (by rw [Solved, shape.unknown_congr h.2]; exact hsolved), BEq.symm h.2⟩

theorem Mates.trans {a b c : Nat} (h : Mates types a b) (h' : Mates types b c) : Mates types a c :=
  ⟨h.1, BEq.trans h.2 h'.2⟩

/-- Two variables that stand for themselves are not in one class. -/
theorem Mates.eq {a b : Nat} (h : Mates types a b) (ha : IsFinal types a) (hb : IsFinal types b) :
    a = b :=
  unsolved_beq.1 (BEq.trans (BEq.symm ha) (BEq.trans h.2 hb))

/-- The classes of a variable that stands for itself and of another type became one. -/
structure Merge (types types' : Partition Ty) (id : Nat) (other : Ty) : Prop where
  kept : ∀ {v}, Solved types v → Solved types' v ∧ solution types' v = solution types v
  solved : ∀ {v}, Solved types' v → ¬Solved types v →
    Mates types id v ∧ solution types' v = types.find other
  final : ∀ {v}, IsFinal types v → v ≠ id → (types.find other == .unsolved v .type) = false →
    IsFinal types' v
  mates : ∀ {a b}, Mates types' a b → Mates types a b ∨
    (∃ o kind, other = .unsolved o kind ∧ ¬Solved types o) ∧
      ∀ c, c = a ∨ c = b → Mates types id c ∨ ∃ o kind, other = .unsolved o kind ∧ Mates types o c

section Merge

variable {good : Ty → Prop} {partition : Partition Ty} {c d : Class Ty} {kind : Kind} {chosen : Ty}

/-- One type stands for the classes of two elements, which were added if need be: of a variable
that stands for itself, and of another type, whose representative stays if it is solved. -/
structure Joins (good : Ty → Prop) (types partition types' : Partition Ty) (id : Nat) (kind : Kind)
    (other : Ty) (c d : Class Ty) (chosen : Ty) : Prop where
  sound : partition.Sound plainShape good
  found : ∀ type, partition.find type = types.find type ∨
    types.classOf? type = none ∧ (partition.find type == type) = true
  isFinal : IsFinal types id
  foundOther : partition.find other = types.find other
  left : partition.classOf? (.unsolved id kind) = some c
  right : partition.classOf? other = some d
  solid : shape.unknown d.representative = false → chosen = d.representative
  unsolved : shape.unknown d.representative = true →
    chosen = c.representative ∨ chosen = d.representative
  classes : ∀ type, (c.Has type ∨ d.Has type) ∧ types'.find type = chosen ∨
    ¬(c.Has type ∨ d.Has type) ∧ types'.find type = partition.find type

namespace Joins

variable (h : Joins good types partition types' id kind other c d chosen)
include h

theorem find_beq (type : Ty) : (partition.find type == types.find type) = true := by
  rcases h.found type with heq | ⟨habsent, heq⟩
  · rw [heq]
    exact BEq.refl _
  · rw [Partition.find_of_absent habsent]
    exact heq

theorem find_eq_solution {v : Nat} (hv : Solved types v) :
    partition.find (.unsolved v .type) = solution types v := by
  rcases h.found (.unsolved v .type) with heq | ⟨habsent, -⟩
  · exact heq
  · rw [Solved, Partition.find_of_absent habsent] at hv
    cases hv

theorem left_beq : (c.representative == .unsolved id kind) = true := by
  rw [← Partition.find_of_classOf? h.left]
  exact BEq.trans (h.find_beq _) (final_unsolved.2 h.isFinal)

theorem right_eq : d.representative = types.find other := by
  rw [← Partition.find_of_classOf? h.right, h.foundOther]

theorem find_of_has {e : Class Ty} {type : Ty} (he : e ∈ partition.classes) (hhas : e.Has type) :
    partition.find type = e.representative :=
  Partition.find_of_classOf? (Partition.classOf?_eq_some h.sound.distinct he hhas)

theorem find_left {type : Ty} (hhas : c.Has type) : partition.find type = c.representative :=
  h.find_of_has (Partition.mem_of_classOf? h.left).1 hhas

theorem find_right {type : Ty} (hhas : d.Has type) : partition.find type = d.representative :=
  h.find_of_has (Partition.mem_of_classOf? h.right).1 hhas

/-- A class with an unsolved representative holds whatever that variable represents. -/
theorem has_of_find {e : Class Ty} {type : Ty} (he : e ∈ partition.classes)
    (hunknown : shape.unknown e.representative = true)
    (hfind : (partition.find type == e.representative) = true) : e.Has type :=
  h.sound.has_of_find (Partition.classOf?_eq_some h.sound.distinct he
    (h.sound.ofUnknown _ he hunknown).2) (BEq.refl _) hunknown hfind

theorem mates_left {v : Nat} (hv : c.Has (.unsolved v .type)) : Mates types id v := by
  refine ⟨not_solved_of_final h.isFinal, ?_⟩
  have hfind := h.find_beq (.unsolved v .type)
  rw [h.find_left hv] at hfind
  exact BEq.trans h.isFinal
    (BEq.trans (unsolved_beq.2 rfl) (BEq.trans (BEq.symm h.left_beq) hfind))

/-- If a variable represents the other type, the other type is such a variable. -/
theorem exists_variable (hunknown : shape.unknown d.representative = true) :
    ∃ o kind, other = .unsolved o kind ∧ ¬Solved types o := by
  obtain ⟨hdmem, hhas⟩ := Partition.mem_of_classOf? h.right
  obtain ⟨m, hm, heq⟩ := Class.has_iff.1 hhas
  have hotherUnknown := (h.sound.ofUnknown d hdmem hunknown).1 m hm
  rw [unknown_plain, ← shape.unknown_congr heq] at hotherUnknown
  obtain ⟨o, kind, rfl⟩ := unknown_iff.1 hotherUnknown
  refine ⟨o, kind, rfl, fun hsolved => ?_⟩
  rw [solved_iff kind, ← h.right_eq, hunknown] at hsolved
  cases hsolved

theorem mates_right {v : Nat} (hv : d.Has (.unsolved v .type))
    (hunknown : shape.unknown d.representative = true) :
    ∃ o kind, other = .unsolved o kind ∧ Mates types o v := by
  obtain ⟨o, kind, rfl, ho⟩ := h.exists_variable hunknown
  refine ⟨o, kind, rfl, ho, ?_⟩
  have hfind := h.find_beq (.unsolved v .type)
  rw [h.find_right hv, h.right_eq] at hfind
  exact BEq.trans (find_unsolved_beq types o .type kind) hfind

theorem unknown_chosen_iff :
    shape.unknown chosen = true ↔ shape.unknown d.representative = true := by
  refine ⟨fun hunknown => ?_, fun hunknown => ?_⟩
  · rw [← Bool.not_eq_false]
    intro hsolid
    rw [h.solid hsolid, hsolid] at hunknown
    cases hunknown
  · rcases h.unsolved hunknown with heq | heq
    · rw [heq, shape.unknown_congr h.left_beq]
      rfl
    · rw [heq, hunknown]

theorem solid_right (hsolid : shape.unknown chosen = false) :
    shape.unknown d.representative = false := by
  rw [← Bool.not_eq_true, ← h.unknown_chosen_iff, hsolid]
  exact Bool.noConfusion

theorem kept {v : Nat} (hv : Solved types v) :
    Solved types' v ∧ solution types' v = solution types v := by
  have hsolution : solution types' v = solution types v := by
    rcases h.classes (.unsolved v .type) with ⟨hin | hin, heq⟩ | ⟨-, heq⟩
    · exact absurd hv (h.mates_left hin).symm.1
    · have hrep := h.find_right hin
      rw [h.find_eq_solution hv] at hrep
      rw [solution, heq, hrep, h.solid]
      rw [← hrep]
      exact hv
    · rw [solution, heq, h.find_eq_solution hv]
  exact ⟨by rw [Solved, ← solution, hsolution]; exact hv, hsolution⟩

theorem solved {v : Nat} (hv : Solved types' v) (hnew : ¬Solved types v) :
    Mates types id v ∧ solution types' v = types.find other := by
  rcases h.classes (.unsolved v .type) with ⟨hin | hin, heq⟩ | ⟨-, heq⟩
  · refine ⟨h.mates_left hin, ?_⟩
    rw [Solved, heq] at hv
    rw [solution, heq, h.solid (h.solid_right hv), h.right_eq]
  · rw [Solved, heq] at hv
    refine absurd ?_ hnew
    have hfind := h.find_beq (.unsolved v .type)
    rw [h.find_right hin] at hfind
    rw [Solved, ← shape.unknown_congr hfind]
    exact h.solid_right hv
  · rw [Solved, heq, shape.unknown_congr (h.find_beq _)] at hv
    exact absurd hv hnew

theorem final {v : Nat} (hv : IsFinal types v) (hne : v ≠ id)
    (hnot : (types.find other == .unsolved v .type) = false) : IsFinal types' v := by
  rcases h.classes (.unsolved v .type) with ⟨hin | hin, heq⟩ | ⟨-, heq⟩
  · exact absurd ((h.mates_left hin).eq h.isFinal hv).symm hne
  · have hfind := h.find_beq (.unsolved v .type)
    rw [h.find_right hin, h.right_eq] at hfind
    rw [BEq.trans hfind hv] at hnot
    cases hnot
  · rw [IsFinal, Partition.Final, heq]
    exact BEq.trans (h.find_beq _) hv

/-- What the new class represents without a solution is in that class. -/
theorem has_of_chosen {type : Ty} (hunknown : shape.unknown chosen = true)
    (hfind : (types'.find type == chosen) = true) : c.Has type ∨ d.Has type := by
  rcases h.classes type with ⟨hin, -⟩ | ⟨-, heq⟩
  · exact hin
  rw [heq] at hfind
  have hright := h.unknown_chosen_iff.1 hunknown
  rcases h.unsolved hright with hrep | hrep
  · rw [hrep] at hunknown hfind
    exact .inl (h.has_of_find (Partition.mem_of_classOf? h.left).1 hunknown hfind)
  · rw [hrep] at hfind
    exact .inr (h.has_of_find (Partition.mem_of_classOf? h.right).1 hright hfind)

/-- Variables without a solution that become mates are both in the new class, or were mates. -/
theorem mates {a b : Nat} (hmates : Mates types' a b) : Mates types a b ∨
    (∃ o kind, other = .unsolved o kind ∧ ¬Solved types o) ∧
      ∀ v, v = a ∨ v = b → Mates types id v ∨ ∃ o kind, other = .unsolved o kind ∧
        Mates types o v := by
  obtain ⟨hunsolved, hsame⟩ := hmates
  have hunknown : shape.unknown (types'.find (.unsolved a .type)) = true := by
    rw [← Bool.not_eq_false]
    exact hunsolved
  have hboth : c.Has (.unsolved a .type) ∨ d.Has (.unsolved a .type) →
      c.Has (.unsolved b .type) ∨ d.Has (.unsolved b .type) →
      shape.unknown chosen = true → (∃ o kind, other = .unsolved o kind ∧ ¬Solved types o) ∧
        ∀ v, v = a ∨ v = b → Mates types id v ∨ ∃ o kind, other = .unsolved o kind ∧
          Mates types o v := by
    intro ha hb hchosen
    have hright := h.unknown_chosen_iff.1 hchosen
    refine ⟨h.exists_variable hright, ?_⟩
    rintro v (rfl | rfl)
    · exact ha.imp h.mates_left fun hin => h.mates_right hin hright
    · exact hb.imp h.mates_left fun hin => h.mates_right hin hright
  rcases h.classes (.unsolved a .type) with ⟨ha, heq⟩ | ⟨hout, heq⟩
  · rw [heq] at hunknown hsame
    exact .inr (hboth ha (h.has_of_chosen hunknown (BEq.symm hsame)) hunknown)
  · rcases h.classes (.unsolved b .type) with ⟨hb, heq'⟩ | ⟨-, heq'⟩
    · rw [heq'] at hsame
      exact absurd (h.has_of_chosen (shape.unknown_congr hsame ▸ hunknown) hsame) hout
    · rw [heq, heq'] at hsame
      exact .inl ⟨fun hsolved => hunsolved (h.kept hsolved).1,
        BEq.trans (BEq.symm (h.find_beq _)) (BEq.trans hsame (h.find_beq _))⟩

theorem merge : Merge types types' id other := ⟨h.kept, h.solved, h.final, h.mates⟩

end Joins

theorem find_prepared (types : Partition Ty) (left right type : Ty) :
    (types.prepared left right).find type = types.find type ∨
      types.classOf? type = none ∧ ((types.prepared left right).find type == type) = true := by
  have habsent : (types.add left).classOf? type = none → types.classOf? type = none := by
    rw [Partition.classOf?_add, Option.or_eq_none_iff]
    exact And.left
  rcases Partition.find_add (types.add left) right type with heq | ⟨hnone, hbeq, heq⟩
  · rcases Partition.find_add types left type with heq' | ⟨hnone, hbeq, heq'⟩
    · exact .inl (heq.trans heq')
    · refine .inr ⟨hnone, ?_⟩
      rw [Partition.prepared, heq, heq']
      exact BEq.symm hbeq
  · refine .inr ⟨habsent hnone, ?_⟩
    rw [Partition.prepared, heq]
    exact BEq.symm hbeq

/-- Adding two types leaves the representative of one of them alone, unless it is the other. -/
theorem find_prepared_self (types : Partition Ty) {left right type : Ty}
    (h : type = left ∧ (type == right) = false ∨ type = right ∧ (type == left) = false) :
    (types.prepared left right).find type = types.find type := by
  rcases Partition.find_add (types.add left) right type with heq | ⟨hnone, hbeq, heq⟩
  · rw [Partition.prepared, heq]
    rcases Partition.find_add types left type with heq' | ⟨hnone, hbeq, heq'⟩
    · exact heq'
    · rcases h with ⟨rfl, -⟩ | ⟨-, hne⟩
      · rw [heq', Partition.find_of_absent hnone]
      · rw [hbeq] at hne
        cases hne
  · rcases h with ⟨-, hne⟩ | ⟨rfl, -⟩
    · rw [hbeq] at hne
      cases hne
    · rw [Partition.classOf?_add, Option.or_eq_none_iff] at hnone
      rw [Partition.prepared, heq, Partition.find_of_absent hnone.1]

/-- Nothing but variables that stand for themselves is added. -/
theorem merge_prepared (types : Partition Ty) (id : Nat) (other left right : Ty) :
    Merge types (types.prepared left right) id other := by
  have hbeq : ∀ type, ((types.prepared left right).find type == types.find type) = true :=
    Partition.find_prepared_beq types left right
  have hsolved : ∀ {v}, Solved (types.prepared left right) v ↔ Solved types v := by
    intro v
    rw [Solved, shape.unknown_congr (hbeq _), Solved]
  refine ⟨fun {v} hv => ⟨hsolved.2 hv, ?_⟩, fun hv hnew => absurd (hsolved.1 hv) hnew,
    fun hv _ _ => BEq.trans (hbeq _) hv, fun {a b} hmates => .inl ⟨fun h => hmates.1 (hsolved.2 h),
      BEq.trans (BEq.symm (hbeq _)) (BEq.trans hmates.2 (hbeq _))⟩⟩
  rcases find_prepared types left right (.unsolved v .type) with heq | ⟨habsent, -⟩
  · exact heq
  · rw [Solved, Partition.find_of_absent habsent] at hv
    cases hv

variable {pick : Ty → Ty → Ty}

/-- Merging the class of a variable that stands for itself with that of a type. -/
theorem merge_union (hsound : types.Sound plainShape good)
    (hpick : ∀ a b, pick a b = a ∨ pick a b = b)
    (hunknown : ∀ {a b}, shape.unknown (pick a b) = true →
      shape.unknown a = true ∧ shape.unknown b = true)
    (hgood : good (.unsolved id kind)) (hgoodOther : good other) (hid : IsFinal types id)
    (hne : (other == .unsolved id kind) = false) :
    Merge types (types.union (.unsolved id kind) other pick) id other ∧
      Merge types (types.union other (.unsolved id kind) pick) id other := by
  have hcunknown : ∀ {left right : Ty} {c : Class Ty},
      (types.prepared left right).classOf? (.unsolved id kind) = some c →
      shape.unknown c.representative = true := by
    intro left right c hc
    rw [← Partition.find_of_classOf? hc, shape.unknown_congr
      (Partition.find_prepared_beq types left right _), shape.unknown_congr (final_unsolved.2 hid)]
    rfl
  constructor
  · obtain ⟨⟨c, hc⟩, d, hd⟩ := Partition.exists_classOf?_prepared types (.unsolved id kind) other
    by_cases hcd : c = d
    · obtain ⟨-, hunion⟩ | ⟨hnot, -⟩ := Partition.union_cases pick hsound.distinct hc hd
      · rw [hunion]
        exact merge_prepared types id other _ _
      · exact absurd hcd hnot
    refine Joins.merge ⟨hsound.prepared hgood hgoodOther, find_prepared types _ _, hid,
      find_prepared_self types (.inr ⟨rfl, hne⟩), hc, hd, fun hd' => ?_, fun _ => hpick _ _,
      fun type => ?_⟩
    · rcases hpick c.representative d.representative with heq | heq
      · have hboth := hunknown (by rw [heq]; exact hcunknown hc)
        rw [hboth.2] at hd'
        cases hd'
      · exact heq
    · rcases Partition.classOf?_union pick hsound.distinct hc hd hcd type with
        ⟨hin, hclass⟩ | ⟨hout, hclass⟩
      · exact .inl ⟨hin, Partition.find_of_classOf? hclass⟩
      · exact .inr ⟨hout, by rw [Partition.find, hclass]; rfl⟩
  · obtain ⟨⟨d, hd⟩, c, hc⟩ := Partition.exists_classOf?_prepared types other (.unsolved id kind)
    by_cases hdc : d = c
    · obtain ⟨-, hunion⟩ | ⟨hnot, -⟩ := Partition.union_cases pick hsound.distinct hd hc
      · rw [hunion]
        exact merge_prepared types id other _ _
      · exact absurd hdc hnot
    refine Joins.merge ⟨hsound.prepared hgoodOther hgood, find_prepared types _ _, hid,
      find_prepared_self types (.inl ⟨rfl, hne⟩), hc, hd, fun hd' => ?_,
      fun _ => (hpick _ _).symm, fun type => ?_⟩
    · rcases hpick d.representative c.representative with heq | heq
      · exact heq
      · have hboth := hunknown (by rw [heq]; exact hcunknown hc)
        rw [hboth.1] at hd'
        cases hd'
    · rcases Partition.classOf?_union pick hsound.distinct hd hc hdc type with
        ⟨hin, hclass⟩ | ⟨hout, hclass⟩
      · exact .inl ⟨hin.symm, Partition.find_of_classOf? hclass⟩
      · exact .inr ⟨fun h => hout h.symm, by rw [Partition.find, hclass]; rfl⟩

/-! ## What is met afterwards -/

variable {type : Ty}

/-- What is met afterwards was met before, if only from the new solution. -/
theorem Merge.meets (h : Merge types types' id other) {v : Nat} {kind : Kind}
    (hmeets : Meets types' type v kind) :
    Meets types type v kind ∨ Meets types (types.find other) v kind := by
  induction hmeets with
  | mention hmem => exact .inl (.mention hmem)
  | @step outer v outerKind kind houter hsolved hmem ih =>
    by_cases hold : Solved types outer
    · rw [(h.kept hold).2] at hmem
      exact ih.imp (Meets.step · hold hmem) (Meets.step · hold hmem)
    · rw [(h.solved hsolved hold).2] at hmem
      exact .inr (.mention hmem)

/-- A variable that is met from its own solution stands there, if the new solution mentions the
variables that have it for a solution and are met from it. -/
theorem Merge.recurring (h : Merge types types' id other) (hall : AllSpread types)
    (hagain : ∀ v, Mentions v (types.find other) → Solved types v → Mentions v (solution types v))
    (hnew : ∀ v kind, Solved types' v → solution types' v = types.find other →
      Meets types (types.find other) v kind → Mentions v (types.find other)) :
    Recurring types' := by
  intro v kind hsolved hmeets
  have hfromNew : ∀ {k}, Meets types (types.find other) v k → Solved types v →
      Mentions v (solution types v) := by
    intro k hmeets hold
    cases hmeets with
    | mention hmem => exact hagain v ⟨_, hmem⟩ hold
    | step _ houter hmem => exact (hall.of_solved houter).again ⟨_, hmem⟩ hold
  by_cases hold : Solved types v
  · obtain ⟨-, hsolution⟩ := h.kept hold
    rw [hsolution] at hmeets ⊢
    rcases h.meets hmeets with hmeets | hmeets
    · exact hall.recurring v kind hold hmeets
    · exact hfromNew hmeets hold
  · obtain ⟨-, hsolution⟩ := h.solved hsolved hold
    rw [hsolution] at hmeets ⊢
    rcases h.meets hmeets with hmeets | hmeets
    · exact hnew v kind hsolved hsolution hmeets
    · exact hnew v kind hsolved hsolution hmeets

/-- A solution that is spread out mentions whatever is met from it. -/
theorem Merge.recurring_of_spread (h : Merge types types' id other) (hall : AllSpread types)
    (hspread : Spread types (types.find other)) : Recurring types' :=
  h.recurring hall (fun _ hmentions hsolved => hspread.again hmentions hsolved)
    fun _ _ _ _ hmeets => hspread.mention_of_meets hmeets

end Merge

end Ty

end PolyFront
