import PolyFront.Proofs.Grounding.Parted

/-!
# Solving kinds without a check

The kind of a placeholder is solved by the kind of the type that takes its place, and nobody looks
whether the variable occurs there.  It is enough that the solution does not mention it.
-/

namespace PolyFront

namespace Kind

variable {params : Nat → Prop} {shown : List Kind} {kinds : Partition Kind} {kind : Kind}
  {id created : Nat} {pick : Kind → Kind → Kind}

/-- What represents a kind that is no variable is none. -/
theorem solid_find (h : Acyclic created kinds) (hsolid : shape.unknown kind = false) :
    shape.unknown (kinds.find kind) = false := by
  cases hclass : kinds.classOf? kind with
  | none => rwa [Partition.find_of_absent hclass]
  | some c =>
    rw [Partition.find_of_classOf? hclass, ← Bool.not_eq_true]
    intro hunknown
    obtain ⟨hc, hhas⟩ := Partition.mem_of_classOf? hclass
    obtain ⟨a, ha, heq⟩ := Class.has_iff.1 hhas
    rw [shape.unknown_congr heq, (h.sound.ofUnknown c hc hunknown).1 a ha] at hsolid
    cases hsolid

/-- A variable that is merged with a kind takes on what represents the kind. -/
theorem find_union_solid (h : Acyclic created kinds) (hpick : shape.Picks pick)
    (hid : id < created) (hfinal : kinds.Final (.unsolved id)) (hkind : kind.Proper created)
    (hsolid : shape.unknown kind = false) (v : Nat) :
    (kinds.union (.unsolved id) kind pick).find (.unsolved v) =
      if kinds.find (.unsolved v) = .unsolved id then kinds.find kind
      else kinds.find (.unsolved v) := by
  have hprepared := h.sound.prepared (proper_unsolved.2 hid) hkind
  obtain ⟨⟨l, hl⟩, r, hr⟩ := Partition.exists_classOf?_prepared kinds (.unsolved id) kind
  have hfound := fun a => eq_of_beq (Partition.find_prepared_beq kinds (.unsolved id) kind a)
  have hlrep : l.representative = .unsolved id := by
    rw [← Partition.find_of_classOf? hl, hfound, final_iff.1 hfinal]
  have hrrep : r.representative = kinds.find kind := by
    rw [← Partition.find_of_classOf? hr, hfound]
  have hrsolid : shape.unknown r.representative = false := hrrep ▸ solid_find h hsolid
  have hlr : l ≠ r := by
    rintro rfl
    rw [hlrep] at hrsolid
    cases hrsolid
  have hrepresented : ∀ {b c}, (kinds.prepared (.unsolved id) kind).classOf? b = some c →
      c.Has (.unsolved v) → kinds.find (.unsolved v) = c.representative := by
    intro b c hc hhas
    rw [← hfound, Partition.find_of_classOf?
      (Partition.classOf?_eq_some hprepared.distinct (Partition.mem_of_classOf? hc).1 hhas)]
  rcases Partition.classOf?_union pick h.sound.distinct hl hr hlr (.unsolved v) with
    ⟨hhas, hclass⟩ | ⟨hnot, hclass⟩
  · have hpicked : pick l.representative r.representative = kinds.find kind := by
      rw [hlrep, hpick.solved rfl hrsolid, hrrep]
    rw [Partition.find_of_classOf? hclass, Class.merged]
    dsimp only
    rw [hpicked]
    rcases hhas with hlv | hrv
    · rw [if_pos ((hrepresented hl hlv).trans hlrep)]
    · rw [hrepresented hr hrv, hrrep, ite_self]
  · have hne : kinds.find (.unsolved v) ≠ .unsolved id := by
      intro heq
      refine hnot (.inl (hprepared.has_of_find hl (by rw [hlrep]; exact BEq.refl _) rfl ?_))
      rw [hfound, heq]
      exact BEq.refl _
    rw [if_neg hne, Partition.find, hclass]
    exact hfound _

section Solid

variable (h : Acyclic created kinds) (hpick : shape.Picks pick) (hid : id < created)
  (hfinal : kinds.Final (.unsolved id)) (hkind : kind.Proper created)
  (hsolid : shape.unknown kind = false)
  (hnot : id ∉ ((kinds.find kind).substitute kinds).unknowns)

include h hpick hid hfinal hkind hsolid hnot

/-- Solutions stay acyclic when a variable is solved by a kind whose solution does not mention
it. -/
theorem Acyclic.union_solid : Acyclic created (kinds.union (.unsolved id) kind pick) := by
  have hfind := find_union_solid h hpick hid hfinal hkind hsolid
  have hunknown : shape.unknown (kinds.find (.unsolved id)) = true := by
    rw [final_iff.1 hfinal]
    rfl
  refine ⟨h.sound.union hpick (proper_unsolved.2 hid) hkind hunknown, ⟨fun v => ?_⟩⟩
  -- A variable whose solution does not mention the solved one meets what it met before.
  have hapart : ∀ v, id ∉ (substitute kinds (.unsolved v)).unknowns →
      Acc (Within (kinds.union (.unsolved id) kind pick)) v := by
    intro v
    induction v using h.wellFounded.induction with
    | h v ih =>
      refine fun hv => ⟨v, fun w hw => ?_⟩
      have hsame : (kinds.union (.unsolved id) kind pick).find (.unsolved v) =
          kinds.find (.unsolved v) := by
        rw [hfind, if_neg]
        intro heq
        refine hv ?_
        rw [← substitute_find h.wellFounded, heq, (final_iff_substitute h.wellFounded).1 hfinal]
        simp
      have hwithin := within_of_find_eq hsame hw
      refine ih w hwithin fun hmem => hv ?_
      rw [← substitute_find h.wellFounded]
      exact mem_unknowns_substitute.2 ⟨w, hwithin.2, hmem⟩
  induction v using h.wellFounded.induction with
  | h v ih =>
    refine ⟨v, fun w hw => ?_⟩
    by_cases heq : kinds.find (.unsolved v) = .unsolved id
    · have hmem := hw.2
      rw [hfind, if_pos heq] at hmem
      exact hapart w fun hin => hnot (mem_unknowns_substitute.2 ⟨w, hmem, hin⟩)
    · have hsame := hfind v
      rw [if_neg heq] at hsame
      exact ih w (within_of_find_eq hsame hw)

/-- Solving a variable replaces it by the full solution. -/
theorem substitute_union_solid (other : Kind) :
    other.substitute (kinds.union (.unsolved id) kind pick) =
      (other.substitute kinds).bind (single id ((kinds.find kind).substitute kinds)) := by
  have hfind := find_union_solid h hpick hid hfinal hkind hsolid
  have hunion := (h.union_solid hpick hid hfinal hkind hsolid hnot).wellFounded
  suffices hall : ∀ v, substitute (kinds.union (.unsolved id) kind pick) (.unsolved v) =
      (substitute kinds (.unsolved v)).bind (single id ((kinds.find kind).substitute kinds)) by
    rw [substitute_eq_bind, substitute_eq_bind kinds other, bind_bind]
    exact bind_congr fun v _ => hall v
  intro v
  induction v using hunion.induction with
  | h v ih =>
    have hinner : ∀ solution : Kind, (∀ w ∈ solution.unknowns,
        Within (kinds.union (.unsolved id) kind pick) w v) →
        solution.substitute (kinds.union (.unsolved id) kind pick) =
          (solution.substitute kinds).bind (single id ((kinds.find kind).substitute kinds)) := by
      intro solution hwithin
      rw [substitute_eq_bind, substitute_eq_bind kinds solution, bind_bind]
      exact bind_congr fun w hw => ih w (hwithin w hw)
    by_cases heq : kinds.find (.unsolved v) = .unsolved id
    · have hfound := hfind v
      rw [if_pos heq] at hfound
      have hsolved : ¬(kinds.union (.unsolved id) kind pick).Final (.unsolved v) := by
        intro hself
        have hsolid' := solid_find h hsolid
        rw [← hfound, final_iff.1 hself] at hsolid'
        cases hsolid'
      rw [← substitute_find hunion, hfound, hinner _ fun w hw => ⟨hsolved, by rwa [hfound]⟩,
        bind_single_of_not_mem hnot, ← substitute_find h.wellFounded, heq,
        (final_iff_substitute h.wellFounded).1 hfinal, bind_unsolved, single_self]
    · have hfound := hfind v
      rw [if_neg heq] at hfound
      by_cases hself : kinds.Final (.unsolved v)
      · have hne : v ≠ id := by
          rintro rfl
          exact heq (final_iff.1 hself)
        rw [(final_iff_substitute h.wellFounded).1 hself, bind_unsolved, single_of_ne hne]
        exact (final_iff_substitute hunion).1 (final_iff.2 (hfound.trans (final_iff.1 hself)))
      · rw [← substitute_find hunion, hfound, ← substitute_find h.wellFounded]
        refine hinner _ fun w hw => ⟨fun hfinal' => hself ?_, by rwa [hfound]⟩
        exact final_iff.2 (hfound.symm.trans (final_iff.1 hfinal'))

end Solid

end Kind

end PolyFront
