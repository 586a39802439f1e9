import PolyFront.Proofs.Kinding.Ground
import PolyFront.Proofs.Unification.Terms

/-!
# What merging changes

Merging the classes of a variable and a kind that stand for themselves replaces one by the other
in every substitution, and changes nothing else.  What is removed from a partition is in no class
any more.
-/

namespace PolyFront

namespace Partition

variable {α : Type} [BEq α] [EquivBEq α] {shape : TermShape α} {good : α → Prop}
  {partition : Partition α} {left right : α} {pick : α → α → α}

/-- What a variable represents is in the class of that variable. -/
theorem Sound.has_of_find (h : Sound shape good partition) {a b : α} {c : Class α}
    (hclass : partition.classOf? b = some c) (hrep : (c.representative == b) = true)
    (hunknown : shape.unknown b = true) (hfind : (partition.find a == b) = true) : c.Has a := by
  obtain ⟨hc, hcb⟩ := mem_of_classOf? hclass
  cases ha : partition.classOf? a with
  | none =>
    rw [find_of_absent ha] at hfind
    exact (Class.has_congr hfind).2 hcb
  | some d =>
    obtain ⟨hd, hda⟩ := mem_of_classOf? ha
    rw [find_of_classOf? ha] at hfind
    have hdunknown : shape.unknown d.representative = true := by
      rw [shape.unknown_congr hfind, hunknown]
    have hdb : d.Has b := (Class.has_congr hfind).1 (h.ofUnknown d hd hdunknown).2
    obtain rfl := eq_of_has h.distinct hd hc hdb hcb
    exact hda

/-- Merging two elements that stand for themselves changes the representatives of what they
represent, and no others. -/
theorem Sound.find_union (h : Sound shape good partition) (hpick : shape.Picks pick)
    (hgoodLeft : good left) (hgoodRight : good right) (hunknown : shape.unknown left = true)
    (hleft : partition.Final left) (hright : partition.Final right)
    (hne : (left == right) = false) :
    ∃ l r, (l == left) = true ∧ (r == right) = true ∧ ∀ a,
      ((partition.union left right pick).find a ==
        if partition.find a == left || partition.find a == right then pick l r
        else partition.find a) = true := by
  have hprepared := h.prepared hgoodLeft hgoodRight
  obtain ⟨⟨l, hl⟩, r, hr⟩ := exists_classOf?_prepared partition left right
  have hfound := find_prepared_beq partition left right
  have hlrep : (l.representative == left) = true := by
    rw [← find_of_classOf? hl]
    exact BEq.trans (hfound left) hleft
  have hrrep : (r.representative == right) = true := by
    rw [← find_of_classOf? hr]
    exact BEq.trans (hfound right) hright
  have hlr : l ≠ r := by
    rintro rfl
    rw [BEq.trans (BEq.symm hlrep) hrrep] at hne
    cases hne
  refine ⟨l.representative, r.representative, hlrep, hrrep, fun a => ?_⟩
  have hrepresented : ∀ {c}, (partition.prepared left right).classOf? a = some c →
      (partition.find a == c.representative) = true := by
    intro c hc
    rw [← find_of_classOf? hc]
    exact BEq.symm (hfound a)
  have hclassOf : ∀ {b c}, (partition.prepared left right).classOf? b = some c → c.Has a →
      (partition.prepared left right).classOf? a = some c := fun hc ha =>
    classOf?_eq_some hprepared.distinct (mem_of_classOf? hc).1 ha
  rcases classOf?_union pick h.distinct hl hr hlr a with ⟨hhas, hclass⟩ | ⟨hnot, hclass⟩
  · have hcase : (partition.find a == left || partition.find a == right) = true := by
      rw [Bool.or_eq_true]
      rcases hhas with hla | hra
      · exact .inl (BEq.trans (hrepresented (hclassOf hl hla)) hlrep)
      · exact .inr (BEq.trans (hrepresented (hclassOf hr hra)) hrrep)
    rw [if_pos hcase, find_of_classOf? hclass, Class.merged]
    exact BEq.refl _
  · have hsame : ((partition.union left right pick).find a == partition.find a) = true := by
      rw [find, hclass]
      exact hfound a
    split
    · rename_i hcase
      rw [Bool.or_eq_true] at hcase
      rcases hcase with hleft' | hright'
      · have hla := hprepared.has_of_find hl hlrep hunknown (BEq.trans (hfound a) hleft')
        exact (hnot (.inl hla)).elim
      -- A solution may represent several classes, but then it is picked.
      cases hsolved : shape.unknown right with
      | true =>
        have hra := hprepared.has_of_find hr hrrep hsolved (BEq.trans (hfound a) hright')
        exact (hnot (.inr hra)).elim
      | false =>
        rw [hpick.solved]
        · exact BEq.trans hsame (BEq.trans hright' (BEq.symm hrrep))
        · rw [shape.unknown_congr hlrep, hunknown]
        · rw [shape.unknown_congr hrrep, hsolved]
    · exact hsame

/-- What is removed is in no class. -/
theorem classOf?_removeAll (h : Distinct partition.elements) {removed : List α} {a : α}
    (ha : Among removed a ∨ partition.classOf? a = none) :
    (partition.removeAll pick removed).classOf? a = none := by
  induction removed generalizing partition with
  | nil =>
    rcases ha with ⟨_, hmem, -⟩ | habsent
    · cases hmem
    · exact habsent
  | cons element rest ih =>
    refine ih (distinct_remove h element pick) ?_
    rw [among_cons] at ha
    cases heq : a == element with
    | true => exact .inr (classOf?_remove_self h pick heq)
    | false =>
      rw [heq] at ha
      rcases ha with (hfalse | hrest) | habsent
      · cases hfalse
      · exact .inl hrest
      · refine .inr ?_
        rw [classOf?_remove h pick heq, habsent]
        rfl

end Partition

namespace Kind

variable {created : Nat} {kinds kinds' : Partition Kind}

theorem final_iff_substitute (h : WellFounded (Within kinds)) {id : Nat} :
    kinds.Final (.unsolved id) ↔ substitute kinds (.unsolved id) = .unsolved id := by
  refine ⟨fun hfinal => ?_, fun heq => ?_⟩
  · rw [substitute_unsolved h, if_pos (final_iff.1 hfinal)]
  · have hmem : id ∈ (substitute kinds (.unsolved id)).unknowns := by
      rw [heq]
      simp
    exact final_of_mem_substitute h hmem

/-- One representative is replaced by another kind, and so it is in every substitution. -/
theorem substitute_replaced (h : WellFounded (Within kinds)) (h' : WellFounded (Within kinds'))
    {loser : Nat} {winner : Kind} (hloser : kinds.Final (.unsolved loser))
    (hwinner : ∀ v ∈ winner.unknowns, v ≠ loser ∧ kinds.Final (.unsolved v))
    (hfind : ∀ id, kinds'.find (.unsolved id) = if kinds.find (.unsolved id) = .unsolved loser
      then winner else kinds.find (.unsolved id)) (id : Nat) :
    substitute kinds' (.unsolved id) =
      (substitute kinds (.unsolved id)).bind (single loser winner) := by
  have hself : winner.substitute kinds' = winner := by
    refine substitute_of_final h' fun v hv => final_iff.2 ?_
    obtain ⟨hne, hfinal⟩ := hwinner v hv
    have hv := final_iff.1 hfinal
    rw [hfind, hv, if_neg]
    rintro heq
    cases heq
    exact hne rfl
  induction id using h.induction with
  | h id ih =>
    rw [← substitute_find h', hfind, ← substitute_find h]
    split
    · rename_i heq
      rw [heq, (final_iff_substitute h).1 hloser, bind_unsolved, single_self, hself]
    · rename_i hne
      by_cases hfinal : kinds.find (.unsolved id) = .unsolved id
      · have hid : id ≠ loser := by
          rintro rfl
          exact hne hfinal
        have hfound := hfind id
        rw [if_neg hne, hfinal] at hfound
        rw [hfinal, (final_iff_substitute h).1 (final_iff.2 hfinal),
          (final_iff_substitute h').1 (final_iff.2 hfound), bind_unsolved, single_of_ne hid]
      · rw [substitute_eq_bind, substitute_eq_bind kinds, bind_bind]
        refine bind_congr fun inner hinner => ?_
        exact ih inner ⟨fun hself => hfinal (final_iff.1 hself), hinner⟩

/-- The same representatives give the same substitution. -/
theorem substitute_of_find_eq (h : WellFounded (Within kinds)) (h' : WellFounded (Within kinds'))
    (hfind : ∀ id, kinds'.find (.unsolved id) = kinds.find (.unsolved id)) (kind : Kind) :
    kind.substitute kinds' = kind.substitute kinds := by
  rw [← substitute_absorbs h h' (fun id _ => hfind id) kind]
  refine substitute_of_final h' fun v hv => ?_
  rw [final_iff, hfind]
  exact final_iff.1 (final_of_mem_substitute h hv)

/-- What can solve a variable stands for itself. -/
theorem Solution.final (h : Acyclic created kinds) {id : Nat} {kind : Kind}
    (hsolution : Solution kinds id kind) : kinds.Final kind := by
  cases hsolution with
  | type =>
    have hleaf : shape.leaf (kinds.find .type) = true := h.sound.leaf_find rfl
    exact hleaf
  | unknown _ hfinal => exact hfinal
  | compound _ hnew _ => exact final_iff.2 (Partition.find_of_absent hnew)

/-- Solving a variable replaces it by the kind, or another variable by it. -/
theorem Acyclic.substitute_union (h : Acyclic created kinds) {id : Nat} {kind : Kind}
    {pick : Kind → Kind → Kind} (hpick : shape.Picks pick) (hid : id < created)
    (hfinal : kinds.Final (.unsolved id)) (hkind : kind.Proper created)
    (hsolution : Solution kinds id kind) :
    (pick (.unsolved id) kind = kind → ∀ v,
      substitute (kinds.union (.unsolved id) kind pick) (.unsolved v) =
        (substitute kinds (.unsolved v)).bind (single id kind)) ∧
    ∀ other, kind = .unsolved other → pick (.unsolved id) kind = .unsolved id → ∀ v,
      substitute (kinds.union (.unsolved id) kind pick) (.unsolved v) =
        (substitute kinds (.unsolved v)).bind (single other (.unsolved id)) := by
  have hunion := h.solve hpick hid hfinal hkind hsolution
  have hself := hsolution.final h
  have hmentions : ∀ v ∈ kind.unknowns, v ≠ id ∧ kinds.Final (.unsolved v) := by
    cases hsolution with
    | type => simp
    | @unknown other hne hother =>
      intro v hv
      obtain rfl : v = other := by simpa using hv
      exact ⟨hne, hother⟩
    | compound _ _ hmentions => exact hmentions
  have hne : ((.unsolved id : Kind) == kind) = false := by
    rw [beq_eq_false_iff_ne]
    rintro rfl
    exact (hmentions id (by simp)).1 rfl
  obtain ⟨l, r, hl, hr, hfind⟩ := h.sound.find_union hpick (proper_unsolved.2 hid) hkind rfl hfinal
    hself hne
  rw [eq_of_beq hl, eq_of_beq hr] at hfind
  replace hfind : ∀ v, (kinds.union (.unsolved id) kind pick).find (.unsolved v) =
      if kinds.find (.unsolved v) = .unsolved id ∨ kinds.find (.unsolved v) = kind
      then pick (.unsolved id) kind else kinds.find (.unsolved v) := by
    intro v
    rw [eq_of_beq (hfind (.unsolved v))]
    simp only [Bool.or_eq_true, beq_iff_eq]
  refine ⟨fun hpicked => ?_, fun other hother hpicked => ?_⟩
  · refine substitute_replaced h.wellFounded hunion.wellFounded hfinal hmentions fun v => ?_
    rw [hfind, hpicked]
    by_cases hv : kinds.find (.unsolved v) = .unsolved id
    · rw [if_pos hv, if_pos (.inl hv)]
    · rw [if_neg hv]
      split
      · rename_i heq
        exact (heq.resolve_left hv).symm
      · rfl
  · subst hother
    have hid' : ∀ w ∈ (Kind.unsolved id).unknowns, w ≠ other ∧ kinds.Final (.unsolved w) := by
      intro w hw
      obtain rfl : w = id := by simpa using hw
      exact ⟨fun heq => (hmentions other (by simp)).1 heq.symm, hfinal⟩
    refine substitute_replaced h.wellFounded hunion.wellFounded hself hid' fun v => ?_
    rw [hfind, hpicked]
    by_cases hv : kinds.find (.unsolved v) = .unsolved other
    · rw [if_pos hv, if_pos (.inr hv)]
    · rw [if_neg hv]
      split
      · rename_i heq
        exact (heq.resolve_right hv).symm
      · rfl

end Kind

end PolyFront
