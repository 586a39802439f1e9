import PolyFront.Proofs.Solutions.Sound

/-!
# Dropping variables

What is left of a partition when variables are removed from it one after the other.  Elements
that a kept element represents keep their representative.  A class that a removed variable
represents gets another of its variables as representative, and all that is left of the class
agrees on which.
-/

namespace PolyFront

namespace Partition

variable {α : Type} [BEq α]

/-- The element counts as the same as one of the list. -/
def Among (items : List α) (a : α) : Prop := ∃ item ∈ items, (a == item) = true

theorem among_cons {item : α} {items : List α} {a : α} :
    Among (item :: items) a ↔ (a == item) = true ∨ Among items a := by
  simp only [Among, List.mem_cons, exists_eq_or_imp]

variable [EquivBEq α] {shape : TermShape α} {good : α → Prop} {partition : Partition α}

theorem find_congr {a b : α} (h : (a == b) = true) :
    (partition.find a == partition.find b) = true := by
  have hclass : partition.classOf? a = partition.classOf? b := classOf?_congr h
  cases hb : partition.classOf? b with
  | none =>
    rw [hb] at hclass
    rw [find_of_absent hclass, find_of_absent hb]
    exact h
  | some c =>
    rw [hb] at hclass
    rw [find_of_classOf? hclass, find_of_classOf? hb]
    exact BEq.refl _

/-! ## Removing one variable -/

section Remove

variable {element : α} {pick : α → α → α}

/-- A removed variable does not represent anything else. -/
theorem Sound.find_remove_ne (h : Sound shape good partition) (hpick : shape.Picks pick)
    (helement : shape.unknown element = true) {a : α} (ha : (a == element) = false) :
    ((partition.remove element pick).find a == element) = false := by
  have hsound := h.remove hpick helement
  rw [← Bool.not_eq_true]
  intro heq
  cases hclass : (partition.remove element pick).classOf? a with
  | none =>
    rw [find_of_absent hclass, ha] at heq
    cases heq
  | some c =>
    obtain ⟨hc, -⟩ := mem_of_classOf? hclass
    rw [find_of_classOf? hclass] at heq
    have hunknown : shape.unknown c.representative = true := by
      rw [shape.unknown_congr heq, helement]
    have hpresent := classOf?_eq_some hsound.distinct hc (hsound.ofUnknown c hc hunknown).2
    rw [classOf?_remove_self h.distinct pick heq] at hpresent
    cases hpresent

/-- A new representative is of the class that it represents. -/
theorem Sound.find_find_remove (h : Sound shape good partition) (hpick : shape.Picks pick)
    (helement : shape.unknown element = true) {a : α} (ha : (a == element) = false)
    (hunknown : shape.unknown (partition.find a) = true) :
    partition.find ((partition.remove element pick).find a) = partition.find a ∧
      shape.unknown ((partition.remove element pick).find a) = true := by
  rcases h.find_remove hpick helement a with heq | ⟨hself, -⟩ | ⟨-, hvariable, -, heq⟩
  · rw [heq]
    exact ⟨h.find_find hunknown, hunknown⟩
  · rw [ha] at hself
    cases hself
  · exact ⟨heq, hvariable⟩

/-- What had one representative has one representative still. -/
theorem Sound.find_remove_congr (h : Sound shape good partition) (hpick : shape.Picks pick)
    (helement : shape.unknown element = true) {a b : α} (ha : (a == element) = false)
    (hb : (b == element) = false) (hab : (partition.find a == partition.find b) = true) :
    ((partition.remove element pick).find a == (partition.remove element pick).find b) = true := by
  -- The removed variable is in the class of everything that it represents.
  have hclass : ∀ {x}, (x == element) = false → (partition.find x == element) = true →
      ∃ c ∈ partition.classes, c.Has element ∧ partition.classOf? x = some c := by
    intro x hx hrep
    cases hold : partition.classOf? x with
    | none =>
      rw [find_of_absent hold, hx] at hrep
      cases hrep
    | some c =>
      obtain ⟨hc, -⟩ := mem_of_classOf? hold
      rw [find_of_classOf? hold] at hrep
      have hunknown : shape.unknown c.representative = true := by
        rw [shape.unknown_congr hrep, helement]
      exact ⟨c, hc, (Class.has_congr hrep).1 (h.ofUnknown c hc hunknown).2, rfl⟩
  have hstays : ∀ {x}, (x == element) = false → (partition.find x == element) = false →
      (partition.remove element pick).find x = partition.find x := by
    intro x hx hrep
    rcases h.find_remove hpick helement x with heq | ⟨hself, -⟩ | ⟨hself, -⟩
    · exact heq
    · rw [hx] at hself
      cases hself
    · rw [hrep] at hself
      cases hself
  cases hrep : partition.find a == element with
  | false =>
    have hrep' : (partition.find b == element) = false := by
      rw [← hrep]
      exact (BEq.congr_left hab).symm
    rw [hstays ha hrep, hstays hb hrep']
    exact hab
  | true =>
    obtain ⟨c, hc, hcelement, hca⟩ := hclass ha hrep
    obtain ⟨d, hd, hdelement, hdb⟩ := hclass hb (BEq.trans (BEq.symm hab) hrep)
    obtain rfl : c = d := eq_of_has h.distinct hc hd hcelement hdelement
    have hremoved := classOf?_remove h.distinct pick ha
    have hremoved' := classOf?_remove h.distinct pick hb
    obtain ⟨e, hce⟩ := Class.exists_without? pick (mem_of_classOf? hca).2 ha
    rw [hca, Option.bind_some, hce] at hremoved
    rw [hdb, Option.bind_some, hce] at hremoved'
    rw [find_of_classOf? hremoved, find_of_classOf? hremoved']
    exact BEq.refl _

theorem Sound.final_remove (h : Sound shape good partition) (hpick : shape.Picks pick)
    (helement : shape.unknown element = true) {a : α} (ha : partition.Final a) :
    (partition.remove element pick).Final a := by
  have hself : (a == element) = true → (partition.remove element pick).Final a := by
    intro heq
    rw [Final, find_of_absent (classOf?_remove_self h.distinct pick heq)]
    exact BEq.refl _
  rcases h.find_remove hpick helement a with heq | ⟨heq, -⟩ | ⟨heq, -⟩
  · rw [Final, heq]
    exact ha
  · exact hself heq
  · exact hself (BEq.trans (BEq.symm ha) heq)

end Remove

/-! ## Removing several variables -/

/-- Take elements out one after the other. -/
def removeAll (partition : Partition α) (pick : α → α → α) (removed : List α) : Partition α :=
  removed.foldl (fun partition element => partition.remove element pick) partition

/-- How the representatives of kept elements change when others are removed. -/
structure Drops (shape : TermShape α) (removed : List α) (before after : Partition α) :
    Prop where
  stays : ∀ {a}, ¬Among removed a → ¬Among removed (before.find a) →
    after.find a = before.find a
  heir : ∀ {a}, ¬Among removed a → Among removed (before.find a) →
    shape.unknown (after.find a) = true ∧ ¬Among removed (after.find a) ∧
      (before.find (after.find a) == before.find a) = true
  same : ∀ {a b}, ¬Among removed a → ¬Among removed b →
    (before.find a == before.find b) = true → (after.find a == after.find b) = true
  final : ∀ {a}, before.Final a → after.Final a

theorem Sound.drops {removed : List α} (h : Sound shape good partition) {pick : α → α → α}
    (hpick : shape.Picks pick) (hremoved : ∀ element ∈ removed, shape.unknown element = true) :
    Drops shape removed partition (partition.removeAll pick removed) := by
  induction removed generalizing partition with
  | nil =>
    have hnone : ∀ a : α, ¬Among [] a := by
      rintro a ⟨_, hmem, -⟩
      cases hmem
    exact ⟨fun _ _ => rfl, fun _ hamong => (hnone _ hamong).elim, fun _ _ hab => hab,
      fun hfinal => hfinal⟩
  | cons element rest ih =>
    have helement := hremoved element List.mem_cons_self
    have hsound := h.remove hpick helement
    have hrest := ih hsound fun other hother => hremoved other (List.mem_cons_of_mem _ hother)
    have hcons : partition.removeAll pick (element :: rest) =
        (partition.remove element pick).removeAll pick rest := rfl
    rw [hcons]
    have hsplit : ∀ {a}, ¬Among (element :: rest) a →
        (a == element) = false ∧ ¬Among rest a := by
      intro a ha
      rw [among_cons, not_or, Bool.not_eq_true] at ha
      exact ha
    refine ⟨?_, ?_, ?_, fun hfinal => hrest.final (h.final_remove hpick helement hfinal)⟩
    · intro a ha hfind
      obtain ⟨hae, har⟩ := hsplit ha
      obtain ⟨hfe, hfr⟩ := hsplit hfind
      have hkept : (partition.remove element pick).find a = partition.find a := by
        rcases h.find_remove hpick helement a with heq | ⟨heq, -⟩ | ⟨heq, -⟩
        · exact heq
        · rw [hae] at heq
          cases heq
        · rw [hfe] at heq
          cases heq
      rw [← hkept] at hfr ⊢
      exact hrest.stays har hfr
    · intro a ha hfind
      obtain ⟨hae, har⟩ := hsplit ha
      have hunknown : shape.unknown (partition.find a) = true := by
        obtain ⟨item, hitem, heq⟩ := hfind
        rw [shape.unknown_congr heq]
        exact hremoved item hitem
      have hne := h.find_remove_ne hpick helement hae
      obtain ⟨hclass, hvariable⟩ := h.find_find_remove hpick helement hae hunknown
      by_cases hagain : Among rest ((partition.remove element pick).find a)
      · obtain ⟨hheir, hkept, hfound⟩ := hrest.heir har hagain
        have hke : (((partition.remove element pick).removeAll pick rest).find a == element) =
            false := by
          rw [← Bool.not_eq_true]
          intro heq
          rw [find_of_absent (classOf?_remove_self h.distinct pick heq)] at hfound
          rw [BEq.trans (BEq.symm hfound) heq] at hne
          cases hne
        refine ⟨hheir, ?_, ?_⟩
        · rw [among_cons, not_or, Bool.not_eq_true]
          exact ⟨hke, hkept⟩
        · have hback : (partition.find ((partition.remove element pick).find
              (((partition.remove element pick).removeAll pick rest).find a)) ==
              partition.find ((partition.remove element pick).find a)) = true := find_congr hfound
          rw [hclass] at hback
          refine BEq.trans (BEq.symm ?_) hback
          have hfoundUnknown : shape.unknown ((partition.remove element pick).find
              (((partition.remove element pick).removeAll pick rest).find a)) = true := by
            rw [shape.unknown_congr hfound, hvariable]
          rcases h.find_remove hpick helement
            (((partition.remove element pick).removeAll pick rest).find a) with
            heq | ⟨heq, -⟩ | ⟨-, -, -, heq⟩
          · rw [heq] at hfoundUnknown ⊢
            rw [h.find_find hfoundUnknown]
            exact BEq.refl _
          · rw [hke] at heq
            cases heq
          · rw [heq]
            exact BEq.refl _
      · rw [hrest.stays har hagain]
        refine ⟨hvariable, ?_, ?_⟩
        · rw [among_cons, not_or, Bool.not_eq_true]
          exact ⟨hne, hagain⟩
        · rw [hclass]
          exact BEq.refl _
    · intro a b ha hb hab
      obtain ⟨hae, har⟩ := hsplit ha
      obtain ⟨hbe, hbr⟩ := hsplit hb
      exact hrest.same har hbr (h.find_remove_congr hpick helement hae hbe hab)

end Partition

end PolyFront
