import PolyFront.Proofs.Grounding.Enclosed

/-!
# Solutions that are laid out

Solutions are laid out when they are sound, spread out and settled.  Closing them, adding variables
and removing variables keeps them so, and so does solving a variable by a type that does not reach
it, once the solutions are closed again.
-/

namespace PolyFront

namespace Ty

variable {types types' : Partition Ty} {kinds : Partition Kind} {type other : Ty} {id : Nat}
  {good : Ty → Prop} {inside : Nat → Prop} {pick : Ty → Ty → Ty}

/-- Sound solutions that are spread out and settled. -/
structure LaidOut (good : Ty → Prop) (types : Partition Ty) : Prop where
  sound : types.Sound plainShape good
  spread : AllSpread types
  settled : Echoed types

theorem laidOut_empty : LaidOut good Partition.empty where
  sound := .empty
  spread _ hc := (List.not_mem_nil hc).elim
  settled _ hc := (List.not_mem_nil hc).elim

theorem LaidOut.mono {good' : Ty → Prop} (h : LaidOut good types)
    (himp : ∀ type, good type → good' type) : LaidOut good' types :=
  ⟨h.sound.mono fun _ => himp _, h.spread, h.settled⟩

theorem sound_closed (h : types.Sound plainShape good)
    (hgood : ∀ type, good type → good (type.substitute types kinds)) :
    (closed types kinds).Sound plainShape good := by
  refine h.mapRepresentatives ?_ (fun hsolved => unknown_bind hsolved)
    (fun hleaf => Bool.noConfusion hleaf) fun htype => hgood _ htype
  intro type hunknown hfinal
  obtain ⟨v, kind, rfl⟩ := unknown_iff.1 hunknown
  obtain ⟨own, hfind⟩ := (final_unsolved.1 hfinal).find kind
  rw [substitute_representative hfind]
  exact unsolved_beq.2 rfl

/-- Closing solutions lays them out, when a variable that is met from its own solution stands
there. -/
theorem Recurring.laidOut_closed (h : Recurring types) (hsound : types.Sound plainShape good)
    (hgood : ∀ type, good type → good (type.substitute types kinds)) :
    LaidOut good (closed types kinds) where
  sound := sound_closed hsound hgood
  spread := h.allSpread_closed hsound unknown_plain kinds
  settled := h.settled_closed hsound unknown_plain kinds

theorem LaidOut.closed (h : LaidOut good types)
    (hgood : ∀ type, good type → good (type.substitute types kinds)) :
    LaidOut good (closed types kinds) :=
  h.spread.recurring.laidOut_closed h.sound hgood

theorem LaidOut.add (h : LaidOut good types) {added : Nat} {kind : Kind}
    (hadded : good (.unsolved added kind)) : LaidOut good (types.add (.unsolved added kind)) where
  sound := h.sound.add hadded
  spread := h.spread.add added kind
  settled := h.settled.add added kind

theorem LaidOut.remove (h : LaidOut good types) (hpick : plainShape.Picks pick) (removed : Nat) :
    LaidOut good (types.remove (.unsolved removed .type) pick) where
  sound := h.sound.remove hpick rfl
  spread := h.spread.remove h.sound unknown_plain hpick removed
  settled := h.settled.remove h.sound unknown_plain hpick removed

/-- What removing one variable keeps, removing several of them keeps. -/
theorem LaidOut.removeAll (h : LaidOut good types) (hpick : plainShape.Picks pick)
    {motive : Partition Ty → Prop} (hmotive : motive types)
    (hstep : ∀ {types : Partition Ty} (removed : Nat), LaidOut good types → motive types →
      motive (types.remove (.unsolved removed .type) pick)) (removed : List Nat) :
    LaidOut good (removed.foldl (fun types id => types.remove (.unsolved id .type) pick) types) ∧
      motive (removed.foldl (fun types id => types.remove (.unsolved id .type) pick) types) := by
  induction removed generalizing types with
  | nil => exact ⟨h, hmotive⟩
  | cons id rest ih => exact ih (h.remove hpick id) (hstep id h hmotive)

/-- Solutions that were only closed, any number of times. -/
inductive Reclosed (types : Partition Ty) : Partition Ty → Prop where
  | refl : Reclosed types types
  | close {types' : Partition Ty} (h : Reclosed types types') (kinds : Partition Kind) :
    Reclosed types (Ty.closed types' kinds)

theorem Reclosed.trans {types'' : Partition Ty} (h : Reclosed types types')
    (h' : Reclosed types' types'') : Reclosed types types'' := by
  induction h' with
  | refl => exact h
  | close _ kinds ih => exact .close ih kinds

/-- What closing keeps is kept. -/
theorem Reclosed.keeps (h : Reclosed types types') (hlaid : LaidOut (fun _ => True) types)
    {motive : Partition Ty → Prop} (hmotive : motive types)
    (hstep : ∀ {types : Partition Ty} (kinds : Partition Kind), LaidOut (fun _ => True) types →
      motive types → motive (Ty.closed types kinds)) :
    LaidOut (fun _ => True) types' ∧ motive types' := by
  induction h with
  | refl => exact ⟨hlaid, hmotive⟩
  | close _ kinds ih =>
    exact ⟨ih.1.closed fun _ _ => True.intro, hstep kinds ih.1 ih.2⟩

/-- Solving a variable by a type from which it is not reached leaves solutions recurring. -/
theorem Merge.recurring_of_shut (h : Merge types types' id other) (hall : AllSpread types)
    (hloose : Loose types other) (hshut : Shut types inside) (hid : ¬inside id)
    (hother : ∀ {v}, Mentions v other → inside v ∨ IsFinal types v) : Recurring types' := by
  cases hclass : types.classOf? other with
  | some c =>
    refine h.recurring_of_spread hall ?_
    rw [Partition.find_of_classOf? hclass]
    exact hall c (Partition.mem_of_classOf? hclass).1
  | none =>
    have hfind := Partition.find_of_absent hclass
    have hmet : ∀ {v kind}, Meets types other v kind → Mentions v other ∨ inside v := by
      intro v kind hmeets
      induction hmeets with
      | mention hmem => exact .inl ⟨_, hmem⟩
      | step _ hsolved hmem ih =>
        have houter := ih.elim hother .inl
        rcases houter with houter | hfinal
        · exact .inr (hshut.inner houter hsolved ⟨_, hmem⟩)
        · exact absurd hsolved (not_solved_of_final hfinal)
    rw [← hfind] at hloose
    refine h.recurring hall (fun v hv hsolved => hloose.again hv hsolved) ?_
    intro v kind hsolved hsolution hmeets
    rw [hfind] at hmeets hsolution ⊢
    rcases hmet hmeets with hmentions | hinside
    · exact hmentions
    by_cases hold : Solved types v
    · -- An old solution that happens to be the same type.
      rw [(h.kept hold).2] at hsolution
      have hspread := hall.of_solved hold
      rw [hsolution] at hspread
      exact hspread.mention_of_meets hmeets
    · exact absurd (hshut.mates hinside (h.solved hsolved hold).1.symm) hid

end Ty

end PolyFront
