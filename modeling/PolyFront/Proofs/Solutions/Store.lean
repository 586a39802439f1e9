import PolyFront.Proofs.Solutions.Runs
import PolyFront.Proofs.Solutions.Types

/-!
# Stores with acyclic solutions

A store is sound when its solutions are acyclic and mention only variables that it has created.
Pushing and popping frames, creating variables and solving them lead from sound stores to sound
stores.  How far a step may have changed the solutions of types is recorded by the variables
that it touches: it spares all others.
-/

namespace PolyFront

namespace Store

/-- The solutions are acyclic and mention only variables that were created. -/
structure Sound (s : Store) : Prop where
  kinds : Kind.Acyclic s.nextKind s.kinds
  types : Ty.Acyclic s.nextKind s.nextType s.types

/-- One store comes from another by steps that solve only the touched type variables. -/
structure Evolves (touched : Nat → Prop) (s s' : Store) : Prop where
  sound : s'.Sound
  kinds : s.nextKind ≤ s'.nextKind
  types : s.nextType ≤ s'.nextType
  spares : ∀ id, id < s.nextType → ¬touched id → Ty.Spares id s.types s'.types

/-- A step that touches no type variable. -/
def Settles : Store → Store → Prop := Evolves fun _ => False

variable {s s' s'' : Store} {touched touched' : Nat → Prop}

theorem Evolves.trans (h : Evolves touched s s') (h' : Evolves touched' s' s'')
    (hsub : ∀ id, id < s.nextType → Ty.IsFinal s.types id → ¬touched id → ¬touched' id) :
    Evolves touched s s'' where
  sound := h'.sound
  kinds := Nat.le_trans h.kinds h'.kinds
  types := Nat.le_trans h.types h'.types
  spares id hid htouched := by
    intro hfinal
    have hid' : id < s'.nextType := Nat.lt_of_lt_of_le hid h.types
    have hspares := h'.spares id hid' (hsub id hid hfinal htouched)
    exact (h.spares id hid htouched).trans hspares hfinal

theorem Evolves.mono (h : Evolves touched s s')
    (hsub : ∀ id, id < s.nextType → touched id → touched' id) : Evolves touched' s s' where
  sound := h.sound
  kinds := h.kinds
  types := h.types
  spares id hid htouched := h.spares id hid fun hin => htouched (hsub id hid hin)

theorem Settles.evolves (h : Settles s s') : Evolves touched s s' :=
  h.mono fun _ _ hfalse => hfalse.elim

theorem Settles.trans (h : Settles s s') (h' : Settles s' s'') : Settles s s'' :=
  Evolves.trans h h' fun _ _ _ hfalse => hfalse

theorem Evolves.settles (h : Evolves touched s s') (h' : Settles s' s'') :
    Evolves touched s s'' :=
  h.trans h' fun _ _ _ _ hfalse => hfalse

/-- A variable that stands for itself still does after a step that does not touch it. -/
theorem Evolves.final (h : Evolves touched s s') {id : Nat} (hid : id < s.nextType)
    (htouched : ¬touched id) (hfinal : Ty.IsFinal s.types id) : Ty.IsFinal s'.types id :=
  (h.spares id hid htouched hfinal).1

theorem Evolves.reaches (h : Evolves touched s s') {id : Nat} (hid : id < s.nextType)
    (htouched : ¬touched id) (hfinal : Ty.IsFinal s.types id) {other : Nat}
    (hreaches : Ty.Reaches s'.types other id) : Ty.Reaches s.types other id :=
  (h.spares id hid htouched hfinal).2 other hreaches

/-- Only the frames change. -/
theorem Sound.settles_of_eq (h : s.Sound) (hkinds : s'.kinds = s.kinds)
    (htypes : s'.types = s.types) (hnextKind : s'.nextKind = s.nextKind)
    (hnextType : s'.nextType = s.nextType) : Settles s s' where
  sound := by
    refine ⟨?_, ?_⟩
    · rw [hkinds, hnextKind]
      exact h.kinds
    · rw [htypes, hnextKind, hnextType]
      exact h.types
  kinds := Nat.le_of_eq hnextKind.symm
  types := Nat.le_of_eq hnextType.symm
  spares id _ _ := by
    rw [htypes]
    exact .refl id s.types

theorem Sound.refl (h : s.Sound) : Settles s s := h.settles_of_eq rfl rfl rfl rfl

theorem Sound.withStack (h : s.Sound) (stack : Stack (Located Attributes)) :
    Settles s { s with stack := stack } :=
  h.settles_of_eq rfl rfl rfl rfl

theorem sound_start : start.Sound := ⟨.empty, .empty⟩

/-! ## Closing and forgetting -/

theorem Sound.closeSolutions (h : s.Sound) : Settles s s.closeSolutions := by
  have hkinds : Kind.Acyclic s.nextKind s.closeSolutions.kinds := h.kinds.closed
  refine ⟨⟨hkinds, h.types.closed hkinds⟩, Nat.le_refl _, Nat.le_refl _, fun id _ _ => ?_⟩
  exact h.types.spares_closed _ id

theorem Sound.forget (h : s.Sound) (frame : Frame (Located Attributes)) :
    Settles s (s.forget frame) := by
  have hkinds : ∀ (ids : List Nat) (kinds : Partition Kind), Kind.Acyclic s.nextKind kinds →
      Kind.Acyclic s.nextKind
        (ids.foldl (fun kinds id => kinds.remove (.unsolved id) s.pickKind) kinds) := by
    intro ids
    induction ids with
    | nil => exact fun _ hkinds => hkinds
    | cons id rest ih => exact fun kinds hkinds => ih _ (hkinds.remove (Kind.picks_pickKind _))
  have htypes : ∀ (ids : List Nat) (types : Partition Ty),
      Ty.Acyclic s.nextKind s.nextType types →
      Ty.Acyclic s.nextKind s.nextType
          (ids.foldl (fun types id => types.remove (.unsolved id .type) s.pickType) types) ∧
        ∀ other, Ty.Spares other types
          (ids.foldl (fun types id => types.remove (.unsolved id .type) s.pickType) types) := by
    intro ids
    induction ids with
    | nil => exact fun types htypes => ⟨htypes, fun other => .refl other types⟩
    | cons id rest ih =>
      intro types htypes
      have hpick := Ty.picks_pickType s.stack.outermostFirst
      obtain ⟨hacyclic, hspares⟩ := ih _ (htypes.remove hpick)
      exact ⟨hacyclic, fun other => (htypes.spares_remove hpick other).trans (hspares other)⟩
  exact ⟨⟨hkinds _ _ h.kinds, (htypes _ _ h.types).1⟩, Nat.le_refl _, Nat.le_refl _,
    fun id _ _ => (htypes _ _ h.types).2 id⟩

/-! ## Solving -/

theorem Sound.solveKind (h : s.Sound) {id : Nat} {kind : Kind} (hid : id < s.nextKind)
    (hfinal : s.kinds.Final (.unsolved id)) (hkind : kind.Proper s.nextKind)
    (hsolution : Kind.Solution s.kinds id kind) : Settles s (s.solveKind id kind) := by
  have hunion := h.kinds.solve (Kind.picks_pickKind s.stack.outermostFirst) hid hfinal hkind
    hsolution
  have hsound : Sound { s with kinds := s.kinds.union (.unsolved id) kind s.pickKind } :=
    ⟨hunion, h.types⟩
  have hunioned : Settles s { s with kinds := s.kinds.union (.unsolved id) kind s.pickKind } :=
    ⟨hsound, Nat.le_refl _, Nat.le_refl _, fun id _ _ => .refl id s.types⟩
  exact hunioned.trans hsound.closeSolutions

/-- Solving a type variable touches it and the variables of its solution. -/
theorem Sound.solveType (h : s.Sound) {id : Nat} {kind : Kind} {type : Ty}
    (hid : id < s.nextType) (hkind : kind.Proper s.nextKind) (hfinal : Ty.IsFinal s.types id)
    (htype : type.Proper s.nextKind s.nextType) (hsolution : Ty.Solution s.types id type) :
    Evolves (fun other => other = id ∨ ∃ k, (other, k) ∈ type.mentions) s
        (s.solveType id kind type) ∧
      (Ty.shape.unknown type = false → ∀ other, other ≠ id → Ty.IsFinal s.types other →
        Ty.IsFinal (s.solveType id kind type).types other) := by
  have hpick := Ty.picks_pickType s.stack.outermostFirst
  have hunion := h.types.solve hpick hid hkind hfinal htype hsolution
  have hsound : Sound { s with types := s.types.union (.unsolved id kind) type s.pickType } :=
    ⟨h.kinds, hunion⟩
  refine ⟨Evolves.settles ⟨hsound, Nat.le_refl _, Nat.le_refl _, ?_⟩ hsound.closeSolutions, ?_⟩
  · intro other _ htouched
    refine hsolution.spares h.types hpick hid hkind hfinal htype (fun heq => htouched (.inl heq)) ?_
    intro k hk
    exact htouched (.inr ⟨k, hk⟩)
  · intro hsolved other hne hother
    exact hunion.final_closed _ (hsolution.final h.types hpick hid hkind hfinal htype hsolved hne
      hother)

end Store

end PolyFront
