import Mathlib.Order.BoundedOrder.Lattice
import PolyFront.Proofs.Constant.Order

/-!
# The semilattice of what is known

Values are partially ordered by their comparison, from nothing being known up to a value that is
no constant, and the join of two values is the least value above both.  The order is not flat: a
constructor with unknown fields lies below the same constructor without fields.  What makes the
join least is that nothing but the top is above two values that cannot be compared.
-/

namespace PolyFront

namespace Lattice

/-! ## Comparisons -/

/-- Exchanging two values turns their comparison around. -/
theorem compare_swap (a b : Lattice) : a.compare b = (b.compare a).flip := by
  by_cases heq : a = b
  · subst heq
    simp [Lattice.compare, Comparison.flip]
  · cases a <;> cases b <;> simp [Lattice.compare, Comparison.flip] at heq ⊢
    case constant.constant value value' => simp [heq, Ne.symm heq]
    case known.known name name' => simp [heq, Ne.symm heq]
    case known.constantConstructor name name' =>
      by_cases hname : name = name'
      · simp [hname]
      · simp [hname, Ne.symm hname]
    case constantConstructor.known name name' =>
      by_cases hname : name = name'
      · simp [hname]
      · simp [hname, Ne.symm hname]
    case constantConstructor.constantConstructor name name' => simp [heq, Ne.symm heq]

variable {a b upper : Lattice}

theorem unassigned_atMost (value : Lattice) : unassigned.AtMost value :=
  (unassigned_below value).atMost

theorem atMost_nonConstant (value : Lattice) : value.AtMost .nonConstant :=
  (below_nonConstant value).atMost

theorem atMost_of_greater (h : a.compare b = .greater) : b.AtMost a := by
  rw [AtMost, compare_swap, h]
  exact .inl rfl

/-- Only the top is above two values that cannot be compared. -/
theorem eq_nonConstant_of_incomparable (h : a.compare b = .incomparable) (ha : a.AtMost upper)
    (hb : b.AtMost upper) : upper = .nonConstant := by
  have hapart : ¬a.AtMost b ∧ ¬b.AtMost a := by
    simp [AtMost, compare_swap b a, h, Comparison.flip]
  obtain ⟨hab, hba⟩ := hapart
  rcases atMost_cases.1 ha with (rfl | rfl | rfl) | ⟨name, rfl, rfl⟩
  · exact (hab (unassigned_atMost b)).elim
  · exact (hba hb).elim
  · rfl
  -- Below a constructor without fields is little else than the constructor itself.
  · rcases atMost_cases.1 hb with (rfl | rfl | hfalse) | ⟨name', rfl, heq⟩
    · exact (hba (unassigned_atMost _)).elim
    · exact (hab ha).elim
    · cases hfalse
    · obtain rfl := constantConstructor.inj heq
      exact (hab (AtMost.refl _)).elim

/-! ## Joins -/

theorem atMost_join_right (a b : Lattice) : b.AtMost (a.join b) := by
  unfold join
  split
  · exact atMost_nonConstant b
  · exact AtMost.refl b
  · rename_i hequal
    rw [AtMost, compare_swap, hequal]
    exact .inr rfl
  · rename_i hgreater
    exact atMost_of_greater hgreater

/-- What is above two values is above their join. -/
theorem join_atMost (ha : a.AtMost upper) (hb : b.AtMost upper) : (a.join b).AtMost upper := by
  unfold join
  split
  · rename_i hapart
    rw [eq_nonConstant_of_incomparable hapart ha hb]
    exact AtMost.refl _
  · exact hb
  · exact ha
  · exact ha

instance : PartialOrder Lattice where
  le := AtMost
  le_refl := AtMost.refl
  le_trans _ _ _ := AtMost.trans
  le_antisymm _ _ := AtMost.antisymm

instance : SemilatticeSup Lattice where
  sup := join
  le_sup_left := atMost_join_left
  le_sup_right := atMost_join_right
  sup_le _ _ _ := join_atMost

instance : BoundedOrder Lattice where
  bot := unassigned
  bot_le := unassigned_atMost
  top := nonConstant
  le_top := atMost_nonConstant

theorem join_atMost_iff : (a.join b).AtMost upper ↔ a.AtMost upper ∧ b.AtMost upper :=
  sup_le_iff (a := a) (b := b) (c := upper)

/-- The constant lattice is a join semilattice.  Being compared as less or equal is a partial order
from `unassigned` up to `nonConstant`, comparisons are turned around when the values are exchanged,
and the join of two values is the least of all values above both.  Hence it is commutative,
associative and idempotent, with `unassigned` as identity and `nonConstant` absorbing all. -/
theorem join_semilattice :
    IsPartialOrder Lattice AtMost ∧ (∀ a, unassigned.AtMost a ∧ a.AtMost nonConstant) ∧
      (∀ a b : Lattice, a.compare b = (b.compare a).flip) ∧
      (∀ a b upper : Lattice, (a.join b).AtMost upper ↔ a.AtMost upper ∧ b.AtMost upper) ∧
      Std.Commutative join ∧ Std.Associative join ∧ Std.IdempotentOp join ∧
      Std.LawfulIdentity join unassigned ∧
      ∀ a, nonConstant.join a = nonConstant ∧ a.join nonConstant = nonConstant := by
  have hidentity : ∀ a : Lattice, unassigned.join a = a := bot_sup_eq
  have hidentity' : ∀ a : Lattice, a.join unassigned = a := sup_bot_eq
  refine ⟨inferInstanceAs (IsPartialOrder Lattice (· ≤ ·)), fun a => ?_, compare_swap,
    fun _ _ _ => join_atMost_iff, ⟨sup_comm⟩, ⟨sup_assoc⟩, ⟨sup_idem⟩, ?_, fun a => ?_⟩
  · exact ⟨unassigned_atMost a, atMost_nonConstant a⟩
  · exact { left_id := hidentity, right_id := hidentity' }
  · exact ⟨top_sup_eq a, sup_top_eq a⟩

end Lattice

end PolyFront
