import PolyFront.Scope.Frame

/-!
# Slots of a frame

A frame binds values, types and fields independently of each other.  A slot is one of the three
with its key, so that what holds of every binding is stated once.
-/

namespace PolyFront

/-- A place in a frame for which entries compete. -/
inductive Slot where
  | value (name : String)
  | type (name : String)
  | field (constructor : ConstructorName) (name : String)
deriving DecidableEq

namespace Slot

/-- Values and types are bound under their canonical names, too. -/
def canonical (ns : NamespaceName) : Slot → Slot
  | .value name => .value (QualifiedName.canonical ⟨ns, name⟩)
  | .type name => .type (QualifiedName.canonical ⟨ns, name⟩)
  | .field constructor name => .field constructor name

/-- The name of the value or type has no dot. -/
def IsPlain : Slot → Prop
  | .value name => '.' ∉ name.toList
  | .type name => '.' ∉ name.toList
  | .field _ _ => True

variable {ns : NamespaceName} {slot other : Slot}

theorem canonical_injective (h : slot.canonical ns = other.canonical ns) : slot = other := by
  have hname : ∀ {name name' : String}, QualifiedName.canonical ⟨ns, name⟩ =
      QualifiedName.canonical ⟨ns, name'⟩ → name = name' :=
    fun heq => (String.append_right_inj _).1 heq
  cases slot <;> cases other <;> simp only [canonical, reduceCtorEq] at h
  · exact congrArg _ (hname (Slot.value.inj h))
  · exact congrArg _ (hname (Slot.type.inj h))
  · exact h

/-- Canonical names have a dot. -/
theorem eq_of_eq_canonical (hplain : slot.IsPlain) (h : slot = other.canonical ns) :
    slot = other := by
  have hdot : ∀ name : String, '.' ∈ (QualifiedName.canonical ⟨ns, name⟩).toList := by
    intro name
    rw [QualifiedName.canonical, String.toList_append, String.toList_append]
    exact List.mem_append_left _ (List.mem_append_right _ (by decide))
  cases other with
  | value name => exact (absurd (hdot name) (by rw [h] at hplain; exact hplain))
  | type name => exact (absurd (hdot name) (by rw [h] at hplain; exact hplain))
  | field constructor name => exact h

end Slot

namespace Frame

variable {α : Type} {frame : Frame α} {item : α}

/-- What a slot is bound to. -/
def slot? (frame : Frame α) : Slot → Option α
  | .value name => frame.value? name
  | .type name => frame.type? name
  | .field constructor name => frame.field? constructor name

/-- Bind a slot, over any binding it had. -/
def put (frame : Frame α) (item : α) : Slot → Frame α
  | .value name => frame.putValue name item
  | .type name => frame.putType name item
  | .field constructor name => frame.putField constructor name item

theorem slot?_empty (kind : ScopeKind) (slot : Slot) :
    (empty kind : Frame α).slot? slot = none := by
  cases slot <;> rfl

theorem value?_putValue (key other : String) :
    (frame.putValue key item).value? other =
      if other = key then some item else frame.value? other := by
  refine (Table.get?_insert _ _ _ _).trans ?_
  simp only [beq_iff_eq]
  rfl

theorem type?_putType (key other : String) :
    (frame.putType key item).type? other =
      if other = key then some item else frame.type? other := by
  refine (Table.get?_insert _ _ _ _).trans ?_
  simp only [beq_iff_eq]
  rfl

theorem field?_putField (constructor other : ConstructorName) (key key' : String) :
    (frame.putField constructor key item).field? other key' =
      if other = constructor ∧ key' = key then some item else frame.field? other key' := by
  rw [field?, fieldsOf, putField, Table.get?_insert]
  by_cases hother : other = constructor
  · subst hother
    rw [if_pos (beq_iff_eq.2 rfl), Option.getD_some, Table.get?_insert]
    simp only [beq_iff_eq, true_and]
    rfl
  · rw [if_neg fun h => hother (eq_of_beq h), if_neg fun h => hother h.1]
    rfl

theorem slot?_put (frame : Frame α) (item : α) (slot other : Slot) :
    (frame.put item slot).slot? other =
      if other = slot then some item else frame.slot? other := by
  cases slot with
  | value name =>
    cases other with
    | value other =>
      simp only [Slot.value.injEq]
      exact value?_putValue name other
    | _ => rw [if_neg nofun]; rfl
  | type name =>
    cases other with
    | type other =>
      simp only [Slot.type.injEq]
      exact type?_putType name other
    | _ => rw [if_neg nofun]; rfl
  | field constructor name =>
    cases other with
    | field other name' =>
      simp only [Slot.field.injEq]
      exact field?_putField constructor other name name'
    | _ => rw [if_neg nofun]; rfl

end Frame

end PolyFront
