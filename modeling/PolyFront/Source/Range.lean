/-!
# Source positions

Positions and ranges inside one source text, and values that carry the range
they came from.
-/

namespace PolyFront

/-- A zero-based line and character offset. -/
structure Position where
  line : Nat
  character : Nat
deriving DecidableEq, Repr, Inhabited

namespace Position

/-- Positions are ordered by line and then by character. -/
def before (a b : Position) : Bool :=
  decide (a.line < b.line) || (a.line == b.line && decide (a.character ≤ b.character))

theorem before_iff (a b : Position) :
    a.before b = true ↔
      a.line < b.line ∨ (a.line = b.line ∧ a.character ≤ b.character) := by
  simp [before]

theorem before_total (a b : Position) : (a.before b || b.before a) = true := by
  simp only [Bool.or_eq_true, before_iff]
  omega

theorem before_trans {a b c : Position} (hab : a.before b = true)
    (hbc : b.before c = true) : a.before c = true := by
  rw [before_iff] at *
  omega

end Position

/-- The text from `start` up to `stop`. -/
structure Range where
  start : Position
  stop : Position
deriving DecidableEq, Repr, Inhabited

/-- The range of things that no source text contains. -/
def Range.empty : Range := ⟨⟨0, 0⟩, ⟨0, 0⟩⟩

/-- A value together with the range of the source it belongs to. -/
structure Located (α : Type) where
  range : Range
  info : α
deriving DecidableEq, Repr, Inhabited

namespace Located

variable {α β : Type}

/-- A value that no source text contains. -/
def nowhere (info : α) : Located α := ⟨Range.empty, info⟩

/-- The same value, seen from another place. -/
def withRange (here : Located α) (range : Range) : Located α := { here with range := range }

def map (f : α → β) (here : Located α) : Located β := ⟨here.range, f here.info⟩

@[simp]
theorem map_id (here : Located α) : here.map id = here := rfl

@[simp]
theorem range_map (f : α → β) (here : Located α) : (here.map f).range = here.range := rfl

end Located

end PolyFront
