/-!
# Totals

The sum of a measure over the items of a list.
-/

namespace PolyFront

variable {α : Type}

def total (measure : α → Nat) : List α → Nat
  | [] => 0
  | item :: rest => measure item + total measure rest

@[simp]
theorem total_nil (measure : α → Nat) : total measure [] = 0 := rfl

@[simp]
theorem total_cons (measure : α → Nat) (item : α) (rest : List α) :
    total measure (item :: rest) = measure item + total measure rest := rfl

@[simp]
theorem total_append (measure : α → Nat) (left right : List α) :
    total measure (left ++ right) = total measure left + total measure right := by
  induction left with
  | nil => simp
  | cons item rest ih =>
    simp only [List.cons_append, total_cons, ih]
    omega

theorem total_reverse (measure : α → Nat) (items : List α) :
    total measure items.reverse = total measure items := by
  induction items with
  | nil => rfl
  | cons item rest ih =>
    simp only [List.reverse_cons, total_append, ih, total_cons, total_nil]
    omega

end PolyFront
