/-!
# Tables

A table binds keys to values.  Keys keep the order in which they were first
bound, and each key is bound once.
-/

namespace PolyFront

structure Table (κ ν : Type) where
  entries : List (κ × ν)
deriving DecidableEq, Repr, Inhabited

namespace Table

variable {κ ν : Type} [BEq κ]

def empty : Table κ ν := ⟨[]⟩

/-- The value bound to a key. -/
def get? (table : Table κ ν) (key : κ) : Option ν := table.entries.lookup key

def contains (table : Table κ ν) (key : κ) : Bool := (table.get? key).isSome

/-- Replace the value of a key in place, or bind a new key last. -/
def insertEntry (key : κ) (value : ν) : List (κ × ν) → List (κ × ν)
  | [] => [(key, value)]
  | entry :: rest =>
    if key == entry.1 then (entry.1, value) :: rest
    else entry :: insertEntry key value rest

/-- Bind a key, over any value it had. -/
def insert (table : Table κ ν) (key : κ) (value : ν) : Table κ ν :=
  ⟨insertEntry key value table.entries⟩

/-- Bind a key unless it is bound already. -/
def insertIfNew (table : Table κ ν) (key : κ) (value : ν) : Table κ ν :=
  if table.contains key then table else ⟨table.entries ++ [(key, value)]⟩

def erase (table : Table κ ν) (key : κ) : Table κ ν :=
  ⟨table.entries.filter fun entry => !(key == entry.1)⟩

def size (table : Table κ ν) : Nat := table.entries.length

def keys (table : Table κ ν) : List κ := table.entries.map Prod.fst

def values (table : Table κ ν) : List ν := table.entries.map Prod.snd

def map {μ : Type} (f : ν → μ) (table : Table κ ν) : Table κ μ :=
  ⟨table.entries.map fun entry => (entry.1, f entry.2)⟩

@[simp]
theorem get?_empty (key : κ) : (empty : Table κ ν).get? key = none := rfl

section Laws

variable [EquivBEq κ]

theorem lookup_insertEntry (key other : κ) (value : ν) (entries : List (κ × ν)) :
    (insertEntry key value entries).lookup other =
      if other == key then some value else entries.lookup other := by
  induction entries with
  | nil => cases h : other == key <;> simp [insertEntry, List.lookup_cons, h]
  | cons entry rest ih =>
    obtain ⟨bound, old⟩ := entry
    cases hbound : key == bound with
    | true =>
      have hother : (other == key) = (other == bound) := BEq.congr_right hbound
      cases h : other == bound <;> simp [insertEntry, List.lookup_cons, hbound, hother, h]
    | false =>
      cases h : other == bound with
      | false => simp [insertEntry, List.lookup_cons, hbound, h, ih]
      | true =>
        have hother : (other == key) = false := by rw [BEq.congr_left h, BEq.comm, hbound]
        simp [insertEntry, List.lookup_cons, hbound, h, hother]

theorem get?_insert (table : Table κ ν) (key other : κ) (value : ν) :
    (table.insert key value).get? other =
      if other == key then some value else table.get? other :=
  lookup_insertEntry key other value table.entries

theorem get?_erase (table : Table κ ν) (key other : κ) :
    (table.erase key).get? other = if other == key then none else table.get? other := by
  obtain ⟨entries⟩ := table
  simp only [erase, get?]
  induction entries with
  | nil => simp
  | cons entry rest ih =>
    cases hkey : key == entry.1 with
    | true =>
      rw [List.filter_cons_of_neg (by simp [hkey]), ih, List.lookup_cons, ← BEq.congr_right hkey]
      cases other == key <;> rfl
    | false =>
      rw [List.filter_cons_of_pos (by simp [hkey]), List.lookup_cons, List.lookup_cons, ih]
      cases h : other == entry.1 with
      | false => rfl
      | true =>
        have hother : (other == key) = false := by rw [BEq.congr_left h, BEq.comm, hkey]
        simp [hother]

end Laws

end Table

end PolyFront
