import PolyFront.Collection.Multimap
import PolyFront.Proofs.Solutions.Clusters

/-!
# Multimaps refine lists of pairs

The reference is a list of pairs, oldest first, in which no pair stands twice.  Inserting puts a
pair last unless it is there already, and removing takes out one pair or every pair of a key.  Any
sequence of operations keeps three things: a multimap has the values of every key in the order of
the list, it binds no key twice, and it binds no key to an empty list.  The third is what makes the
number of keys and the test for emptiness right once pairs have been removed.

Keys only have to be equal in the sense of an equivalence, and values may even differ from
themselves, as a number that is none does.
-/

namespace PolyFront

/-! ## Distinct items -/

section Distinct

variable {α : Type} [BEq α]

theorem Distinct.sublist {items rest : List α} (h : Distinct items) (hsub : rest.Sublist items) :
    Distinct rest :=
  List.Pairwise.sublist hsub h

theorem Distinct.concat [PartialEquivBEq α] {items : List α} {item : α} (h : Distinct items)
    (hnew : items.contains item = false) : Distinct (items ++ [item]) := by
  refine List.pairwise_append.2 ⟨h, List.pairwise_singleton _ _, fun a ha b hb => ?_⟩
  obtain rfl := List.mem_singleton.1 hb
  rw [BEq.comm, ← Bool.not_eq_true]
  exact List.any_eq_false.1 (List.any_beq.trans hnew) a ha

theorem exists_of_contains {items : List α} {item : α} (h : items.contains item = true) :
    ∃ other ∈ items, (item == other) = true :=
  List.any_eq_true.1 (List.any_beq.trans h)

/-- Taking out an item changes what has the item, and nothing else. -/
theorem erase_eq_self_iff [PartialEquivBEq α] {items : List α} {item : α} :
    items.erase item = items ↔ items.contains item = false := by
  rw [List.erase_eq_eraseP']
  constructor
  · intro heq
    rw [← Bool.not_eq_true]
    intro hcontains
    obtain ⟨other, hmem, hbeq⟩ := exists_of_contains hcontains
    have hpos := List.length_pos_of_mem hmem
    have hlength := List.length_eraseP_of_mem (p := (· == item)) hmem (BEq.symm hbeq)
    rw [heq] at hlength
    omega
  · intro hcontains
    refine List.eraseP_of_forall_not fun other hmem => ?_
    rw [BEq.comm]
    exact List.any_eq_false.1 (List.any_beq.trans hcontains) other hmem

/-- Induction along the removal of what counts as the first item. -/
theorem eraseDups_induct {motive : List α → Prop} (nil : motive [])
    (cons : ∀ first rest, motive (rest.filter fun item => !item == first) →
      motive (first :: rest)) : ∀ items, motive items
  | [] => nil
  | first :: rest => cons first rest (eraseDups_induct nil cons _)
termination_by items => items.length
decreasing_by exact Nat.lt_succ_of_le (List.length_filter_le _ _)

theorem eraseDups_sublist (items : List α) : items.eraseDups.Sublist items := by
  induction items using eraseDups_induct with
  | nil => simp
  | cons first rest ih =>
    rw [List.eraseDups_cons]
    exact (ih.trans List.filter_sublist).cons_cons first

variable [EquivBEq α]

theorem distinct_eraseDups (items : List α) : Distinct items.eraseDups := by
  induction items using eraseDups_induct with
  | nil => simp [Distinct]
  | cons first rest ih =>
    rw [List.eraseDups_cons]
    refine List.pairwise_cons.2 ⟨fun item hitem => ?_, ih⟩
    have hmem := (eraseDups_sublist _).subset hitem
    rw [BEq.comm]
    simpa using (List.mem_filter.1 hmem).2

theorem exists_mem_eraseDups {items : List α} {item : α} (h : item ∈ items) :
    ∃ kept ∈ items.eraseDups, (item == kept) = true := by
  induction items using eraseDups_induct with
  | nil => cases h
  | cons first rest ih =>
    rw [List.eraseDups_cons]
    cases hbeq : item == first with
    | true => exact ⟨first, List.mem_cons_self, hbeq⟩
    | false =>
      have hrest : item ∈ rest := by
        refine (List.mem_cons.1 h).resolve_left ?_
        rintro rfl
        rw [BEq.refl] at hbeq
        cases hbeq
      obtain ⟨kept, hkept, hsame⟩ := ih (List.mem_filter.2 ⟨hrest, by simp [hbeq]⟩)
      exact ⟨kept, List.mem_cons_of_mem _ hkept, hsame⟩

/-- Distinct items that all stand for items of another list are not more than those. -/
theorem Distinct.length_le {left right : List α} (h : Distinct left)
    (hcover : ∀ a ∈ left, ∃ b ∈ right, (a == b) = true) : left.length ≤ right.length := by
  induction left generalizing right with
  | nil => exact Nat.zero_le _
  | cons first rest ih =>
    obtain ⟨hfirst, hrest⟩ := List.pairwise_cons.1 h
    obtain ⟨image, himage, hbeq⟩ := hcover first List.mem_cons_self
    obtain ⟨before, behind, rfl⟩ := List.append_of_mem himage
    have hle : rest.length ≤ (before ++ behind).length := by
      refine ih hrest fun a ha => ?_
      obtain ⟨b, hb, hab⟩ := hcover a (List.mem_cons_of_mem _ ha)
      refine ⟨b, ?_, hab⟩
      -- What stands for the first item stands for no other.
      have hne : b ≠ image := by
        rintro rfl
        have hsame : (first == a) = true := BEq.trans hbeq (BEq.symm hab)
        rw [hfirst a ha] at hsame
        cases hsame
      simpa [hne] using hb
    simp only [List.length_append, List.length_cons] at hle ⊢
    omega

theorem Distinct.length_eq {left right : List α} (h : Distinct left) (h' : Distinct right)
    (hleft : ∀ a ∈ left, ∃ b ∈ right, (a == b) = true)
    (hright : ∀ b ∈ right, ∃ a ∈ left, (b == a) = true) : left.length = right.length :=
  Nat.le_antisymm (h.length_le hleft) (h'.length_le hright)

end Distinct

/-! ## Keys of a table -/

namespace Table

variable {κ ν : Type} [BEq κ]

theorem contains_eq (table : Table κ ν) (key : κ) :
    table.contains key = table.keys.contains key := by
  obtain ⟨entries⟩ := table
  simp only [contains, get?, keys]
  induction entries with
  | nil => rfl
  | cons entry rest ih =>
    rw [List.lookup_cons, List.map_cons, List.contains_cons, ← ih]
    cases key == entry.1 <;> rfl

theorem exists_entry_of_get? {table : Table κ ν} {key : κ} {value : ν}
    (h : table.get? key = some value) : ∃ bound, (bound, value) ∈ table.entries := by
  obtain ⟨entries⟩ := table
  simp only [get?] at h
  induction entries with
  | nil => cases h
  | cons entry rest ih =>
    rw [List.lookup_cons] at h
    split at h
    · obtain rfl := Option.some.inj h
      exact ⟨entry.1, List.mem_cons_self⟩
    · obtain ⟨bound, hmem⟩ := ih h
      exact ⟨bound, List.mem_cons_of_mem _ hmem⟩

/-- Binding a key leaves the keys alone, or puts a new one last. -/
theorem keys_insert (table : Table κ ν) (key : κ) (value : ν) :
    (table.insert key value).keys =
      if table.keys.contains key then table.keys else table.keys ++ [key] := by
  obtain ⟨entries⟩ := table
  change (insertEntry key value entries).map Prod.fst =
    if (entries.map Prod.fst).contains key then entries.map Prod.fst
    else entries.map Prod.fst ++ [key]
  induction entries with
  | nil => rfl
  | cons entry rest ih =>
    simp only [insertEntry, List.map_cons, List.contains_cons]
    cases key == entry.1 with
    | true => simp
    | false =>
      simp only [Bool.false_eq_true, if_false, List.map_cons, ih, Bool.false_or]
      split <;> rfl

theorem mem_insert {table : Table κ ν} {key : κ} {value : ν} {entry : κ × ν}
    (h : entry ∈ (table.insert key value).entries) : entry.2 = value ∨ entry ∈ table.entries := by
  obtain ⟨entries⟩ := table
  simp only [insert] at h ⊢
  induction entries with
  | nil =>
    rw [insertEntry, List.mem_singleton] at h
    exact .inl (congrArg Prod.snd h)
  | cons first rest ih =>
    rw [insertEntry] at h
    split at h
    · rcases List.mem_cons.1 h with rfl | h
      · exact .inl rfl
      · exact .inr (List.mem_cons_of_mem _ h)
    · rcases List.mem_cons.1 h with rfl | h
      · exact .inr List.mem_cons_self
      · exact (ih h).imp_right (List.mem_cons_of_mem _)

theorem keys_erase_sublist (table : Table κ ν) (key : κ) :
    (table.erase key).keys.Sublist table.keys :=
  List.filter_sublist.map Prod.fst

end Table

/-! ## The reference -/

section Pair

variable {κ ν : Type} [BEq κ] [BEq ν]

theorem pair_beq_iff {a b : κ × ν} :
    (a == b) = true ↔ (a.1 == b.1) = true ∧ (a.2 == b.2) = true := by
  rw [← Bool.and_eq_true]
  rfl

instance partialEquivBEqPair [PartialEquivBEq κ] [PartialEquivBEq ν] :
    PartialEquivBEq (κ × ν) where
  symm h := by
    obtain ⟨hkey, hvalue⟩ := pair_beq_iff.1 h
    exact pair_beq_iff.2 ⟨BEq.symm hkey, BEq.symm hvalue⟩
  trans h h' := by
    obtain ⟨hkey, hvalue⟩ := pair_beq_iff.1 h
    obtain ⟨hkey', hvalue'⟩ := pair_beq_iff.1 h'
    exact pair_beq_iff.2 ⟨BEq.trans hkey hkey', BEq.trans hvalue hvalue'⟩

end Pair

/-- Pairs of a key and a value, oldest first. -/
abbrev Pairs (κ ν : Type) : Type := List (κ × ν)

namespace Pairs

variable {κ ν : Type} [BEq κ]

/-- The values of a key in the order of the pairs. -/
def valuesOf (pairs : Pairs κ ν) (key : κ) : List ν :=
  (pairs.filter fun pair => key == pair.1).map Prod.snd

/-- The keys that have a pair. -/
def keys (pairs : Pairs κ ν) : List κ := (pairs.map Prod.fst).eraseDups

/-- Take out every pair of a key. -/
def removeAll (pairs : Pairs κ ν) (key : κ) : Pairs κ ν :=
  pairs.filter fun pair => !(key == pair.1)

section Change

variable [BEq ν]

/-- Put a pair last, unless it is there. -/
def insert (pairs : Pairs κ ν) (key : κ) (value : ν) : Pairs κ ν :=
  if pairs.contains (key, value) then pairs else pairs ++ [(key, value)]

/-- Take out one pair. -/
def remove (pairs : Pairs κ ν) (key : κ) (value : ν) : Pairs κ ν := pairs.erase (key, value)

def insertAll (pairs added : Pairs κ ν) : Pairs κ ν :=
  added.foldl (fun pairs pair => pairs.insert pair.1 pair.2) pairs

end Change

theorem valuesOf_cons (pair : κ × ν) (rest : Pairs κ ν) (key : κ) :
    valuesOf (pair :: rest) key =
      if key == pair.1 then pair.2 :: valuesOf rest key else valuesOf rest key := by
  rw [valuesOf, List.filter_cons]
  split <;> rfl

theorem valuesOf_ne_nil_iff {pairs : Pairs κ ν} {key : κ} :
    pairs.valuesOf key ≠ [] ↔ ∃ pair ∈ pairs, (key == pair.1) = true := by
  simp [valuesOf, List.filter_eq_nil_iff]

theorem contains_valuesOf [BEq ν] (pairs : Pairs κ ν) (key : κ) (value : ν) :
    (pairs.valuesOf key).contains value = pairs.contains (key, value) := by
  induction pairs with
  | nil => rfl
  | cons pair rest ih =>
    have hbeq : ((key, value) == pair) = (key == pair.1 && value == pair.2) := rfl
    rw [valuesOf_cons, List.contains_cons, hbeq, ← ih]
    cases key == pair.1 <;> simp

theorem valuesOf_concat (pairs : Pairs κ ν) (key other : κ) (value : ν) :
    valuesOf (pairs ++ [(key, value)]) other =
      if other == key then pairs.valuesOf other ++ [value] else pairs.valuesOf other := by
  rw [valuesOf, List.filter_append, List.map_append]
  cases h : other == key <;> simp [valuesOf, h]

section Laws

variable [PartialEquivBEq κ]

/-- Keys that count as the same have the same values. -/
theorem valuesOf_congr (pairs : Pairs κ ν) {key other : κ} (h : (key == other) = true) :
    pairs.valuesOf key = pairs.valuesOf other := by
  simp only [valuesOf, BEq.congr_left h]

theorem valuesOf_removeAll (pairs : Pairs κ ν) (key other : κ) :
    (pairs.removeAll key).valuesOf other = if other == key then [] else pairs.valuesOf other := by
  simp only [valuesOf, removeAll, List.filter_filter]
  cases hother : other == key with
  | true =>
    have hnone : ∀ pair ∈ pairs, ¬((other == pair.1) && !(key == pair.1)) = true := by
      intro pair _
      rw [BEq.congr_left hother]
      simp
    rw [List.filter_eq_nil_iff.2 hnone]
    rfl
  | false =>
    have hsame : ∀ pair ∈ pairs, ((other == pair.1) && !(key == pair.1)) = (other == pair.1) := by
      intro pair _
      cases hpair : other == pair.1 with
      | false => rfl
      | true =>
        rw [← BEq.congr_right hpair, BEq.comm, hother]
        rfl
    rw [List.filter_congr hsame]
    rfl

theorem valuesOf_remove [BEq ν] (pairs : Pairs κ ν) (key other : κ) (value : ν) :
    (pairs.remove key value).valuesOf other =
      if other == key then (pairs.valuesOf other).erase value else pairs.valuesOf other := by
  induction pairs with
  | nil => simp [remove, valuesOf]
  | cons pair rest ih =>
    have hbeq : (pair == (key, value)) = (pair.1 == key && pair.2 == value) := rfl
    rw [remove] at ih ⊢
    rw [List.erase_cons, hbeq, valuesOf_cons]
    cases hkey : pair.1 == key with
    | true =>
      rw [← BEq.congr_right hkey] at ih ⊢
      cases hother : other == pair.1 <;> cases hvalue : pair.2 == value <;>
        simp [valuesOf_cons, List.erase_cons, hother, hvalue, ih]
    | false =>
      cases hother : other == pair.1 with
      | true => simp [valuesOf_cons, hother, ih, BEq.congr_left hother, hkey]
      | false => simp [valuesOf_cons, hother, ih]

end Laws

end Pairs

/-! ## Tables of values -/

/-- No key is bound twice, and none to an empty list. -/
structure Tidy {κ ν : Type} [BEq κ] (table : Table κ (List ν)) : Prop where
  distinct : Distinct table.keys
  nonempty : ∀ entry ∈ table.entries, entry.2 ≠ []

namespace Tidy

variable {κ ν : Type} [BEq κ] {table : Table κ (List ν)}

theorem empty : Tidy (Table.empty : Table κ (List ν)) where
  distinct := List.Pairwise.nil
  nonempty := fun _ h => nomatch h

theorem insert [PartialEquivBEq κ] (h : Tidy table) (key : κ) {values : List ν}
    (hvalues : values ≠ []) : Tidy (table.insert key values) where
  distinct := by
    rw [Table.keys_insert]
    split
    · exact h.distinct
    · rename_i hnew
      exact h.distinct.concat (Bool.eq_false_iff.2 hnew)
  nonempty entry hentry := by
    rcases Table.mem_insert hentry with heq | hold
    · rw [heq]
      exact hvalues
    · exact h.nonempty entry hold

theorem erase (h : Tidy table) (key : κ) : Tidy (table.erase key) where
  distinct := h.distinct.sublist (table.keys_erase_sublist key)
  nonempty entry hentry := h.nonempty entry (List.mem_filter.1 hentry).1

/-- A key is bound exactly when it has a value. -/
theorem contains_iff (h : Tidy table) {key : κ} :
    table.contains key = true ↔ (table.get? key).getD [] ≠ [] := by
  rw [Table.contains]
  cases hget : table.get? key with
  | none => simp
  | some values =>
    obtain ⟨bound, hmem⟩ := Table.exists_entry_of_get? hget
    simpa using h.nonempty _ hmem

end Tidy

/-! ## Operations -/

namespace Multimap

variable {κ ν : Type} [BEq κ] [BEq ν]

/-- An operation on a multimap. -/
inductive Change (κ ν : Type) where
  | insert (key : κ) (value : ν)
  | remove (key : κ) (value : ν)
  | removeAll (key : κ)
  | extend (pairs : List (κ × ν))
  /-- A new multimap is made of some pairs. -/
  | ofList (pairs : List (κ × ν))

def Change.run : Change κ ν → Multimap κ ν → Multimap κ ν
  | .insert key value, multimap => (multimap.tryInsert key value).2
  | .remove key value, multimap => (multimap.tryRemove key value).2
  | .removeAll key, multimap => (multimap.takeAll key).2
  | .extend pairs, multimap => multimap.extend pairs
  | .ofList pairs, _ => .ofList pairs

/-- The multimap after some operations. -/
def after (changes : List (Change κ ν)) : Multimap κ ν :=
  changes.foldl (fun multimap change => change.run multimap) empty

end Multimap

namespace Pairs

variable {κ ν : Type} [BEq κ] [BEq ν]

/-- What an operation does to the pairs. -/
def apply (pairs : Pairs κ ν) : Multimap.Change κ ν → Pairs κ ν
  | .insert key value => pairs.insert key value
  | .remove key value => pairs.remove key value
  | .removeAll key => pairs.removeAll key
  | .extend added => pairs.insertAll added
  | .ofList added => insertAll [] added

/-- The pairs after some operations. -/
def after (changes : List (Multimap.Change κ ν)) : Pairs κ ν := changes.foldl apply []

end Pairs

namespace Multimap

variable {κ ν : Type} [BEq κ] [BEq ν]

/-- The values of every key are those of the pairs. -/
structure Refines (multimap : Multimap κ ν) (pairs : Pairs κ ν) : Prop where
  tidy : Tidy multimap.table
  distinct : Distinct pairs
  get_eq : ∀ key, multimap.get key = pairs.valuesOf key

/-- What a multimap tells about its pairs. -/
structure Presents (multimap : Multimap κ ν) (pairs : Pairs κ ν) : Prop where
  distinct : Distinct pairs
  get_eq : ∀ key, multimap.get key = pairs.valuesOf key
  contains_eq : ∀ key value, multimap.contains key value = pairs.contains (key, value)
  containsKey_iff : ∀ key, multimap.containsKey key = true ↔ ∃ pair ∈ pairs, (key == pair.1) = true
  size_eq : multimap.size = pairs.keys.length
  isEmpty_iff : multimap.isEmpty = true ↔ pairs = []
  inserted_iff : ∀ key value,
    (multimap.tryInsert key value).1 = true ↔ pairs.insert key value ≠ pairs
  removed_iff : ∀ key value,
    (multimap.tryRemove key value).1 = true ↔ pairs.remove key value ≠ pairs
  taken_eq : ∀ key, (multimap.takeAll key).1 = pairs.valuesOf key

namespace Refines

variable {multimap : Multimap κ ν} {pairs : Pairs κ ν}

theorem empty : Refines (Multimap.empty : Multimap κ ν) [] where
  tidy := .empty
  distinct := List.Pairwise.nil
  get_eq _ := rfl

theorem contains_eq (h : Refines multimap pairs) (key : κ) (value : ν) :
    multimap.contains key value = pairs.contains (key, value) := by
  rw [contains, h.get_eq, Pairs.contains_valuesOf]

section Steps

variable [EquivBEq κ]

/-- Table and pairs change the values of one key in the same way. -/
theorem rebind (h : Refines multimap pairs) (key : κ) (change : List ν → List ν)
    {table : Table κ (List ν)} {rest : Pairs κ ν} (htidy : Tidy table) (hdistinct : Distinct rest)
    (hget : ∀ other, (table.get? other).getD [] =
      if other == key then change (multimap.get key) else multimap.get other)
    (hvalues : ∀ other, rest.valuesOf other =
      if other == key then change (pairs.valuesOf other) else pairs.valuesOf other) :
    Refines ⟨table⟩ rest where
  tidy := htidy
  distinct := hdistinct
  get_eq other := by
    rw [Multimap.get, hget, hvalues]
    split
    · rename_i hsame
      rw [h.get_eq, pairs.valuesOf_congr hsame]
    · exact h.get_eq other

theorem removeAll (h : Refines multimap pairs) (key : κ) :
    Refines (multimap.removeAll key) (pairs.removeAll key) := by
  refine h.rebind key (fun _ => []) (h.tidy.erase key) (h.distinct.sublist List.filter_sublist)
    (fun other => ?_) (pairs.valuesOf_removeAll key)
  rw [Table.get?_erase]
  split <;> rfl

theorem remove [PartialEquivBEq ν] (h : Refines multimap pairs) (key : κ) (value : ν) :
    Refines (multimap.remove key value) (pairs.remove key value) := by
  have hdistinct : Distinct (pairs.remove key value) := h.distinct.sublist List.erase_sublist
  have hvalues := fun other => pairs.valuesOf_remove key other value
  rw [Multimap.remove, h.contains_eq]
  split
  · -- The key goes with its last value, so that no empty list is left.
    split
    · rename_i hrest
      refine h.rebind key (·.erase value) (h.tidy.erase key) hdistinct (fun other => ?_) hvalues
      rw [Table.get?_erase, hrest]
      split <;> rfl
    · rename_i hrest
      refine h.rebind key (·.erase value) (h.tidy.insert key hrest) hdistinct (fun other => ?_)
        hvalues
      rw [Table.get?_insert]
      split <;> rfl
  · rename_i hnew
    rw [Pairs.remove, erase_eq_self_iff.2 (Bool.eq_false_iff.2 hnew)]
    exact h

variable [PartialEquivBEq ν]

theorem insert (h : Refines multimap pairs) (key : κ) (value : ν) :
    Refines (multimap.insert key value) (pairs.insert key value) := by
  rw [Multimap.insert, Pairs.insert, h.contains_eq]
  split
  · exact h
  · rename_i hnew
    refine h.rebind key (· ++ [value]) (h.tidy.insert key (by simp))
      (h.distinct.concat (Bool.eq_false_iff.2 hnew)) (fun other => ?_)
      fun other => pairs.valuesOf_concat key other value
    rw [Table.get?_insert]
    split <;> rfl

theorem extend (h : Refines multimap pairs) (added : List (κ × ν)) :
    Refines (multimap.extend added) (pairs.insertAll added) := by
  induction added generalizing multimap pairs with
  | nil => exact h
  | cons pair rest ih => exact ih (h.insert pair.1 pair.2)

/-! ## Sequences of operations -/

/-- Every operation does to the values of the keys what it does to the pairs. -/
theorem run (h : Refines multimap pairs) (change : Change κ ν) :
    Refines (change.run multimap) (pairs.apply change) := by
  cases change with
  | insert key value => exact h.insert key value
  | remove key value => exact h.remove key value
  | removeAll key => exact h.removeAll key
  | extend added => exact h.extend added
  | ofList added => exact Refines.empty.extend added

theorem runAll (h : Refines multimap pairs) (changes : List (Change κ ν)) :
    Refines (changes.foldl (fun multimap change => change.run multimap) multimap)
      (changes.foldl Pairs.apply pairs) := by
  induction changes generalizing multimap pairs with
  | nil => exact h
  | cons change rest ih => exact ih (h.run change)

/-! ## What is seen of the pairs -/

omit [EquivBEq κ] [PartialEquivBEq ν] in
theorem containsKey_iff (h : Refines multimap pairs) (key : κ) :
    multimap.containsKey key = true ↔ ∃ pair ∈ pairs, (key == pair.1) = true := by
  rw [containsKey, h.tidy.contains_iff, ← Pairs.valuesOf_ne_nil_iff, ← h.get_eq, get]

omit [PartialEquivBEq ν] in
/-- The keys of the table and those of the pairs stand for each other. -/
theorem size_eq (h : Refines multimap pairs) : multimap.size = pairs.keys.length := by
  have hsize : multimap.size = multimap.table.keys.length := (List.length_map _).symm
  rw [hsize]
  refine h.tidy.distinct.length_eq (distinct_eraseDups _) (fun bound hbound => ?_)
    fun key hkey => ?_
  · have hcontains : multimap.table.keys.contains bound = true :=
      List.any_beq.symm.trans (List.any_eq_true.2 ⟨bound, hbound, BEq.refl bound⟩)
    rw [← Table.contains_eq] at hcontains
    obtain ⟨pair, hpair, hbeq⟩ := (h.containsKey_iff bound).1 hcontains
    obtain ⟨kept, hkept, hsame⟩ := exists_mem_eraseDups (List.mem_map_of_mem (f := Prod.fst) hpair)
    exact ⟨kept, hkept, BEq.trans hbeq hsame⟩
  · obtain ⟨pair, hpair, rfl⟩ := List.mem_map.1 ((eraseDups_sublist _).subset hkey)
    have hcontains := (h.containsKey_iff pair.1).2 ⟨pair, hpair, BEq.refl _⟩
    rw [containsKey, Table.contains_eq] at hcontains
    exact exists_of_contains hcontains

omit [PartialEquivBEq ν] in
theorem isEmpty_iff (h : Refines multimap pairs) : multimap.isEmpty = true ↔ pairs = [] := by
  have hempty : multimap.isEmpty = true ↔ multimap.size = 0 := by
    rw [isEmpty, size, Table.size, List.isEmpty_iff, List.length_eq_zero_iff]
  rw [hempty, h.size_eq]
  cases pairs with
  | nil => simp [Pairs.keys]
  | cons pair rest => simp [Pairs.keys, List.eraseDups_cons]

theorem presents (h : Refines multimap pairs) : multimap.Presents pairs where
  distinct := h.distinct
  get_eq := h.get_eq
  contains_eq := h.contains_eq
  containsKey_iff := h.containsKey_iff
  size_eq := h.size_eq
  isEmpty_iff := h.isEmpty_iff
  inserted_iff key value := by
    rw [tryInsert, h.contains_eq, Pairs.insert]
    cases pairs.contains (key, value) <;> simp
  removed_iff key value := by
    rw [tryRemove, h.contains_eq, Pairs.remove, Ne, erase_eq_self_iff, Bool.not_eq_false]
  taken_eq := h.get_eq

end Steps

end Refines

/-- After any operations on an empty multimap, the values of a key are those of the reference in
their order, membership of pairs and of keys agrees, the keys with a pair are counted, nothing is
there exactly when no pair is, and an insertion or a removal tells whether it changes the pairs. -/
theorem after_refines [EquivBEq κ] [PartialEquivBEq ν] (changes : List (Change κ ν)) :
    (Multimap.after changes).Presents (Pairs.after changes) :=
  (Refines.empty.runAll changes).presents

/-- A number, or what is none and differs even from itself. -/
inductive Reading where
  | number (value : Nat)
  | invalid

instance : BEq Reading where
  beq
    | .number a, .number b => a == b
    | _, _ => false

theorem Reading.beq_iff {a b : Reading} :
    (a == b) = true ↔ ∃ n, a = .number n ∧ b = .number n := by
  constructor
  · intro h
    cases a <;> cases b <;> try cases h
    case number.number n m =>
      obtain rfl : n = m := eq_of_beq h
      exact ⟨n, rfl, rfl⟩
  · rintro ⟨n, rfl, rfl⟩
    exact BEq.refl n

instance : PartialEquivBEq Reading where
  symm h := by
    obtain ⟨n, ha, hb⟩ := Reading.beq_iff.1 h
    exact Reading.beq_iff.2 ⟨n, hb, ha⟩
  trans h h' := by
    obtain ⟨n, ha, hb⟩ := Reading.beq_iff.1 h
    obtain ⟨m, hb', hc⟩ := Reading.beq_iff.1 h'
    obtain rfl : n = m := by simpa [hb] using hb'
    exact Reading.beq_iff.2 ⟨n, ha, hc⟩

/-- A reading that is no number is never found again; the last value of a key takes it along. -/
def readings : List (Change Nat Reading) :=
  [.ofList [(1, .invalid), (2, .number 5)], .insert 1 .invalid, .insert 2 (.number 5),
    .remove 1 .invalid, .remove 2 (.number 5), .extend [(3, .number 4), (1, .number 4)]]

theorem after_refines_readings :
    (Multimap.after readings).Presents (Pairs.after readings) ∧
      (Multimap.after readings).get 1 = [.invalid, .invalid, .number 4] ∧
      (Multimap.after readings).containsKey 2 = false ∧ (Multimap.after readings).size = 2 :=
  ⟨after_refines readings, rfl, rfl, rfl⟩

end Multimap

end PolyFront
