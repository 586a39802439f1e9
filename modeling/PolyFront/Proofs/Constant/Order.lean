import PolyFront.Constant.Analysis
import PolyFront.Proofs.Meaning.Layout

/-!
# The order of what is known

What is known about a name only ever moves up.  Between the constructors that a namespace
declares the order is flat: a constructor has fields or has none, so that no value lies below the
same constructor without fields.  Every change raises the rank of a name, and there are few ranks;
this bounds the number of changes.
-/

namespace PolyFront

namespace Lattice

/-- The second value allows for all that the first one does. -/
def Below (low high : Lattice) : Prop := low = .unassigned ∨ low = high ∨ high = .nonConstant

/-- The constructors are declared as they are used. -/
def Declared (ns : Lowered.Namespace) : Lattice → Prop
  | .known name => ∃ fields, ns.fields? name = some fields ∧ fields ≠ []
  | .constantConstructor name => ns.fields? name = some []
  | _ => True

def rank : Lattice → Nat
  | .unassigned => 1
  | .constant _ => 2
  | .known _ => 2
  | .constantConstructor _ => 3
  | .nonConstant => 4

theorem declared_unassigned (ns : Lowered.Namespace) : Declared ns .unassigned := True.intro

theorem declared_nonConstant (ns : Lowered.Namespace) : Declared ns .nonConstant := True.intro

theorem Below.refl (value : Lattice) : value.Below value := .inr (.inl rfl)

theorem below_nonConstant (value : Lattice) : value.Below .nonConstant := .inr (.inr rfl)

theorem unassigned_below (value : Lattice) : unassigned.Below value := .inl rfl

theorem Below.trans {a b c : Lattice} (hab : a.Below b) (hbc : b.Below c) : a.Below c := by
  rcases hab with rfl | rfl | rfl
  · exact unassigned_below c
  · exact hbc
  · rcases hbc with hbc | rfl | rfl
    · cases hbc
    · exact below_nonConstant a
    · exact below_nonConstant a

theorem Below.eq_nonConstant {value : Lattice} (h : nonConstant.Below value) :
    value = .nonConstant := by
  rcases h with h | h | h
  · cases h
  · exact h.symm
  · exact h

theorem compare_self (value : Lattice) : value.compare value = .equal := if_pos rfl

@[simp]
theorem join_self (value : Lattice) : value.join value = value := by rw [join, compare_self]

/-- A value that grows is compared as greater. -/
theorem Below.compare {low high : Lattice} (h : low.Below high) (hne : high ≠ low) :
    high.compare low = .greater := by
  rcases h with rfl | rfl | rfl
  · cases high <;> simp [Lattice.compare] at hne ⊢
  · exact (hne rfl).elim
  · cases low <;> simp [Lattice.compare] at hne ⊢

variable {ns : Lowered.Namespace} {a b : Lattice}

/-- One of two values is above the other, or nothing but the top is above both. -/
theorem join_cases (ha : a.Declared ns) (hb : b.Declared ns) :
    a.join b = a ∧ b.Below a ∨ a.join b = b ∧ a.Below b ∨ a.join b = .nonConstant := by
  by_cases heq : a = b
  · subst heq
    exact .inl ⟨join_self a, Below.refl a⟩
  · -- A constructor with fields and the same one without are not both declared.
    have hapart : ∀ {name : ConstructorName}, Declared ns (.known name) →
        ¬Declared ns (.constantConstructor name) := by
      rintro name ⟨fields, hfields, hne⟩ hnone
      exact hne (Option.some.inj (hfields.symm.trans hnone))
    cases a <;> cases b <;> simp [join, Lattice.compare, Below] at heq ⊢
    all_goals try simp [heq]
    case known.constantConstructor name name' =>
      by_cases hname : name = name'
      · exact (hapart ha (hname ▸ hb)).elim
      · simp [hname]
    case constantConstructor.known name name' =>
      by_cases hname : name = name'
      · exact (hapart hb (hname ▸ ha)).elim
      · simp [hname]

theorem below_join_left (ha : a.Declared ns) (hb : b.Declared ns) : a.Below (a.join b) := by
  rcases join_cases ha hb with ⟨heq, -⟩ | ⟨heq, hbelow⟩ | heq
  · rw [heq]
    exact Below.refl a
  · rw [heq]
    exact hbelow
  · rw [heq]
    exact below_nonConstant a

theorem below_join_right (ha : a.Declared ns) (hb : b.Declared ns) : b.Below (a.join b) := by
  rcases join_cases ha hb with ⟨heq, hbelow⟩ | ⟨heq, -⟩ | heq
  · rw [heq]
    exact hbelow
  · rw [heq]
    exact Below.refl b
  · rw [heq]
    exact below_nonConstant b

theorem declared_join (ha : a.Declared ns) (hb : b.Declared ns) : (a.join b).Declared ns := by
  rcases join_cases ha hb with ⟨heq, -⟩ | ⟨heq, -⟩ | heq
  · rw [heq]
    exact ha
  · rw [heq]
    exact hb
  · rw [heq]
    exact True.intro

/-- A value is not changed by what it allows for. -/
theorem Below.join_eq {low high : Lattice} (h : low.Below high) : high.join low = high := by
  by_cases heq : high = low
  · rw [heq, join_self]
  · rw [join, h.compare heq]

theorem unassigned_join (value : Lattice) : unassigned.join value = value := by
  cases value <;> rfl

/-- What allows for two values allows for their join. -/
theorem join_below {low low' high : Lattice} (h : low.Below high) (h' : low'.Below high) :
    (low.join low').Below high := by
  rcases h' with rfl | rfl | rfl
  · rw [(unassigned_below low).join_eq]
    exact h
  · rcases h with rfl | rfl | rfl
    · exact .inr (.inl (unassigned_join low'))
    · rw [(Below.refl low).join_eq]
      exact Below.refl low
    · exact below_nonConstant _
  · exact below_nonConstant _

/-- The order that values are compared by. -/
def AtMost (low high : Lattice) : Prop := low.compare high = .less ∨ low.compare high = .equal

theorem AtMost.refl (value : Lattice) : value.AtMost value := .inr (compare_self value)

theorem atMost_cases {low high : Lattice} : low.AtMost high ↔
    low.Below high ∨ ∃ name, low = .known name ∧ high = .constantConstructor name := by
  unfold AtMost Lattice.compare Below
  cases low <;> cases high <;> simp
  all_goals grind

theorem Below.atMost {low high : Lattice} (h : low.Below high) : low.AtMost high :=
  atMost_cases.2 (.inl h)

theorem AtMost.trans {a b c : Lattice} (hab : a.AtMost b) (hbc : b.AtMost c) : a.AtMost c := by
  rw [atMost_cases, Below] at *
  grind

theorem AtMost.antisymm {a b : Lattice} (hab : a.AtMost b) (hba : b.AtMost a) : a = b := by
  rw [atMost_cases, Below] at *
  grind

theorem atMost_join_left (a b : Lattice) : a.AtMost (a.join b) := by
  unfold join
  split
  · exact (below_nonConstant a).atMost
  · exact .inl ‹_›
  · exact .refl a
  · exact .refl a

/-- A value that grows is of higher rank. -/
theorem AtMost.rank_lt {low high : Lattice} (h : low.AtMost high) (hne : high ≠ low) :
    low.rank < high.rank := by
  rcases atMost_cases.1 h with (rfl | rfl | rfl) | ⟨name, rfl, rfl⟩
  · cases high <;> simp [rank] at hne ⊢
  · exact (hne rfl).elim
  · cases low <;> simp [rank] at hne ⊢
  · exact Nat.lt_succ_self 2

theorem rank_le (value : Lattice) : value.rank ≤ Analysis.changesPerName := by
  cases value <;> simp [rank, Analysis.changesPerName]

theorem rank_pos (value : Lattice) : 0 < value.rank := by
  cases value <;> simp [rank]

/-- A join that changes a value raises its rank. -/
theorem rank_lt_join (h : a.join b ≠ a) : a.rank < (a.join b).rank :=
  (atMost_join_left a b).rank_lt h

end Lattice

namespace Analysis

/-! ## Records -/

variable {ns : Lowered.Namespace}

/-- The analysis in which a name is bound to another value. -/
def raise (analysis : Analysis) (name : Name) (value : Lattice) : Analysis :=
  { analysis with
    values := analysis.values.insert name value, changes := analysis.changes + 1 }

/-- A record leaves everything as it is, or binds a name to a value above the one it had. -/
theorem record_cases (analysis : Analysis) (name : Name) (value : Lattice) :
    (∃ known, analysis.values.get? name = some known ∧ known.join value = known ∧
        analysis.record name value = (known, analysis)) ∨
      ∃ raised, (analysis.values.get? name = none ∧ raised = value ∨
          ∃ known, analysis.values.get? name = some known ∧ raised = known.join value ∧
            raised ≠ known) ∧
        analysis.record name value = (raised, analysis.raise name raised) := by
  unfold record
  cases hknown : analysis.values.get? name with
  | none => exact .inr ⟨value, .inl ⟨rfl, rfl⟩, rfl⟩
  | some known =>
    by_cases hjoin : known.join value = known
    · exact .inl ⟨known, rfl, hjoin, if_pos hjoin⟩
    · exact .inr ⟨known.join value, .inr ⟨known, rfl, rfl, hjoin⟩, if_neg hjoin⟩

theorem get?_raise (analysis : Analysis) (name other : Name) (value : Lattice) :
    (analysis.raise name value).values.get? other =
      if other = name then some value else analysis.values.get? other := by
  refine (Table.get?_insert _ _ _ _).trans ?_
  by_cases h : other = name
  · rw [if_pos (beq_iff_eq.2 h), if_pos h]
  · rw [if_neg (fun heq => h (eq_of_beq heq)), if_neg h]

theorem lookup_raise (analysis : Analysis) (name other : Name) (value : Lattice) :
    (analysis.raise name value).lookup other =
      if other = name then value else analysis.lookup other := by
  rw [lookup, get?_raise]
  split
  · rfl
  · rfl

/-- The result of a record is what is known afterwards. -/
theorem record_fst (analysis : Analysis) (name : Name) (value : Lattice) :
    (analysis.record name value).1 = (analysis.record name value).2.lookup name := by
  rcases analysis.record_cases name value with ⟨known, hknown, -, heq⟩ | ⟨raised, -, heq⟩
  · rw [heq, lookup, hknown]
    rfl
  · rw [heq, lookup_raise, if_pos rfl]

/-- A record is about one name. -/
theorem lookup_record_of_ne (analysis : Analysis) {name other : Name} (value : Lattice)
    (h : other ≠ name) : (analysis.record name value).2.lookup other = analysis.lookup other := by
  rcases analysis.record_cases name value with ⟨known, -, -, heq⟩ | ⟨raised, -, heq⟩
  · rw [heq]
  · rw [heq, lookup_raise, if_neg h]

theorem record_values_ne_none (analysis : Analysis) (name : Name) (value : Lattice) :
    (analysis.record name value).2.values.get? name ≠ none := by
  rcases analysis.record_cases name value with ⟨known, hknown, -, heq⟩ | ⟨raised, -, heq⟩
  · rw [heq, hknown]
    exact nofun
  · rw [heq, get?_raise, if_pos rfl]
    exact nofun

/-! ## Entries -/

/-- The name has an entry that allows for the value. -/
def Holds (analysis : Analysis) (name : Name) (value : Lattice) : Prop :=
  ∃ entry, analysis.values.get? name = some entry ∧ value.Below entry

/-- Every entry is kept or raised. -/
def Grows (before after : Analysis) : Prop :=
  ∀ name entry, before.values.get? name = some entry → after.Holds name entry

section Entries

variable {before mid after : Analysis} {name : Name} {value value' : Lattice}

theorem Holds.below (h : before.Holds name value) : value.Below (before.lookup name) := by
  obtain ⟨entry, hentry, hbelow⟩ := h
  rw [lookup, hentry]
  exact hbelow

theorem Holds.mono (h : before.Holds name value) (hbelow : value'.Below value) :
    before.Holds name value' := by
  obtain ⟨entry, hentry, hvalue⟩ := h
  exact ⟨entry, hentry, hbelow.trans hvalue⟩

theorem Holds.grows (h : before.Holds name value) (hgrows : before.Grows after) :
    after.Holds name value := by
  obtain ⟨entry, hentry, hbelow⟩ := h
  exact (hgrows name entry hentry).mono hbelow

/-- A record of what the entry allows for changes nothing. -/
theorem Holds.record_eq (h : before.Holds name value) :
    before.record name value = (before.lookup name, before) := by
  obtain ⟨entry, hentry, hbelow⟩ := h
  unfold record
  rw [lookup, hentry]
  exact if_pos hbelow.join_eq

theorem holds_of_lookup (h : before.lookup name = .nonConstant) : before.Holds name value := by
  rw [lookup] at h
  cases hentry : before.values.get? name with
  | none =>
    rw [hentry] at h
    cases h
  | some entry =>
    rw [hentry] at h
    exact ⟨entry, hentry, .inr (.inr h)⟩

theorem Grows.refl (analysis : Analysis) : analysis.Grows analysis :=
  fun _ entry hentry => ⟨entry, hentry, .refl entry⟩

theorem Grows.trans (h : before.Grows mid) (h' : mid.Grows after) : before.Grows after :=
  fun name entry hentry => (h name entry hentry).grows h'

theorem Grows.below (h : before.Grows after) (name : Name) :
    (before.lookup name).Below (after.lookup name) := by
  rw [lookup]
  cases hentry : before.values.get? name with
  | none => exact Lattice.unassigned_below _
  | some entry => exact (h name entry hentry).below

end Entries

/-! ## Levels -/

/-- How far a name has moved. -/
def level (analysis : Analysis) (name : Name) : Nat :=
  match analysis.values.get? name with
  | none => 0
  | some value => value.rank

/-- How far names can move still. -/
def potential (analysis : Analysis) (names : List Name) : Nat :=
  total (fun name => changesPerName - analysis.level name) names

theorem level_le (analysis : Analysis) (name : Name) : analysis.level name ≤ changesPerName := by
  unfold level
  split
  · exact Nat.zero_le _
  · exact Lattice.rank_le _

theorem potential_le (analysis : Analysis) (names : List Name) :
    analysis.potential names ≤ changesPerName * names.length := by
  induction names with
  | nil => exact Nat.zero_le _
  | cons name rest ih =>
    rw [potential, total_cons, List.length_cons, Nat.mul_succ]
    have : total (fun name => changesPerName - analysis.level name) rest ≤ _ := ih
    omega

/-- Names that move up leave less to move, and one of them that moves leaves less by one. -/
theorem potential_lt {before after : Analysis} {names : List Name} {name : Name}
    (hname : name ∈ names) (hle : ∀ n, before.level n ≤ after.level n)
    (hlt : before.level name < after.level name) :
    after.potential names < before.potential names := by
  have hrest : ∀ names : List Name, after.potential names ≤ before.potential names := by
    intro names
    induction names with
    | nil => exact Nat.le_refl _
    | cons n rest ih =>
      have := hle n
      simp only [potential, total_cons] at ih ⊢
      omega
  induction names with
  | nil => cases hname
  | cons n rest ih =>
    have hn := hle n
    have hbound := after.level_le n
    have hall := hrest rest
    simp only [potential, total_cons] at ih hall ⊢
    rcases List.mem_cons.1 hname with rfl | hmem
    · have := after.level_le name
      omega
    · have := ih hmem
      omega

/-- A value of higher rank leaves a name less to move. -/
theorem potential_raise {analysis : Analysis} {names : List Name} {name : Name}
    {value : Lattice} (hname : name ∈ names) (hlevel : analysis.level name < value.rank) :
    (analysis.raise name value).potential names < analysis.potential names := by
  have hlevels : ∀ other, (analysis.raise name value).level other =
      if other = name then value.rank else analysis.level other := by
    intro other
    rw [level, get?_raise]
    by_cases heq : other = name
    · rw [if_pos heq, if_pos heq]
    · rw [if_neg heq, if_neg heq]
      rfl
  refine potential_lt hname (fun other => ?_) ?_
  · rw [hlevels]
    split
    · rename_i heq
      exact heq ▸ Nat.le_of_lt hlevel
    · exact Nat.le_refl _
  · rw [hlevels, if_pos rfl]
    exact hlevel

end Analysis

end PolyFront
