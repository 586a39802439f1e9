import PolyFront.Proofs.Solutions.KindTerms

/-!
# Parts of kinds

Where a kind stands in another one, and what replacing variables does to the parts.  The kinds
on a path from the root are all different, since each is lighter than the one before, so that no
path is longer than a list of all parts that are no variables.
-/

namespace PolyFront

namespace Kind

/-- A kind stands that many steps below the root of another one. -/
inductive At : Nat → Kind → Kind → Prop where
  | root (kind : Kind) : At 0 kind kind
  | arg {depth : Nat} {part arg : Kind} {args : List Kind} {result : Kind} (harg : arg ∈ args)
    (h : At depth part arg) : At (depth + 1) part (.higher args result)
  | result {depth : Nat} {part : Kind} {args : List Kind} {result : Kind}
    (h : At depth part result) : At (depth + 1) part (.higher args result)

theorem At.trans {depth depth' : Nat} {part mid kind : Kind} (h : At depth mid kind)
    (h' : At depth' part mid) : At (depth + depth') part kind := by
  induction h with
  | root kind =>
    rw [Nat.zero_add]
    exact h'
  | arg harg _ ih =>
    rw [Nat.succ_add]
    exact .arg harg (ih h')
  | result _ ih =>
    rw [Nat.succ_add]
    exact .result (ih h')

theorem At.bind {depth : Nat} {part kind : Kind} (h : At depth part kind) (f : Nat → Kind) :
    At depth (part.bind f) (kind.bind f) := by
  induction h with
  | root kind => exact .root _
  | arg harg _ ih =>
    rw [bind_higher]
    exact .arg (List.mem_map_of_mem harg) ih
  | result _ ih =>
    rw [bind_higher]
    exact .result ih

/-- A part of a kind whose variables are replaced comes from a part that is no variable, or
belongs to what replaces a variable. -/
theorem at_bind {f : Nat → Kind} {kind part : Kind} {depth : Nat}
    (h : At depth part (kind.bind f)) :
    (∃ origin, At depth origin kind ∧ origin.isUnsolved = false ∧ part = origin.bind f) ∨
      ∃ id ∈ kind.unknowns, ∃ below, At below part (f id) := by
  induction kind generalizing depth with
  | type =>
    rw [bind_type] at h
    cases h
    exact .inl ⟨.type, .root _, rfl, (bind_type f).symm⟩
  | unsolved id =>
    rw [bind_unsolved] at h
    exact .inr ⟨id, by simp, depth, h⟩
  | higher args result ihArgs ihResult =>
    rw [bind_higher] at h
    cases h with
    | root => exact .inl ⟨.higher args result, .root _, rfl, (bind_higher f args result).symm⟩
    | arg harg h =>
      obtain ⟨arg, hmem, rfl⟩ := List.mem_map.1 harg
      rcases ihArgs arg hmem h with ⟨origin, hat, hsolid, rfl⟩ | ⟨id, hid, below⟩
      · exact .inl ⟨origin, .arg hmem hat, hsolid, rfl⟩
      · refine .inr ⟨id, ?_, below⟩
        rw [unknowns_higher, List.mem_append, List.mem_flatMap]
        exact .inl ⟨arg, hmem, hid⟩
    | result h =>
      rcases ihResult h with ⟨origin, hat, hsolid, rfl⟩ | ⟨id, hid, below⟩
      · exact .inl ⟨origin, .result hat, hsolid, rfl⟩
      · refine .inr ⟨id, ?_, below⟩
        rw [unknowns_higher, List.mem_append]
        exact .inr hid

theorem At.unknowns_subset {depth : Nat} {part kind : Kind} (h : At depth part kind) :
    part.unknowns ⊆ kind.unknowns := by
  induction h with
  | root kind => exact List.Subset.refl _
  | arg harg _ ih =>
    intro id hid
    rw [unknowns_higher, List.mem_append, List.mem_flatMap]
    exact .inl ⟨_, harg, ih hid⟩
  | result _ ih =>
    intro id hid
    rw [unknowns_higher, List.mem_append]
    exact .inr (ih hid)

theorem exists_at_of_mem_unknowns {id : Nat} {kind : Kind} (h : id ∈ kind.unknowns) :
    ∃ depth, At depth (.unsolved id) kind := by
  induction kind with
  | type => simp at h
  | unsolved other =>
    obtain rfl : id = other := by simpa using h
    exact ⟨0, .root _⟩
  | higher args result ihArgs ihResult =>
    rw [unknowns_higher, List.mem_append, List.mem_flatMap] at h
    rcases h with ⟨arg, harg, hid⟩ | hid
    · obtain ⟨depth, hat⟩ := ihArgs arg harg hid
      exact ⟨depth + 1, .arg harg hat⟩
    · obtain ⟨depth, hat⟩ := ihResult hid
      exact ⟨depth + 1, .result hat⟩

/-! ## Weights -/

theorem weight_le_weightList {kind : Kind} {kinds : List Kind} (h : kind ∈ kinds) :
    kind.weight ≤ weightList kinds := by
  induction kinds with
  | nil => cases h
  | cons first rest ih =>
    rw [weightList]
    rcases List.mem_cons.1 h with rfl | h
    · exact Nat.le_add_right _ _
    · exact Nat.le_trans (ih h) (Nat.le_add_left _ _)

/-- Every step down makes a kind lighter. -/
theorem At.weight_le {depth : Nat} {part kind : Kind} (h : At depth part kind) :
    part.weight + depth ≤ kind.weight := by
  induction h with
  | root kind => exact Nat.le_refl _
  | arg harg _ ih =>
    have hle := weight_le_weightList harg
    rw [weight]
    omega
  | result _ ih =>
    rw [weight]
    omega

/-- No replacement makes a variable equal to a larger kind that mentions it. -/
theorem bind_ne_of_mem {id : Nat} {kind : Kind} (hmem : id ∈ kind.unknowns)
    (hne : kind ≠ .unsolved id) (f : Nat → Kind) : f id ≠ kind.bind f := by
  intro heq
  obtain ⟨depth, hat⟩ := exists_at_of_mem_unknowns hmem
  have hweight := (hat.bind f).weight_le
  rw [bind_unsolved, ← heq] at hweight
  obtain rfl : depth = 0 := by omega
  cases hat
  exact hne rfl

/-! ## Paths -/

/-- What is no variable below the root is different from the root. -/
theorem mem_erase_of_below {child kind : Kind} {depth : Nat} (hchild : At (depth + 1) child kind)
    {solids : List Kind}
    (hsolids : ∀ below inner, At below inner kind → inner.isUnsolved = false → inner ∈ solids) :
    ∀ below inner, At below inner child → inner.isUnsolved = false →
      inner ∈ solids.erase kind := by
  intro below inner hat hsolid
  have hinner := hchild.trans hat
  refine (List.mem_erase_of_ne ?_).2 (hsolids _ inner hinner hsolid)
  rintro rfl
  have hweight := hinner.weight_le
  omega

/-- No path is longer than a list of all parts that are no variables. -/
theorem At.depth_le {depth : Nat} {part kind : Kind} (h : At depth part kind) {solids : List Kind}
    (hsolids : ∀ below inner, At below inner kind → inner.isUnsolved = false → inner ∈ solids) :
    depth ≤ solids.length := by
  have hstep : ∀ {kind : Kind} {rest : Nat} {solids : List Kind}, kind ∈ solids →
      rest ≤ (solids.erase kind).length → rest + 1 ≤ solids.length := by
    intro kind rest solids hroot hrest
    rw [List.length_erase_of_mem hroot] at hrest
    have hpos := List.length_pos_of_mem hroot
    omega
  induction h generalizing solids with
  | root kind => exact Nat.zero_le _
  | @arg depth part arg args result harg h ih =>
    have hchild : At 1 arg (.higher args result) := .arg harg (.root _)
    exact hstep (hsolids 0 _ (.root _) rfl) (ih (mem_erase_of_below hchild hsolids))
  | @result depth part args result h ih =>
    have hchild : At 1 result (.higher args result) := .result (.root _)
    exact hstep (hsolids 0 _ (.root _) rfl) (ih (mem_erase_of_below hchild hsolids))

/-- No path is longer than the given number. -/
def Shallow (limit : Nat) (kind : Kind) : Prop := ∀ depth part, At depth part kind → depth ≤ limit

theorem shallow_unsolved (limit id : Nat) : Shallow limit (.unsolved id) := by
  intro depth part h
  cases h
  exact Nat.zero_le _

theorem Shallow.arg {limit : Nat} {args : List Kind} {result : Kind}
    (h : Shallow (limit + 1) (.higher args result)) : ∀ arg ∈ args, arg.Shallow limit :=
  fun _ harg _ _ hat => Nat.le_of_succ_le_succ (h _ _ (.arg harg hat))

theorem Shallow.result {limit : Nat} {args : List Kind} {result : Kind}
    (h : Shallow (limit + 1) (.higher args result)) : result.Shallow limit :=
  fun _ _ hat => Nat.le_of_succ_le_succ (h _ _ (.result hat))

theorem not_shallow_zero (args : List Kind) (result : Kind) : ¬Shallow 0 (.higher args result) :=
  fun h => absurd (h 1 result (.result (.root _))) (Nat.not_succ_le_zero 0)

mutual
/-- A kind and all that stands in it. -/
def parts : Kind → List Kind
  | .type => [.type]
  | .unsolved id => [.unsolved id]
  | .higher args result => .higher args result :: (partsList args ++ parts result)
def partsList : List Kind → List Kind
  | [] => []
  | kind :: rest => parts kind ++ partsList rest
end

theorem partsList_eq_flatMap (kinds : List Kind) : partsList kinds = kinds.flatMap parts := by
  induction kinds with
  | nil => rfl
  | cons kind rest ih => rw [partsList, ih, List.flatMap_cons]

theorem At.mem_parts {depth : Nat} {part kind : Kind} (h : At depth part kind) :
    part ∈ kind.parts := by
  induction h with
  | root kind => cases kind <;> simp [parts]
  | arg harg _ ih =>
    rw [parts, partsList_eq_flatMap]
    exact List.mem_cons_of_mem _ (List.mem_append_left _ (List.mem_flatMap.2 ⟨_, harg, ih⟩))
  | result _ ih =>
    rw [parts]
    exact List.mem_cons_of_mem _ (List.mem_append_right _ ih)

mutual
theorem length_parts (kind : Kind) : kind.parts.length = kind.weight := by
  cases kind with
  | type => rfl
  | unsolved id => rfl
  | higher args result =>
    rw [parts, weight, List.length_cons, List.length_append, length_partsList args,
      length_parts result]
theorem length_partsList (kinds : List Kind) : (partsList kinds).length = weightList kinds := by
  cases kinds with
  | nil => rfl
  | cons kind rest =>
    rw [partsList, weightList, List.length_append, length_parts kind, length_partsList rest]
end

/-! ## Replacing one variable -/

/-- One variable is replaced. -/
def single (id : Nat) (kind : Kind) : Nat → Kind :=
  fun other => if other = id then kind else .unsolved other

theorem single_self (id : Nat) (kind : Kind) : single id kind id = kind := if_pos rfl

theorem single_of_ne {id other : Nat} (h : other ≠ id) (kind : Kind) :
    single id kind other = .unsolved other := if_neg h

theorem bind_single_of_not_mem {id : Nat} {kind : Kind} (h : id ∉ kind.unknowns) (other : Kind) :
    kind.bind (single id other) = kind := by
  refine bind_self fun v hv => single_of_ne ?_ other
  rintro rfl
  exact h hv

/-- What gives a variable and a kind the same value absorbs the replacement of the variable. -/
theorem bind_single_bind {f : Nat → Kind} {id : Nat} {kind : Kind} (h : f id = kind.bind f)
    (other : Kind) : (other.bind (single id kind)).bind f = other.bind f := by
  rw [bind_bind]
  refine bind_congr fun v _ => ?_
  by_cases hv : v = id
  · rw [hv, single_self, h]
  · rw [single_of_ne hv, bind_unsolved]

end Kind

end PolyFront
