import PolyFront.Proofs.Subtyping.Terms

/-!
# Paths in types

Where a type stands in another one.  The types on a path from the root are all different, since
each is lighter than the one before, so that no path is longer than a list of all parts that are no
variables.
-/

namespace PolyFront

namespace Ty

/-- A type stands that many steps below the root of an application or of another type. -/
inductive At : Nat → Ty → Ty → Prop where
  | root (type : Ty) : At 0 type type
  | head {depth : Nat} {part head : Ty} {args : List Ty} {kind : Kind} (h : At depth part head) :
    At (depth + 1) part (.apply head args kind)
  | arg {depth : Nat} {part head arg : Ty} {args : List Ty} {kind : Kind} (harg : arg ∈ args)
    (h : At depth part arg) : At (depth + 1) part (.apply head args kind)

variable {depth depth' limit : Nat} {part mid type : Ty}

theorem At.trans (h : At depth mid type) (h' : At depth' part mid) :
    At (depth + depth') part type := by
  induction h with
  | root type =>
    rw [Nat.zero_add]
    exact h'
  | head _ ih =>
    rw [Nat.succ_add]
    exact .head (ih h')
  | arg harg _ ih =>
    rw [Nat.succ_add]
    exact .arg harg (ih h')

theorem At.subst (h : At depth part type) (assignment : Nat → Ty) :
    At depth (part.subst assignment) (type.subst assignment) := by
  induction h with
  | root type => exact .root _
  | head _ ih =>
    rw [subst_apply]
    exact .head ih
  | arg harg _ ih =>
    rw [subst_apply]
    exact .arg (List.mem_map_of_mem harg) ih

theorem At.mentions_subset (h : At depth part type) : part.mentions ⊆ type.mentions := by
  induction h with
  | root type => exact List.Subset.refl _
  | head _ ih =>
    intro v hv
    rw [mentions]
    exact List.mem_append_left _ (ih hv)
  | arg harg _ ih =>
    intro v hv
    rw [mentions, List.mem_append, List.mem_flatMap]
    exact .inr ⟨_, harg, ih hv⟩

theorem At.mentions {id : Nat} {kind : Kind} (h : At depth (.unsolved id kind) type) :
    type.Mentions id := by
  refine ⟨kind, h.mentions_subset ?_⟩
  rw [Ty.mentions]
  exact List.mem_cons_self

/-- A part of a first-order type whose variables are replaced comes from a part that is no
variable, or belongs to what replaces a variable. -/
theorem at_subst {assignment : Nat → Ty} (h : At depth part (type.subst assignment))
    (htype : type.FirstOrder) :
    (∃ origin, At depth origin type ∧ origin.isUnsolved = false ∧
        part = origin.subst assignment) ∨
      ∃ id kind above below, depth = above + below ∧ At above (.unsolved id kind) type ∧
        At below part (assignment id) := by
  induction type generalizing depth with
  | var quantifier name kind =>
    rw [subst_var] at h
    cases h
    exact .inl ⟨_, .root _, rfl, (subst_var _ _ _ _).symm⟩
  | unsolved id kind =>
    rw [subst_unsolved] at h
    exact .inr ⟨id, kind, 0, depth, (Nat.zero_add _).symm, .root _, h⟩
  | constructor name kind =>
    rw [subst_constructor] at h
    cases h
    exact .inl ⟨_, .root _, rfl, (subst_constructor _ _ _).symm⟩
  | builtIn type =>
    rw [subst_builtIn] at h
    cases h
    exact .inl ⟨_, .root _, rfl, (subst_builtIn _ _).symm⟩
  | quantified binders body kind => exact (not_firstOrder_quantified _ _ _ htype).elim
  | apply head args kind ihHead ihArgs =>
    obtain ⟨-, hhead, hargs⟩ := firstOrder_apply.1 htype
    rw [subst_apply] at h
    cases h with
    | root => exact .inl ⟨_, .root _, rfl, (subst_apply _ _ _ _).symm⟩
    | head h =>
      rcases ihHead h hhead with ⟨origin, hat, hsolid, rfl⟩ | ⟨id, k, above, below, rfl, hat, hpart⟩
      · exact .inl ⟨origin, .head hat, hsolid, rfl⟩
      · exact .inr ⟨id, k, above + 1, below, Nat.add_right_comm _ _ _, .head hat, hpart⟩
    | arg harg h =>
      obtain ⟨arg, hmem, rfl⟩ := List.mem_map.1 harg
      rcases ihArgs arg hmem h (hargs arg hmem) with
        ⟨origin, hat, hsolid, rfl⟩ | ⟨id, k, above, below, rfl, hat, hpart⟩
      · exact .inl ⟨origin, .arg hmem hat, hsolid, rfl⟩
      · exact .inr ⟨id, k, above + 1, below, Nat.add_right_comm _ _ _, .arg hmem hat, hpart⟩

/-! ## Weights -/

theorem weight_le_weightList {types : List Ty} (h : type ∈ types) :
    type.weight ≤ weightList types := by
  induction types with
  | nil => cases h
  | cons first rest ih =>
    rw [weightList]
    rcases List.mem_cons.1 h with rfl | h
    · exact Nat.le_add_right _ _
    · exact Nat.le_trans (ih h) (Nat.le_add_left _ _)

/-- Every step down makes a type lighter. -/
theorem At.weight_le (h : At depth part type) : part.weight + depth ≤ type.weight := by
  induction h with
  | root type => exact Nat.le_refl _
  | head _ ih =>
    rw [weight]
    omega
  | arg harg _ ih =>
    have hle := weight_le_weightList harg
    rw [weight]
    omega

theorem weight_arrow (count : Nat) (head : Ty) : (arrow count head).weight = head.weight := by
  rcases arrow_cases count head with ⟨arity, rfl, heq⟩ | ⟨-, heq⟩
  · rw [heq, weight, weight]
  · rw [heq]

mutual
theorem weight_bare (type : Ty) : type.bare.weight = type.weight := by
  cases type with
  | apply head args kind =>
    rw [bare, weight, weight, weight_arrow, weight_bare head, weight_bareList args]
  | quantified binders body kind =>
    rw [bare, weight, weight, weight_bareList binders, weight_bare body]
  | var quantifier name kind => simp [weight]
  | unsolved id kind => simp [weight]
  | constructor name kind => simp [weight]
  | builtIn type => simp
theorem weight_bareList (types : List Ty) : weightList (bareList types) = weightList types := by
  cases types with
  | nil => rfl
  | cons type rest => rw [bareList, weightList, weightList, weight_bare type, weight_bareList rest]
end

/-! ## Parts -/

/-- What is no variable below the root is lighter than the root. -/
theorem mem_lighter_of_below {child : Ty} (hchild : At 1 child type) {solids : List Ty}
    (hsolids : ∀ below inner, At below inner type → inner.isUnsolved = false → inner ∈ solids) :
    ∀ below inner, At below inner child → inner.isUnsolved = false →
      inner ∈ solids.filter fun other => other.weight < type.weight := by
  intro below inner hat hsolid
  have hinner := hchild.trans hat
  refine List.mem_filter.2 ⟨hsolids _ inner hinner hsolid, ?_⟩
  have hweight := hinner.weight_le
  rw [decide_eq_true_eq]
  omega

/-- No path is longer than a list of all parts that are no variables. -/
theorem At.depth_le (h : At depth part type) {solids : List Ty}
    (hsolids : ∀ below inner, At below inner type → inner.isUnsolved = false → inner ∈ solids) :
    depth ≤ solids.length := by
  -- The root is the only part that is as heavy as itself.
  have hstep : ∀ {type : Ty} {rest : Nat} {solids : List Ty}, type ∈ solids →
      rest ≤ (solids.filter fun other => other.weight < type.weight).length →
      rest + 1 ≤ solids.length := by
    intro type rest solids hroot hrest
    have hout : ∃ other ∈ solids, ¬decide (other.weight < type.weight) = true :=
      ⟨type, hroot, by simp⟩
    have hlt := List.length_filter_lt_length_iff_exists.2 hout
    omega
  induction h generalizing solids with
  | root type => exact Nat.zero_le _
  | @head depth part head args kind h ih =>
    have hchild : At 1 head (.apply head args kind) := .head (.root _)
    exact hstep (hsolids 0 _ (.root _) rfl) (ih (mem_lighter_of_below hchild hsolids))
  | @arg depth part head arg args kind harg h ih =>
    have hchild : At 1 arg (.apply head args kind) := .arg harg (.root _)
    exact hstep (hsolids 0 _ (.root _) rfl) (ih (mem_lighter_of_below hchild hsolids))

mutual
/-- A type and all that stands in it. -/
def parts : Ty → List Ty
  | .var quantifier name kind => [.var quantifier name kind]
  | .unsolved id kind => [.unsolved id kind]
  | .constructor name kind => [.constructor name kind]
  | .apply head args kind => .apply head args kind :: (parts head ++ partsList args)
  | .quantified binders body kind =>
    .quantified binders body kind :: (partsList binders ++ parts body)
  | .builtIn type => [.builtIn type]
def partsList : List Ty → List Ty
  | [] => []
  | type :: rest => parts type ++ partsList rest
end

theorem partsList_eq_flatMap (types : List Ty) : partsList types = types.flatMap parts := by
  induction types with
  | nil => rfl
  | cons type rest ih => rw [partsList, ih, List.flatMap_cons]

theorem At.mem_parts (h : At depth part type) : part ∈ type.parts := by
  induction h with
  | root type => cases type <;> simp [parts]
  | head _ ih =>
    rw [parts]
    exact List.mem_cons_of_mem _ (List.mem_append_left _ ih)
  | arg harg _ ih =>
    rw [parts, partsList_eq_flatMap]
    exact List.mem_cons_of_mem _ (List.mem_append_right _ (List.mem_flatMap.2 ⟨_, harg, ih⟩))

mutual
theorem length_parts (type : Ty) : type.parts.length = type.weight := by
  cases type with
  | apply head args kind =>
    rw [parts, weight, List.length_cons, List.length_append, length_parts head,
      length_partsList args]
  | quantified binders body kind =>
    rw [parts, weight, List.length_cons, List.length_append, length_partsList binders,
      length_parts body]
  | var quantifier name kind => rfl
  | unsolved id kind => rfl
  | constructor name kind => rfl
  | builtIn type => rfl
theorem length_partsList (types : List Ty) : (partsList types).length = weightList types := by
  cases types with
  | nil => rfl
  | cons type rest =>
    rw [partsList, weightList, List.length_append, length_parts type, length_partsList rest]
end

/-- No path is longer than the given number. -/
def Shallow (limit : Nat) (type : Ty) : Prop := ∀ depth part, At depth part type → depth ≤ limit

theorem Shallow.arg {head : Ty} {args : List Ty} {kind : Kind}
    (h : Shallow (limit + 1) (.apply head args kind)) : ∀ arg ∈ args, arg.Shallow limit :=
  fun _ harg _ _ hat => Nat.le_of_succ_le_succ (h _ _ (.arg harg hat))

theorem not_shallow_zero (head : Ty) (args : List Ty) (kind : Kind) :
    ¬Shallow 0 (.apply head args kind) :=
  fun h => absurd (h 1 head (.head (.root _))) (Nat.not_succ_le_zero 0)

/-- Paths get no longer when variables are put for variables. -/
theorem Shallow.subst (h : type.Shallow limit) (htype : type.FirstOrder) {assignment : Nat → Ty}
    (hassignment : ∀ id, type.Mentions id → (assignment id).isUnsolved = true) :
    (type.subst assignment).Shallow limit := by
  intro depth part hat
  rcases at_subst hat htype with ⟨origin, hat, -, -⟩ | ⟨id, kind, above, below, rfl, habove, hpart⟩
  · exact h _ _ hat
  · obtain ⟨other, otherKind, hother⟩ := unknown_iff.1 (hassignment id habove.mentions)
    rw [hother] at hpart
    cases hpart
    exact h _ _ habove

end Ty

end PolyFront
