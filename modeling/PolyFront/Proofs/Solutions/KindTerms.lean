import PolyFront.Proofs.Solutions.Sound
import PolyFront.Checking.Store

/-!
# Kinds as terms

The variables that a kind mentions and how substitution changes them.  A kind is proper when it
mentions only variables that were created.
-/

namespace PolyFront

namespace Walk

variable {σ α : Type}

/-- The items of a stack are those of its nodes, one after the other. -/
theorem run_append (walk : Walk σ α) (left right : List σ) :
    walk.run (left ++ right) = walk.run left ++ walk.run right := by
  fun_induction walk.run left with
  | case1 => rfl
  | case2 node stack hstep ih => rw [List.cons_append, run, hstep, ih]
  | case3 node stack item hstep ih => rw [List.cons_append, run, hstep, ih, List.cons_append]
  | case4 node stack children hstep ih =>
    rw [List.cons_append, run, hstep, ← ih, List.append_assoc]

theorem run_eq_flatMap (walk : Walk σ α) (stack : List σ) :
    walk.run stack = stack.flatMap walk.items := by
  induction stack with
  | nil => rw [run, List.flatMap_nil]
  | cons node rest ih =>
    rw [List.flatMap_cons, ← ih, items, ← run_append, List.singleton_append]

end Walk

namespace Kind

/-- Induction over kinds, with the arguments of a higher kind as a list. -/
@[induction_eliminator]
theorem induct {motive : Kind → Prop} (type : motive .type)
    (unsolved : ∀ id, motive (.unsolved id))
    (higher : ∀ args result, (∀ arg ∈ args, motive arg) → motive result →
      motive (.higher args result)) : ∀ kind, motive kind
  | .type => type
  | .unsolved id => unsolved id
  | .higher args result =>
    higher args result (fun arg _ => induct type unsolved higher arg)
      (induct type unsolved higher result)

@[simp]
theorem unknowns_type : unknowns .type = [] := by
  rw [unknowns, Walk.items, Walk.run]
  simp [walk, Walk.run]

@[simp]
theorem unknowns_unsolved (id : Nat) : unknowns (.unsolved id) = [id] := by
  rw [unknowns, Walk.items, Walk.run]
  simp [walk, Walk.run]

@[simp]
theorem unknowns_higher (args : List Kind) (result : Kind) :
    unknowns (.higher args result) = args.flatMap unknowns ++ result.unknowns := by
  have hrun : unknowns (.higher args result) = walk.run (args ++ [result]) := by
    rw [unknowns, Walk.items, Walk.run]
    simp [walk]
  rw [hrun, Walk.run_append, Walk.run_eq_flatMap]
  rfl

theorem occurs_iff {id : Nat} {kind : Kind} : kind.occurs id = true ↔ id ∈ kind.unknowns := by
  rw [occurs, List.contains_iff_mem]

theorem bindList_eq_map (f : Nat → Kind) (kinds : List Kind) :
    bindList f kinds = kinds.map (bind f) := by
  induction kinds with
  | nil => rfl
  | cons kind rest ih => rw [bindList, ih, List.map_cons]

@[simp]
theorem bind_type (f : Nat → Kind) : Kind.bind f .type = .type := rfl

@[simp]
theorem bind_unsolved (f : Nat → Kind) (id : Nat) : Kind.bind f (.unsolved id) = f id := rfl

@[simp]
theorem bind_higher (f : Nat → Kind) (args : List Kind) (result : Kind) :
    Kind.bind f (.higher args result) = .higher (args.map (Kind.bind f)) (Kind.bind f result) := by
  rw [Kind.bind, bindList_eq_map]

theorem bind_congr {f g : Nat → Kind} {kind : Kind} (h : ∀ id ∈ kind.unknowns, f id = g id) :
    kind.bind f = kind.bind g := by
  induction kind with
  | type => simp
  | unsolved id => simpa using h
  | higher args result ihArgs ihResult =>
    simp only [unknowns_higher, List.mem_append, List.mem_flatMap] at h
    have hargs : args.map (Kind.bind f) = args.map (Kind.bind g) :=
      List.map_congr_left fun arg harg =>
        ihArgs arg harg fun id hid => h id (.inl ⟨arg, harg, hid⟩)
    rw [bind_higher, bind_higher, hargs, ihResult fun id hid => h id (.inr hid)]

theorem bind_self {f : Nat → Kind} {kind : Kind} (h : ∀ id ∈ kind.unknowns, f id = .unsolved id) :
    kind.bind f = kind := by
  induction kind with
  | type => simp
  | unsolved id => simpa using h
  | higher args result ihArgs ihResult =>
    simp only [unknowns_higher, List.mem_append, List.mem_flatMap] at h
    have hargs : args.map (Kind.bind f) = args.map id :=
      List.map_congr_left fun arg harg =>
        ihArgs arg harg fun id hid => h id (.inl ⟨arg, harg, hid⟩)
    rw [List.map_id] at hargs
    rw [bind_higher, hargs, ihResult fun id hid => h id (.inr hid)]

theorem bind_bind (f g : Nat → Kind) (kind : Kind) :
    (kind.bind f).bind g = kind.bind fun id => (f id).bind g := by
  induction kind with
  | type => simp
  | unsolved id => simp
  | higher args result ihArgs ihResult =>
    have hargs : (args.map (Kind.bind f)).map (Kind.bind g) =
        args.map (Kind.bind fun id => (f id).bind g) := by
      rw [List.map_map]
      exact List.map_congr_left fun arg harg => ihArgs arg harg
    rw [bind_higher, bind_higher, bind_higher, hargs, ihResult]

theorem mem_unknowns_bind {f : Nat → Kind} {kind : Kind} {id : Nat} :
    id ∈ (kind.bind f).unknowns ↔ ∃ other ∈ kind.unknowns, id ∈ (f other).unknowns := by
  induction kind with
  | type => simp
  | unsolved other => simp
  | higher args result ihArgs ihResult =>
    simp only [bind_higher, unknowns_higher, List.mem_append, List.mem_flatMap, List.mem_map,
      ihResult]
    constructor
    · rintro (⟨_, ⟨arg, harg, rfl⟩, hid⟩ | ⟨other, hother, hid⟩)
      · obtain ⟨other, hother, hid⟩ := (ihArgs arg harg).1 hid
        exact ⟨other, .inl ⟨arg, harg, hother⟩, hid⟩
      · exact ⟨other, .inr hother, hid⟩
    · rintro ⟨other, ⟨arg, harg, hother⟩ | hother, hid⟩
      · exact .inl ⟨_, ⟨arg, harg, rfl⟩, (ihArgs arg harg).2 ⟨other, hother, hid⟩⟩
      · exact .inr ⟨other, hother, hid⟩

/-- A kind that mentions only variables that were created. -/
def Proper (created : Nat) (kind : Kind) : Prop := ∀ id ∈ kind.unknowns, id < created

instance (created : Nat) (kind : Kind) : Decidable (kind.Proper created) :=
  inferInstanceAs (Decidable (∀ id ∈ kind.unknowns, id < created))

theorem Proper.mono {created created' : Nat} {kind : Kind} (h : kind.Proper created)
    (hle : created ≤ created') : kind.Proper created' :=
  fun id hid => Nat.lt_of_lt_of_le (h id hid) hle

theorem proper_type (created : Nat) : Kind.Proper created .type := by simp [Proper]

theorem proper_unsolved {created id : Nat} : Kind.Proper created (.unsolved id) ↔ id < created := by
  simp [Proper]

theorem proper_higher {created : Nat} {args : List Kind} {result : Kind} :
    Kind.Proper created (.higher args result) ↔
      (∀ arg ∈ args, arg.Proper created) ∧ result.Proper created := by
  simp only [Proper, unknowns_higher, List.mem_append, List.mem_flatMap]
  constructor
  · intro h
    exact ⟨fun arg harg id hid => h id (.inl ⟨arg, harg, hid⟩), fun id hid => h id (.inr hid)⟩
  · rintro ⟨hargs, hresult⟩ id (⟨arg, harg, hid⟩ | hid)
    · exact hargs arg harg id hid
    · exact hresult id hid

theorem proper_simple (created arity : Nat) : (simple arity).Proper created := by
  unfold simple
  split
  · exact proper_type created
  · refine proper_higher.2 ⟨fun arg harg => ?_, proper_type created⟩
    rw [List.eq_of_mem_replicate harg]
    exact proper_type created

/-- Unsolved kinds are the variables, and `*` is the only leaf. -/
def shape : TermShape Kind where
  unknown := isUnsolved
  leaf kind := kind == .type
  unknown_congr h := by rw [eq_of_beq h]
  leaf_congr h := by rw [eq_of_beq h]
  unknown_of_leaf h := by
    rw [eq_of_beq h]
    rfl

theorem unknown_iff {kind : Kind} : shape.unknown kind = true ↔ ∃ id, kind = .unsolved id := by
  cases kind <;> simp [shape, isUnsolved]

theorem picks_pickKind {α : Type} (frames : List (Frame α)) : shape.Picks (pickKind frames) where
  solved {a b} ha hb := by
    obtain ⟨id, rfl⟩ := unknown_iff.1 ha
    cases b with
    | unsolved other => cases hb
    | type => rfl
    | higher args result => rfl
  chosen {a b} ha hb := by
    obtain ⟨id, rfl⟩ := unknown_iff.1 ha
    obtain ⟨other, rfl⟩ := unknown_iff.1 hb
    simp only [pickKind]
    split
    · exact .inl rfl
    · exact .inr rfl

theorem picks_preferSolved : shape.Picks preferSolved where
  solved ha _ := if_pos ha
  chosen ha _ := .inr (if_pos ha)

end Kind

end PolyFront
