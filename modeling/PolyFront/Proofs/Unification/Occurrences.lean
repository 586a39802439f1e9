import Mathlib.Data.List.Basic
import PolyFront.Proofs.Solutions.TypeTerms
import PolyFront.Proofs.Unification.Terms

/-!
# Occurrence checks

The occurrence checks read the unsolved variables of a term off a walk.  Each call for the next
item is a loop over a stack: a turn takes the last node off the stack, an item at the node ends the
call, and the nodes below any other node go onto the stack in reverse, so that the first of them is
next.  Nothing in the loop says that it ends.

What a stack still has to give is the items of its nodes, from the last node to the first.  A turn
that does not end the call leaves this as it is and makes the stack lighter, so that every call
ends, with the first of what the stack had to give.  For kinds and types this is the list of
variables that recursion finds from left to right.
-/

namespace PolyFront

namespace Walk

variable {σ α : Type}

/-! ## Calls -/

/-- A call ends with the next item, if there is one, and leaves a stack. Each rule but the last two
is a turn of the loop that goes on. -/
inductive Call (step : σ → Step σ α) : Array σ → Option α → Array σ → Prop where
  | skip {node : σ} {stack rest : Array σ} {answer : Option α} (hstep : step node = .skip)
    (h : Call step stack answer rest) : Call step (stack.push node) answer rest
  | descend {node : σ} {children : List σ} {stack rest : Array σ} {answer : Option α}
    (hstep : step node = .descend children)
    (h : Call step (stack ++ children.reverse) answer rest) :
    Call step (stack.push node) answer rest
  | yield {node : σ} {item : α} {stack : Array σ} (hstep : step node = .yield item) :
    Call step (stack.push node) (some item) stack
  | done : Call step #[] none #[]

/-- Call after call hands out the items one by one, until a call has none. -/
inductive Drains (step : σ → Step σ α) : Array σ → List α → Prop where
  | done {stack rest : Array σ} (h : Call step stack none rest) : Drains step stack []
  | item {stack rest : Array σ} {item : α} {items : List α} (h : Call step stack (some item) rest)
    (hrest : Drains step rest items) : Drains step stack (item :: items)

/-- What a stack has to give, from its last node to its first. -/
def pending (walk : Walk σ α) (stack : Array σ) : List α := walk.run stack.toList.reverse

theorem items_eq (walk : Walk σ α) (node : σ) :
    walk.items node =
      match walk.step node with
      | .skip => []
      | .yield item => [item]
      | .descend children => children.flatMap walk.items := by
  rw [items, run]
  split
  · rename_i hstep
    rw [hstep, run]
  · rename_i item hstep
    rw [hstep, run]
  · rename_i children hstep
    rw [hstep, run_append, run_eq_flatMap, run, List.append_nil]

theorem pending_empty (walk : Walk σ α) : walk.pending #[] = [] := by
  rw [pending, List.reverse_nil, run]

theorem pending_push (walk : Walk σ α) (stack : Array σ) (node : σ) :
    walk.pending (stack.push node) = walk.items node ++ walk.pending stack := by
  rw [pending, Array.toList_push, List.reverse_append, run_append]
  rfl

theorem pending_reverse (walk : Walk σ α) (stack : Array σ) (children : List σ) :
    walk.pending (stack ++ children.reverse) =
      children.flatMap walk.items ++ walk.pending stack := by
  rw [pending, Array.toList_appendList, List.reverse_append, List.reverse_reverse, run_append,
    run_eq_flatMap]
  rfl

/-- A call that ends takes the first of what the stack has to give and leaves the others. -/
theorem Call.pending_eq {walk : Walk σ α} {stack rest : Array σ} {answer : Option α}
    (h : Call walk.step stack answer rest) :
    answer = (walk.pending stack).head? ∧ walk.pending rest = (walk.pending stack).tail := by
  induction h with
  | skip hstep _ ih =>
    rw [pending_push, items_eq, hstep]
    exact ih
  | descend hstep _ ih =>
    rw [pending_push, items_eq, hstep, ← pending_reverse]
    exact ih
  | yield hstep =>
    rw [pending_push, items_eq, hstep]
    exact ⟨rfl, rfl⟩
  | done =>
    rw [pending_empty]
    exact ⟨rfl, rfl⟩

/-- Every call ends. -/
theorem exists_call (walk : Walk σ α) (stack : Array σ) :
    ∃ answer rest, Call walk.step stack answer rest := by
  induction hweight : total walk.weight stack.toList using Nat.strongRecOn generalizing stack with
  | ind weight ih =>
    cases hlast : stack.back? with
    | none =>
      obtain rfl := Array.back?_eq_none_iff.1 hlast
      exact ⟨none, #[], .done⟩
    | some node =>
      obtain ⟨below, rfl⟩ := Array.back?_eq_some_iff.1 hlast
      rw [Array.toList_push, total_append, total_cons, total_nil] at hweight
      cases hstep : walk.step node with
      | skip =>
        have hpos := walk.weight_pos node
        obtain ⟨answer, rest, hcall⟩ := ih _ (by omega) below rfl
        exact ⟨answer, rest, .skip hstep hcall⟩
      | yield item => exact ⟨some item, below, .yield hstep⟩
      | descend children =>
        have hlighter := walk.weight_descend hstep
        have hless : total walk.weight (below ++ children.reverse).toList < weight := by
          rw [Array.toList_appendList, total_append, total_reverse]
          omega
        obtain ⟨answer, rest, hcall⟩ := ih _ hless _ rfl
        exact ⟨answer, rest, .descend hstep hcall⟩

/-- The calls hand out what the stack has to give, and nothing else. -/
theorem drains_iff (walk : Walk σ α) {stack : Array σ} {items : List α} :
    Drains walk.step stack items ↔ items = walk.pending stack := by
  constructor
  · intro h
    induction h with
    | done hcall => exact (List.head?_eq_none_iff.1 hcall.pending_eq.1.symm).symm
    | item hcall _ ih =>
      obtain ⟨hanswer, hrest⟩ := hcall.pending_eq
      rw [ih, hrest]
      exact (List.eq_cons_of_mem_head? hanswer.symm).symm
  · rintro rfl
    induction hitems : walk.pending stack generalizing stack with
    | nil =>
      obtain ⟨answer, rest, hcall⟩ := walk.exists_call stack
      obtain ⟨rfl, -⟩ := hcall.pending_eq
      rw [hitems] at hcall
      exact .done hcall
    | cons item items ih =>
      obtain ⟨answer, rest, hcall⟩ := walk.exists_call stack
      obtain ⟨rfl, hrest⟩ := hcall.pending_eq
      rw [hitems] at hcall hrest
      exact .item hcall (ih hrest)

theorem drains_root_iff (walk : Walk σ α) {root : σ} {items : List α} :
    Drains walk.step #[root] items ↔ items = walk.items root :=
  walk.drains_iff

end Walk

/-! ## Kinds -/

namespace Kind

mutual
/-- The unsolved variables of a kind from left to right. -/
def leaves : Kind → List Nat
  | .type => []
  | .unsolved id => [id]
  | .higher args result => leavesList args ++ leaves result
def leavesList : List Kind → List Nat
  | [] => []
  | kind :: rest => leaves kind ++ leavesList rest
end

theorem leavesList_eq_flatMap (kinds : List Kind) : leavesList kinds = kinds.flatMap leaves := by
  induction kinds with
  | nil => rfl
  | cons kind rest ih => rw [leavesList, ih, List.flatMap_cons]

theorem unknowns_eq_leaves (kind : Kind) : kind.unknowns = kind.leaves := by
  induction kind with
  | type => rw [unknowns_type, leaves]
  | unsolved id => rw [unknowns_unsolved, leaves]
  | higher args result ihArgs ihResult =>
    rw [unknowns_higher, leaves, leavesList_eq_flatMap, ihResult, List.flatMap_congr ihArgs]

/-- The occurrence check finds exactly the variables that stand somewhere in a kind. -/
theorem occurs_iff_at {id : Nat} {kind : Kind} :
    kind.occurs id = true ↔ ∃ depth, At depth (.unsolved id) kind := by
  rw [occurs_iff]
  constructor
  · exact exists_at_of_mem_unknowns
  · rintro ⟨depth, hat⟩
    exact hat.unknowns_subset (by simp)

end Kind

/-! ## Types -/

namespace Ty

mutual
/-- The unsolved variables of a type from left to right. A binder is a name and holds none. -/
def leaves : Ty → List (Nat × Kind)
  | .unsolved id kind => [(id, kind)]
  | .apply head args _ => leaves head ++ leavesList args
  | .quantified _ body _ => leaves body
  | .var _ _ _ => []
  | .constructor _ _ => []
  | .builtIn _ => []
def leavesList : List Ty → List (Nat × Kind)
  | [] => []
  | type :: rest => leaves type ++ leavesList rest
end

theorem leavesList_eq_flatMap (types : List Ty) : leavesList types = types.flatMap leaves := by
  induction types with
  | nil => rfl
  | cons type rest ih => rw [leavesList, ih, List.flatMap_cons]

theorem unknowns_eq_leaves (type : Ty) : type.unknowns = type.leaves := by
  induction type with
  | var quantifier name kind => simp [unknowns, Walk.items_eq, walk, leaves]
  | unsolved id kind => rw [unknowns_unsolved, leaves]
  | constructor name kind => simp [unknowns, Walk.items_eq, walk, leaves]
  | builtIn type => simp [unknowns, Walk.items_eq, walk, leaves]
  | apply head args kind ihHead ihArgs =>
    rw [unknowns_apply, leaves, leavesList_eq_flatMap, ihHead, List.flatMap_congr ihArgs]
  | quantified binders body kind ihBinders ihBody => rw [unknowns_quantified, leaves, ihBody]

/-- A type is a part of another one. The binders of a quantifier are names and no parts. -/
inductive Part (part : Ty) : Ty → Prop where
  | root : Part part part
  | head {head : Ty} {args : List Ty} {kind : Kind} (h : Part part head) :
    Part part (.apply head args kind)
  | arg {arg head : Ty} {args : List Ty} {kind : Kind} (harg : arg ∈ args) (h : Part part arg) :
    Part part (.apply head args kind)
  | body {body : Ty} {binders : List Ty} {kind : Kind} (h : Part part body) :
    Part part (.quantified binders body kind)

theorem Part.leaves_subset {part type : Ty} (h : Part part type) : part.leaves ⊆ type.leaves := by
  induction h with
  | root => exact List.Subset.refl _
  | head _ ih =>
    rw [leaves]
    exact List.Subset.trans ih (List.subset_append_left _ _)
  | arg harg _ ih =>
    intro v hv
    rw [leaves, leavesList_eq_flatMap, List.mem_append, List.mem_flatMap]
    exact .inr ⟨_, harg, ih hv⟩
  | body _ ih =>
    rw [leaves]
    exact ih

theorem part_of_mem_leaves {id : Nat} {kind : Kind} {type : Ty} (h : (id, kind) ∈ type.leaves) :
    Part (.unsolved id kind) type := by
  induction type with
  | var quantifier name kind' => simp [leaves] at h
  | unsolved other kind' =>
    obtain ⟨rfl, rfl⟩ := Prod.mk.inj (List.mem_singleton.1 (by simpa [leaves] using h))
    exact .root
  | constructor name kind' => simp [leaves] at h
  | builtIn type => simp [leaves] at h
  | apply head args kind' ihHead ihArgs =>
    rw [leaves, leavesList_eq_flatMap, List.mem_append, List.mem_flatMap] at h
    rcases h with h | ⟨arg, harg, h⟩
    · exact .head (ihHead h)
    · exact .arg harg (ihArgs arg harg h)
  | quantified binders body kind' ihBinders ihBody =>
    rw [leaves] at h
    exact .body (ihBody h)

/-- The occurrence check finds exactly the variables that stand somewhere in a type. -/
theorem occurs_iff_part {id : Nat} {type : Ty} :
    type.occurs id = true ↔ ∃ kind, Part (.unsolved id kind) type := by
  rw [occurs, List.any_eq_true, unknowns_eq_leaves]
  constructor
  · rintro ⟨⟨other, kind⟩, hmem, heq⟩
    obtain rfl := eq_of_beq heq
    exact ⟨kind, part_of_mem_leaves hmem⟩
  · rintro ⟨kind, hpart⟩
    exact ⟨(id, kind), hpart.leaves_subset (by simp [leaves]), BEq.refl id⟩

end Ty

/-! ## Kinds and types -/

/-- For every kind and every type, the calls of the walk end and hand out exactly the unsolved
variables that recursion finds from left to right, with repetitions; the occurrence check finds
exactly the variables that stand somewhere in the term.  Where the binders of quantifiers are
named variables, as they are meant to be, these are all that a type mentions. -/
theorem walks_find_unknowns :
    (∀ kind : Kind,
      (∀ items, Walk.Drains Kind.walk.step #[kind] items ↔ items = kind.leaves) ∧
        kind.unknowns = kind.leaves ∧
        ∀ id, kind.occurs id = true ↔ ∃ depth, Kind.At depth (.unsolved id) kind) ∧
    ∀ type : Ty,
      (∀ items, Walk.Drains Ty.walk.step #[type] items ↔ items = type.leaves) ∧
        type.unknowns = type.leaves ∧
        (∀ id, type.occurs id = true ↔ ∃ kind, Ty.Part (.unsolved id kind) type) ∧
        (type.NamedBinders →
          ∀ id, type.occurs id = true ↔ ∃ kind, (id, kind) ∈ type.mentions) := by
  refine ⟨fun kind => ⟨fun items => ?_, kind.unknowns_eq_leaves, fun _ => Kind.occurs_iff_at⟩,
    fun type => ⟨fun items => ?_, type.unknowns_eq_leaves, fun _ => Ty.occurs_iff_part,
      fun hnamed _ => hnamed.occurs_iff⟩⟩
  · rw [← kind.unknowns_eq_leaves]
    exact Kind.walk.drains_root_iff
  · rw [← type.unknowns_eq_leaves]
    exact Ty.walk.drains_root_iff

/-- An unsolved type is applied to the bound variable, to another unsolved type and to itself. -/
def Ty.selfApplied : Ty :=
  .quantified [.var .universal "a" .type]
    (.apply (.unsolved 0 (.simple 3)) [.var .universal "a" .type, .unsolved 1 .type,
      .unsolved 0 (.simple 3)] .type) .type

theorem walks_find_unknowns_selfApplied :
    Ty.selfApplied.NamedBinders ∧
      Walk.Drains Ty.walk.step #[Ty.selfApplied]
        [(0, .simple 3), (1, .type), (0, .simple 3)] ∧
      (Ty.selfApplied.occurs 1 = true ↔ ∃ kind, (1, kind) ∈ Ty.selfApplied.mentions) := by
  have hnamed : Ty.selfApplied.NamedBinders := by
    simp [Ty.selfApplied, Ty.NamedBinders, Ty.isVar]
  obtain ⟨hdrains, -, -, hoccurs⟩ := walks_find_unknowns.2 Ty.selfApplied
  exact ⟨hnamed, (hdrains _).2 rfl, hoccurs hnamed 1⟩

end PolyFront
