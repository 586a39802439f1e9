import PolyFront.Collection.Total

/-!
# Depth-first walks

A walk visits a tree from left to right with an explicit stack.  What a node
contributes, and which nodes come below it, is decided by a step function.  A
weight that shrinks towards the leaves makes every walk end.
-/

namespace PolyFront

/-- What a walk does at one node. -/
inductive Step (σ α : Type) where
  | skip
  | yield (item : α)
  | descend (children : List σ)
deriving Repr

/-- A step function over nodes, where the nodes below a node weigh less than it. -/
structure Walk (σ α : Type) where
  step : σ → Step σ α
  weight : σ → Nat
  weight_pos : ∀ node, 0 < weight node
  weight_descend : ∀ {node children}, step node = .descend children →
    total weight children < weight node

namespace Walk

variable {σ α : Type}

/-- The items of the nodes on a stack and of everything below them, the top of the
stack first. -/
def run (walk : Walk σ α) : List σ → List α
  | [] => []
  | node :: stack =>
    match _h : walk.step node with
    | .skip => walk.run stack
    | .yield item => item :: walk.run stack
    | .descend children => walk.run (children ++ stack)
termination_by stack => total walk.weight stack
decreasing_by
  · have := walk.weight_pos node
    simp only [total_cons]
    omega
  · have := walk.weight_pos node
    simp only [total_cons]
    omega
  · have := walk.weight_descend _h
    simp only [total_append, total_cons]
    omega

/-- The items of a tree. -/
def items (walk : Walk σ α) (root : σ) : List α := walk.run [root]

end Walk

/-- A tree whose leaves hold values or nothing. -/
inductive Rose (α : Type) where
  | blank
  | leaf (value : α)
  | node (children : List (Rose α))
deriving Inhabited

namespace Rose

variable {α : Type}

mutual
/-- The number of nodes. -/
def weight : Rose α → Nat
  | .blank => 1
  | .leaf _ => 1
  | .node children => weightList children + 1
def weightList : List (Rose α) → Nat
  | [] => 0
  | tree :: rest => weight tree + weightList rest
end

theorem weightList_eq_total (trees : List (Rose α)) :
    weightList trees = total weight trees := by
  induction trees with
  | nil => rfl
  | cons tree rest ih => simp [weightList, ih]

/-- Children from left to right. -/
def walk : Walk (Rose α) α where
  step
    | .blank => .skip
    | .leaf value => .yield value
    | .node children => .descend children
  weight := weight
  weight_pos tree := by cases tree <;> simp [weight]
  weight_descend := by
    intro tree children h
    cases tree with
    | node below =>
      simp only [Step.descend.injEq] at h
      subst h
      simp [weight, weightList_eq_total]
    | _ => simp at h

/-- The values of a tree from left to right. -/
def values (tree : Rose α) : List α := walk.items tree

end Rose

end PolyFront
