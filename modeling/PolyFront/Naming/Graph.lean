import PolyFront.Collection.Table
import PolyFront.Tree.Basic

/-!
# Dependencies between declarations

A directed graph with an edge from each declaration to the declarations that refer to
it.  Its strongly connected components, dependencies first, arrange the declarations of
a namespace into groups.
-/

namespace PolyFront

/-- Nodes in the order they were first seen, and edges in the order they were added. -/
structure DeclarationGraph where
  nodes : List DeclarationName
  edges : List (DeclarationName × DeclarationName)
deriving DecidableEq, Repr, Inhabited

namespace DeclarationGraph

def empty : DeclarationGraph := ⟨[], []⟩

def addNode (graph : DeclarationGraph) (node : DeclarationName) : DeclarationGraph :=
  if node ∈ graph.nodes then graph else { graph with nodes := graph.nodes ++ [node] }

/-- Record that `target` depends on `source`. -/
def addEdge (graph : DeclarationGraph) (source target : DeclarationName) : DeclarationGraph :=
  let graph := (graph.addNode source).addNode target
  if (source, target) ∈ graph.edges then graph
  else { graph with edges := graph.edges ++ [(source, target)] }

def hasEdge (graph : DeclarationGraph) (source target : DeclarationName) : Bool :=
  decide ((source, target) ∈ graph.edges)

def successors (graph : DeclarationGraph) (node : DeclarationName) : List DeclarationName :=
  (graph.edges.filter fun edge => edge.1 = node).map Prod.snd

def predecessors (graph : DeclarationGraph) (node : DeclarationName) : List DeclarationName :=
  (graph.edges.filter fun edge => edge.2 = node).map Prod.fst

end DeclarationGraph

namespace Search

variable {ν : Type} [DecidableEq ν]

/-- Depth-first search over unvisited nodes. The stack holds the nodes on the current path,
innermost first, each with the successors it has still to visit. Gives the nodes that stay
unvisited, and the finished nodes with the last one first. -/
def finish (successors : ν → List ν) (unvisited : List ν) (stack : List (ν × List ν))
    (finished : List ν) : List ν × List ν :=
  match stack with
  | [] => (unvisited, finished)
  | (node, []) :: rest => finish successors unvisited rest (node :: finished)
  | (node, next :: more) :: rest =>
    if next ∈ unvisited then
      finish successors (unvisited.erase next)
        ((next, successors next) :: (node, more) :: rest) finished
    else finish successors unvisited ((node, more) :: rest) finished
termination_by (unvisited.length, total (fun entry => entry.2.length + 1) stack)
decreasing_by
  · simp_wf
    right
    simp
  · simp_wf
    left
    rename_i h
    rw [List.length_erase_of_mem h]
    exact Nat.sub_lt (List.length_pos_of_mem h) Nat.one_pos
  · simp_wf
    right
    simp

/-- Every node, the one that finished last first, when searches start from the nodes in the
given order. -/
def finishAll (successors : ν → List ν) (nodes : List ν) : List ν :=
  (nodes.foldl (fun (unvisited, finished) start =>
    if start ∈ unvisited then
      finish successors (unvisited.erase start) [(start, successors start)] finished
    else (unvisited, finished)) (nodes, [])).2

/-- The wanted items among those given. -/
def among (items wanted : List ν) : List ν := items.filter fun item => decide (item ∈ wanted)

/-- The items without those taken. -/
def without (items taken : List ν) : List ν := items.filter fun item => decide (item ∉ taken)

theorem mem_among {items wanted : List ν} {item : ν} :
    item ∈ among items wanted ↔ item ∈ items ∧ item ∈ wanted := by
  simp [among]

theorem mem_without {items taken : List ν} {item : ν} :
    item ∈ without items taken ↔ item ∈ items ∧ item ∉ taken := by
  simp [without]

@[simp]
theorem without_nil (items : List ν) : without items [] = items := by
  simp [without]

theorem length_without_lt {items taken : List ν} {item : ν} (hitem : item ∈ items)
    (htaken : item ∈ taken) : (without items taken).length < items.length := by
  refine Nat.lt_of_le_of_ne (List.length_filter_le _ _) fun heq => ?_
  have hall := List.length_filter_eq_length_iff.1 heq item hitem
  simp [htaken] at hall

/-- The unassigned nodes from which the stack is reached against the edges. Gives the nodes
that stay unassigned, and the component in visiting order. -/
def collect (predecessors : ν → List ν) (unassigned : List ν) (stack : List ν)
    (component : List ν) : List ν × List ν :=
  match stack with
  | [] => (unassigned, component)
  | node :: rest =>
    let fresh := among (predecessors node) unassigned
    collect predecessors (without unassigned fresh) (fresh.reverse ++ rest)
      (component ++ [node])
termination_by (unassigned.length, stack.length)
decreasing_by
  by_cases hfresh : among (predecessors node) unassigned = []
  · rw [hfresh, without_nil]
    exact Prod.Lex.right _ (by simp)
  · obtain ⟨other, hother⟩ := List.exists_mem_of_ne_nil _ hfresh
    exact Prod.Lex.left _ _ (length_without_lt (mem_among.1 hother).2 hother)

/-- The components of the roots, each taken from the nodes that no earlier root has. -/
def components (predecessors : ν → List ν) (roots : List ν) : List (List ν) :=
  (roots.foldl (fun (unassigned, found) root =>
    if root ∈ unassigned then
      let (unassigned, component) :=
        collect predecessors (unassigned.erase root) [root] []
      (unassigned, found ++ [component])
    else (unassigned, found)) (roots, [])).2

end Search

namespace DeclarationGraph

/-- The strongly connected components, dependencies first: the nodes are visited against
the edges, those that finish last along the edges first. -/
def stronglyConnected (graph : DeclarationGraph) : List (List DeclarationName) :=
  Search.components graph.predecessors (Search.finishAll graph.successors graph.nodes)

end DeclarationGraph

/-- Declarations of which some were taken into groups, and where those of each name stand. -/
structure Ungrouped (n : Nat) where
  declarations : Vector (Option (Declaration Name)) n
  positions : Table DeclarationName (List (Fin n))

namespace Ungrouped

variable {n : Nat}

/-- Add a declaration's position to those of its name. -/
def addPosition (positions : Table DeclarationName (List (Fin n))) (declaration : Declaration Name)
    (position : Fin n) : Table DeclarationName (List (Fin n)) :=
  match declaration.here.info.declaration? with
  | some name => positions.insert name ((positions.get? name).getD [] ++ [position])
  | none => positions

/-- Nothing is taken yet. -/
def ofList (declarations : List (Declaration Name)) : Ungrouped declarations.length where
  declarations := Vector.ofFn fun position => some (declarations.get position)
  positions := (List.finRange declarations.length).foldl
    (fun positions position => addPosition positions (declarations.get position) position) .empty

/-- The declarations that were not taken, in their own order. -/
def remaining (rest : Ungrouped n) : List (Declaration Name) :=
  rest.declarations.toList.filterMap id

/-- Take the declaration at a position, unless it was taken before. -/
def take (rest : Ungrouped n) (position : Fin n) : Option (Declaration Name) × Ungrouped n :=
  (rest.declarations.get position,
    { rest with declarations := rest.declarations.set position none position.isLt })

/-- Take the declarations at some positions. -/
def takeEach (rest : Ungrouped n) :
    List (Fin n) → List (Declaration Name) × Ungrouped n
  | [] => ([], rest)
  | position :: more =>
    let (declaration?, rest) := rest.take position
    let (others, rest) := rest.takeEach more
    (declaration?.toList ++ others, rest)

/-- Take the declarations of a name. It has no positions afterwards. -/
def takeNamed (rest : Ungrouped n) (name : DeclarationName) :
    List (Declaration Name) × Ungrouped n :=
  let positions := (rest.positions.get? name).getD []
  takeEach { rest with positions := rest.positions.erase name } positions

/-- Take the declarations of some names, one name after another. -/
def takeComponent (rest : Ungrouped n) :
    List DeclarationName → List (Declaration Name) × Ungrouped n
  | [] => ([], rest)
  | name :: more =>
    let (named, rest) := rest.takeNamed name
    let (others, rest) := rest.takeComponent more
    (named ++ others, rest)

/-- Declarations by their position in the source. -/
def bySource (declarations : List (Declaration Name)) : List (Declaration Name) :=
  declarations.mergeSort fun a b => a.here.range.start.before b.here.range.start

/-- The declarations of each component, and last those that no component has. -/
def split (rest : Ungrouped n) :
    List (List DeclarationName) → List (List (Declaration Name))
  | [] => [rest.remaining]
  | component :: more =>
    let (group, rest) := rest.takeComponent component
    bySource group :: rest.split more

end Ungrouped

namespace DeclarationGraph

/-- Declarations in groups that depend only on themselves and on earlier groups. Those that
the graph does not know form a last group in their own order. -/
def groups (graph : DeclarationGraph) (declarations : List (Declaration Name)) :
    List (List (Declaration Name)) :=
  ((Ungrouped.ofList declarations).split graph.stronglyConnected).filter fun group =>
    !group.isEmpty

end DeclarationGraph

end PolyFront
