/-!
# Partitions

Disjoint classes of elements, each with a representative that is chosen when
classes are merged.  The members of a class form a tree; the lighter tree is hung
below the root of the heavier one, and the root of a class need not be its
representative.
-/

namespace PolyFront

/-- The members of a class. The weight of a node counts the members that were below it
when it was last a root. -/
inductive Cluster (α : Type) where
  | node (element : α) (weight : Nat) (children : List (Cluster α))
deriving Repr

namespace Cluster

variable {α : Type}

def root : Cluster α → α
  | .node element _ _ => element

def weight : Cluster α → Nat
  | .node _ weight _ => weight

def children : Cluster α → List (Cluster α)
  | .node _ _ children => children

mutual
/-- The members, a node before those below it. -/
def members : Cluster α → List α
  | .node element _ children => element :: membersList children
def membersList : List (Cluster α) → List α
  | [] => []
  | cluster :: rest => members cluster ++ membersList rest
end

/-- A class of one member. -/
def singleton (element : α) : Cluster α := .node element 1 []

/-- Hang a cluster below the root of another. -/
def adopt : Cluster α → Cluster α → Cluster α
  | .node element weight children, child =>
    .node element (weight + child.weight) (children ++ [child])

/-- One cluster from two: the second root stays a root only if it is heavier. -/
def merge (left right : Cluster α) : Cluster α :=
  if left.weight < right.weight then right.adopt left else left.adopt right

/-- The first of the heaviest clusters, and the others. -/
def heaviest? : List (Cluster α) → Option (Cluster α × List (Cluster α))
  | [] => none
  | cluster :: rest =>
    match heaviest? rest with
    | none => some (cluster, [])
    | some (best, others) =>
      if cluster.weight < best.weight then some (best, cluster :: others)
      else some (cluster, rest)

variable [BEq α]

mutual
/-- Take an element out of the trees of a list. What remains of the trees comes first,
the trees that were below the element second. -/
def detach (element : α) : List (Cluster α) → List (Cluster α) × List (Cluster α)
  | [] => ([], [])
  | cluster :: rest =>
    let kept := detachNode element cluster
    let others := detach element rest
    (kept.1 ++ others.1, kept.2 ++ others.2)
def detachNode (element : α) : Cluster α → List (Cluster α) × List (Cluster α)
  | .node root weight children =>
    if root == element then ([], children)
    else
      let inner := detach element children
      ([.node root weight inner.1], inner.2)
end

/-- Remove an element. When it is the root, its heaviest child takes its place; when it
is not, the clusters below it move up to the root. -/
def remove? (element : α) : Cluster α → Option (Cluster α)
  | .node root weight children =>
    if root == element then
      (heaviest? children).map fun (best, others) => others.foldl adopt best
    else
      let inner := detach element children
      some (.node root weight (inner.1 ++ inner.2))

mutual
/-- The nodes on the way to an element, each with what remains below it once the nodes
further down the way are cut off; none when the element is not there. -/
def unravel (element : α) : Cluster α → Option (List (Cluster α))
  | .node root weight children =>
    if root == element then some [.node root weight children]
    else (unravelList element children).map fun (path, rest) =>
      .node root weight rest :: path
def unravelList (element : α) :
    List (Cluster α) → Option (List (Cluster α) × List (Cluster α))
  | [] => none
  | cluster :: rest =>
    match unravel element cluster with
    | some path => some (path, rest)
    | none => (unravelList element rest).map fun (path, others) => (path, cluster :: others)
end

/-- Move every node on the way to an element directly below the root. -/
def compress (element : α) (cluster : Cluster α) : Cluster α :=
  match unravel element cluster with
  | some (.node root weight children :: path) => .node root weight (children ++ path)
  | _ => cluster

end Cluster

/-- A class and its representative. -/
structure Class (α : Type) where
  cluster : Cluster α
  representative : α
deriving Repr

/-- Disjoint classes. Elements that are in no class behave like classes of their own. -/
structure Partition (α : Type) where
  classes : List (Class α)
deriving Repr

namespace Partition

variable {α : Type}

def empty : Partition α := ⟨[]⟩

def elements (partition : Partition α) : List α :=
  partition.classes.flatMap fun c => c.cluster.members

def size (partition : Partition α) : Nat := partition.elements.length

/-- The representatives of the classes. -/
def representatives (partition : Partition α) : List α :=
  partition.classes.map Class.representative

/-- Replace the representative of every class, given its root. -/
def mapRepresentatives (partition : Partition α) (f : α → α → α) : Partition α :=
  ⟨partition.classes.map fun c =>
    { c with representative := f c.cluster.root c.representative }⟩

variable [BEq α]

/-- The class of an element. -/
def classOf? (partition : Partition α) (element : α) : Option (Class α) :=
  partition.classes.find? fun c => c.cluster.members.contains element

def contains (partition : Partition α) (element : α) : Bool :=
  (partition.classOf? element).isSome

/-- The representative of an element's class. -/
def find (partition : Partition α) (element : α) : α :=
  match partition.classOf? element with
  | some c => c.representative
  | none => element

/-- Add a class of one element, unless the element is there already. -/
def add (partition : Partition α) (element : α) : Partition α :=
  if partition.contains element then partition
  else ⟨partition.classes ++ [⟨.singleton element, element⟩]⟩

/-- Merge the classes of two elements. The new representative is picked from the
representatives of the two classes. -/
def union (partition : Partition α) (left right : α) (pick : α → α → α) : Partition α :=
  let partition := (partition.add left).add right
  match partition.classOf? left, partition.classOf? right with
  | some leftClass, some rightClass =>
    if leftClass.cluster.root == rightClass.cluster.root then partition
    else
      let apart := partition.classes.filter fun c =>
        !(c.cluster.root == leftClass.cluster.root ||
          c.cluster.root == rightClass.cluster.root)
      ⟨apart ++ [⟨leftClass.cluster.merge rightClass.cluster,
        pick leftClass.representative rightClass.representative⟩]⟩
  | _, _ => partition

/-- Remove an element and keep the rest of its class together. A representative that is
removed is replaced by one picked from the remaining members. -/
def remove (partition : Partition α) (element : α) (pick : α → α → α) : Partition α :=
  ⟨partition.classes.filterMap fun c =>
    if c.cluster.members.contains element then
      (c.cluster.remove? element).map fun cluster =>
        if c.representative == element then
          match cluster.members with
          | first :: rest => ⟨cluster, rest.foldl pick first⟩
          | [] => ⟨cluster, cluster.root⟩
        else ⟨cluster, c.representative⟩
    else some c⟩

/-- Shorten the way from an element to the root of its class. -/
def compress (partition : Partition α) (element : α) : Partition α :=
  ⟨partition.classes.map fun c => { c with cluster := c.cluster.compress element }⟩

end Partition

end PolyFront
