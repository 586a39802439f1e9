import PolyFront.Collection.Table

/-!
# Union-find

Disjoint sets in three tables: the parent of every element, its rank, and the representative of
the set below every root.  A root is its own parent, and so is an element that was never added.
The representative of a set is picked when sets are merged, and need not be its root.

The root of an element is where the walk along parents ends.  Such a walk meets no element
twice, so it may take as many steps as there are elements; an operation with a longer walk has
no result.  What visits a table takes the order in which it does so.
-/

namespace PolyFront

/-- Orders in which the entries and the keys of a table are visited. -/
structure Iteration (α : Type) where
  entries : List (α × α) → List (α × α)
  keys : List α → List α
  entries_perm : ∀ items, (entries items).Perm items
  keys_perm : ∀ items, (keys items).Perm items

/-- Entries and keys are visited as they are listed. -/
def Iteration.listed (α : Type) : Iteration α := ⟨id, id, .refl, .refl⟩

structure UnionFind (α : Type) where
  parent : Table α α
  rank : Table α Nat
  representative : Table α α
deriving Repr

namespace UnionFind

variable {α : Type}

def empty : UnionFind α := ⟨Table.empty, Table.empty, Table.empty⟩

def size (sets : UnionFind α) : Nat := sets.parent.size

def elements (sets : UnionFind α) : List α := sets.parent.keys

variable [BEq α]

def contains (sets : UnionFind α) (element : α) : Bool := sets.parent.contains element

/-- Add a set of one element, unless the element is there already. -/
def add (sets : UnionFind α) (element : α) : UnionFind α :=
  if sets.contains element then sets
  else
    { parent := sets.parent.insert element element
      rank := sets.rank.insert element 1
      representative := sets.representative.insert element element }

def parentOf (sets : UnionFind α) (element : α) : α := (sets.parent.get? element).getD element

def rankOf (sets : UnionFind α) (element : α) : Nat := (sets.rank.get? element).getD 1

/-- The representative of the set below a root. -/
def representativeOf (sets : UnionFind α) (root : α) : α :=
  (sets.representative.get? root).getD root

/-- Walk along parents to a root, in a limited number of steps. -/
def climb (sets : UnionFind α) : Nat → α → Option α
  | 0, _ => none
  | steps + 1, current =>
    let parent := sets.parentOf current
    if parent == current then some current else sets.climb steps parent

def root? (sets : UnionFind α) (element : α) : Option α := sets.climb (sets.size + 1) element

/-- Give an element another parent. -/
def hang (sets : UnionFind α) (child parent : α) : UnionFind α :=
  { sets with parent := sets.parent.insert child parent }

/-- Hang every element on the way to a root directly below it. -/
def shorten (root : α) : Nat → α → UnionFind α → Option (UnionFind α)
  | 0, _, _ => none
  | steps + 1, current, sets =>
    if current == root then some sets
    else shorten root steps (sets.parentOf current) (sets.hang current root)

/-- The representative of an element's set. The way to the root gets shorter. -/
def find? (sets : UnionFind α) (element : α) : Option (α × UnionFind α) := do
  let root ← sets.root? element
  let shortened ← shorten root (sets.size + 1) element sets
  return (shortened.representativeOf root, shortened)

/-- The representatives of all sets. -/
def representatives? (order : Iteration α) (sets : UnionFind α) : Option (List α) := do
  let roots ← (order.keys sets.elements).mapM sets.root?
  return (roots.map sets.representativeOf).eraseDups

/-- The elements below a root. -/
def members? (order : Iteration α) (sets : UnionFind α) (root : α) : Option (List α) := do
  let rooted ← (order.keys sets.elements).mapM fun element => do
    return (element, ← sets.root? element)
  return (rooted.filter fun pair => pair.2 == root).map Prod.fst

/-- Hang one root below another, whose set is then represented by the chosen element. -/
def link (sets : UnionFind α) (child parent chosen : α) : UnionFind α where
  parent := sets.parent.insert child parent
  rank := sets.rank.insert parent (sets.rankOf parent + sets.rankOf child)
  representative := (sets.representative.erase child).insert parent chosen

/-- Merge the sets of two elements, which are added if necessary. The root of the lower rank
goes below the other, and the representative is picked from the two there are. -/
def union? (sets : UnionFind α) (left right : α) (pick : α → α → α) :
    Option (UnionFind α) := do
  let sets := (sets.add left).add right
  let leftRoot ← sets.root? left
  let rightRoot ← sets.root? right
  if leftRoot == rightRoot then return sets
  let chosen := pick (sets.representativeOf leftRoot) (sets.representativeOf rightRoot)
  return if sets.rankOf leftRoot < sets.rankOf rightRoot
    then sets.link leftRoot rightRoot chosen
    else sets.link rightRoot leftRoot chosen

/-- The elements directly below an element. -/
def childrenOf (order : Iteration α) (sets : UnionFind α) (element : α) : List α :=
  ((order.entries sets.parent.entries).filter fun entry =>
    entry.2 == element && !(entry.1 == element)).map Prod.fst

/-- The last of the elements with the highest rank. -/
def heaviest? (sets : UnionFind α) : List α → Option α
  | [] => none
  | element :: rest =>
    match sets.heaviest? rest with
    | none => some element
    | some best => if sets.rankOf best < sets.rankOf element then some element else some best

/-- Take an element out of the tables of parents and ranks. -/
def discard (sets : UnionFind α) (element : α) : UnionFind α :=
  { sets with parent := sets.parent.erase element, rank := sets.rank.erase element }

/-- Hang elements below a root. -/
def hangAll (sets : UnionFind α) (children : List α) (root : α) : UnionFind α :=
  children.foldl (fun sets child => sets.hang child root) sets

/-- Hang elements below one of them, which gains the ranks of the others. -/
def promote (sets : UnionFind α) (children : List α) (root : α) : UnionFind α :=
  children.foldl (fun sets child =>
    let sets := sets.hang child root
    if child == root then sets
    else { sets with rank := sets.rank.insert root (sets.rankOf root + sets.rankOf child) }) sets

/-- Hand the representative of a removed root on to the new root of its set. -/
def inherit (sets : UnionFind α) (old new : α) : UnionFind α :=
  match sets.representative.get? old with
  | some representative =>
    { sets with representative := (sets.representative.erase old).insert new representative }
  | none => { sets with representative := sets.representative.erase old }

/-- Pick another representative for the set below a root if the removed element was it. -/
def replace? (order : Iteration α) (pick : α → α → α) (removed root : α) (sets : UnionFind α) :
    Option (UnionFind α) :=
  if (sets.representative.get? root).all fun representative => representative == removed then do
    let members ← sets.members? order root
    let representative := match members with
      | first :: rest => rest.foldl pick first
      | [] => root
    return { sets with representative := sets.representative.insert root representative }
  else some sets

/-- Remove an element and keep the rest of its set together. Its children go below the root, or
below one of them when the element was the root. -/
def remove? (order : Iteration α) (sets : UnionFind α) (element : α) (pick : α → α → α) :
    Option (UnionFind α) :=
  if sets.contains element then do
    let root ← sets.root? element
    let children := sets.childrenOf order element
    let rest := sets.discard element
    if root == element then
      match rest.heaviest? children with
      | none => return { rest with representative := rest.representative.erase element }
      | some root =>
        ((rest.promote children root).inherit element root).replace? order pick element root
    else (rest.hangAll children root).replace? order pick element root
  else some sets

/-- Rewrite the representatives one after another, each given its root. -/
def updateWith? (order : Iteration α) (sets : UnionFind α)
    (f : UnionFind α → α → α → Option (α × UnionFind α)) : Option (UnionFind α) :=
  (order.entries sets.representative.entries).foldlM (fun sets entry => do
    let (updated, sets) ← f sets entry.1 entry.2
    return { sets with representative := sets.representative.insert entry.1 updated }) sets

end UnionFind

end PolyFront
