import Mathlib.Logic.Function.Basic
import PolyFront.Collection.Table
import PolyFront.Proofs.Solutions.Clusters

/-!
# Renamed collections

A table, a cluster or a partition in which every key or element is replaced by another one.  When
different elements stay different, an operation on the renamed collection gives the renamed result
of the operation: what it does depends on which elements are the same and not on how they look.
-/

namespace PolyFront

/-! ## Tables -/

section Tables

variable {κ κ' ν ν' : Type} [BEq κ] [LawfulBEq κ] [BEq κ'] [LawfulBEq κ'] {f : κ → κ'}

def Table.rename (f : κ → κ') (g : ν → ν') (table : Table κ ν) : Table κ' ν' :=
  ⟨table.entries.map (Prod.map f g)⟩

theorem beq_of_injective (hf : Function.Injective f) (key other : κ) :
    (f key == f other) = (key == other) := by
  rw [Bool.eq_iff_iff, beq_iff_eq, beq_iff_eq, hf.eq_iff]

namespace Table

variable (hf : Function.Injective f) (g : ν → ν') (table : Table κ ν)
include hf

theorem get?_rename (key : κ) : (table.rename f g).get? (f key) = (table.get? key).map g := by
  have hlookup : ∀ entries : List (κ × ν),
      (entries.map (Prod.map f g)).lookup (f key) = (entries.lookup key).map g := by
    intro entries
    induction entries with
    | nil => rfl
    | cons entry rest ih =>
      rw [List.map_cons, List.lookup_cons, List.lookup_cons, ih, Prod.map_fst, beq_of_injective hf]
      cases key == entry.1 <;> rfl
  exact hlookup table.entries

theorem contains_rename (key : κ) : (table.rename f g).contains (f key) = table.contains key := by
  rw [contains, get?_rename hf, contains, Option.isSome_map]

theorem insert_rename (key : κ) (value : ν) :
    (table.rename f g).insert (f key) (g value) = (table.insert key value).rename f g := by
  have hinsert : ∀ entries : List (κ × ν),
      Table.insertEntry (f key) (g value) (entries.map (Prod.map f g)) =
        (Table.insertEntry key value entries).map (Prod.map f g) := by
    intro entries
    induction entries with
    | nil => rfl
    | cons entry rest ih =>
      rw [List.map_cons, Table.insertEntry, Table.insertEntry, ih, Prod.map_fst,
        beq_of_injective hf]
      cases key == entry.1 <;> rfl
  exact congrArg Table.mk (hinsert table.entries)

theorem insertIfNew_rename (key : κ) (value : ν) :
    (table.rename f g).insertIfNew (f key) (g value) =
      (table.insertIfNew key value).rename f g := by
  rw [insertIfNew, insertIfNew, contains_rename hf]
  split
  · rfl
  · simp [rename]

theorem erase_rename (key : κ) :
    (table.rename f g).erase (f key) = (table.erase key).rename f g := by
  simp only [erase, rename, List.filter_map, Function.comp_def, Prod.map_fst,
    beq_of_injective hf]

theorem foldl_erase_rename (keys : List κ) :
    (keys.map f).foldl Table.erase (table.rename f g) =
      (keys.foldl Table.erase table).rename f g := by
  induction keys generalizing table with
  | nil => rfl
  | cons key rest ih => rw [List.map_cons, List.foldl_cons, erase_rename hf, ih, List.foldl_cons]

end Table

end Tables

/-! ## Clusters -/

namespace Cluster

variable {α β : Type} (f : α → β)

/-- The cluster with every member replaced. -/
def map : Cluster α → Cluster β
  | .node element weight children => .node (f element) weight (children.map map)

@[simp]
theorem map_node (element : α) (weight : Nat) (children : List (Cluster α)) :
    (Cluster.node element weight children).map f =
      .node (f element) weight (children.map (map f)) := by
  rw [map]

@[simp]
theorem root_map (cluster : Cluster α) : (cluster.map f).root = f cluster.root := by
  cases cluster
  rw [map_node, root, root]

@[simp]
theorem weight_map (cluster : Cluster α) : (cluster.map f).weight = cluster.weight := by
  cases cluster
  rw [map_node, weight, weight]

mutual
@[simp]
theorem members_map (cluster : Cluster α) : (cluster.map f).members = cluster.members.map f := by
  cases cluster
  rw [map_node, members, membersList_map, members, List.map_cons]
@[simp]
theorem membersList_map (clusters : List (Cluster α)) :
    membersList (clusters.map (map f)) = (membersList clusters).map f := by
  cases clusters with
  | nil => rfl
  | cons cluster rest =>
    rw [List.map_cons, membersList, members_map cluster, membersList_map rest, membersList,
      List.map_append]
end

mutual
theorem map_eq_self {f : α → α} (cluster : Cluster α) (h : ∀ a ∈ cluster.members, f a = a) :
    cluster.map f = cluster := by
  cases cluster with
  | node element weight children =>
    rw [members, List.forall_mem_cons] at h
    rw [map_node, h.1, mapList_eq_self children h.2]
theorem mapList_eq_self {f : α → α} (clusters : List (Cluster α))
    (h : ∀ a ∈ membersList clusters, f a = a) : clusters.map (map f) = clusters := by
  cases clusters with
  | nil => rfl
  | cons cluster rest =>
    rw [membersList, List.forall_mem_append] at h
    rw [List.map_cons, map_eq_self cluster h.1, mapList_eq_self rest h.2]
end

theorem adopt_map (cluster child : Cluster α) :
    (cluster.map f).adopt (child.map f) = (cluster.adopt child).map f := by
  cases cluster
  simp [adopt]

theorem foldl_adopt_map (best : Cluster α) (others : List (Cluster α)) :
    (others.map (map f)).foldl adopt (best.map f) = (others.foldl adopt best).map f := by
  induction others generalizing best with
  | nil => rfl
  | cons cluster rest ih => rw [List.map_cons, List.foldl_cons, adopt_map, ih, List.foldl_cons]

theorem merge_map (left right : Cluster α) :
    (left.map f).merge (right.map f) = (left.merge right).map f := by
  rw [merge, merge, weight_map, weight_map]
  split
  · exact adopt_map f right left
  · exact adopt_map f left right

theorem heaviest?_map (clusters : List (Cluster α)) :
    heaviest? (clusters.map (map f)) =
      (heaviest? clusters).map fun (best, others) => (best.map f, others.map (map f)) := by
  induction clusters with
  | nil => rfl
  | cons cluster rest ih =>
    rw [List.map_cons, heaviest?, ih, heaviest?]
    cases heaviest? rest with
    | none => rfl
    | some found =>
      simp only [Option.map_some, weight_map]
      split <;> rfl

section Removal

variable {f} [BEq α] [BEq β]

mutual
theorem detach_map (hf : ∀ a b, (f a == f b) = (a == b)) (element : α)
    (clusters : List (Cluster α)) :
    detach (f element) (clusters.map (map f)) =
      ((detach element clusters).1.map (map f), (detach element clusters).2.map (map f)) := by
  cases clusters with
  | nil => rfl
  | cons cluster rest =>
    rw [List.map_cons, detach, detachNode_map hf element cluster, detach_map hf element rest,
      detach]
    simp only [List.map_append]
theorem detachNode_map (hf : ∀ a b, (f a == f b) = (a == b)) (element : α)
    (cluster : Cluster α) :
    detachNode (f element) (cluster.map f) =
      ((detachNode element cluster).1.map (map f),
        (detachNode element cluster).2.map (map f)) := by
  cases cluster with
  | node root weight children =>
    rw [map_node, detachNode, detach_map hf element children, hf, detachNode]
    split
    · rfl
    · simp
end

theorem remove?_map (hf : ∀ a b, (f a == f b) = (a == b)) (element : α) (cluster : Cluster α) :
    (cluster.map f).remove? (f element) = (cluster.remove? element).map (map f) := by
  cases cluster with
  | node root weight children =>
    rw [map_node, remove?, detach_map hf, heaviest?_map, hf, remove?]
    split
    · rw [Option.map_map, Option.map_map]
      refine congrArg (Option.map · (heaviest? children)) (funext fun found => ?_)
      exact foldl_adopt_map f found.1 found.2
    · simp

end Removal

end Cluster

/-! ## Partitions -/

def Class.map {α β : Type} (f : α → β) (c : Class α) : Class β :=
  ⟨c.cluster.map f, f c.representative⟩

namespace Partition

variable {α β : Type} (f : α → β)

/-- The partition with every element replaced. -/
def map (partition : Partition α) : Partition β := ⟨partition.classes.map (Class.map f)⟩

theorem elements_map (partition : Partition α) :
    (partition.map f).elements = partition.elements.map f := by
  rw [elements, map, List.flatMap_map, elements, List.map_flatMap]
  simp only [Class.map, Cluster.members_map]

theorem size_map (partition : Partition α) : (partition.map f).size = partition.size := by
  rw [size, elements_map, List.length_map, size]

theorem representatives_map (partition : Partition α) :
    (partition.map f).representatives = partition.representatives.map f := by
  rw [representatives, map, List.map_map, representatives, List.map_map]
  rfl

/-- Nothing changes when every element and every representative is replaced by itself. -/
theorem map_eq_self {f : α → α} {partition : Partition α}
    (helements : ∀ a ∈ partition.elements, f a = a)
    (hrepresentatives : ∀ a ∈ partition.representatives, f a = a) :
    partition.map f = partition := by
  have hclasses : partition.classes.map (Class.map f) = partition.classes := by
    refine (List.map_congr_left fun c hc => ?_).trans (List.map_id _)
    rw [Class.map, hrepresentatives _ (List.mem_map_of_mem hc),
      Cluster.map_eq_self c.cluster fun a ha => helements a (List.mem_flatMap_of_mem hc ha), id]
  rw [map, hclasses]

theorem mapRepresentatives_map {g : α → α → α} {g' : β → β → β}
    (hg : ∀ root representative, g' (f root) (f representative) = f (g root representative))
    (partition : Partition α) :
    (partition.map f).mapRepresentatives g' = (partition.mapRepresentatives g).map f := by
  simp only [mapRepresentatives, map, List.map_map, Function.comp_def, Class.map, Cluster.root_map,
    hg]

section Classes

variable {f} [BEq α] [BEq β] (hf : ∀ a b, (f a == f b) = (a == b)) (partition : Partition α)
include hf

theorem contains_members_map (element : α) (members : List α) :
    (members.map f).contains (f element) = members.contains element := by
  induction members with
  | nil => rfl
  | cons member rest ih => rw [List.map_cons, List.contains_cons, List.contains_cons, ih, hf]

theorem classOf?_map (element : α) :
    (partition.map f).classOf? (f element) = (partition.classOf? element).map (Class.map f) := by
  rw [classOf?, map, List.find?_map, classOf?]
  simp only [Function.comp_def, Class.map, Cluster.members_map, contains_members_map hf]

theorem contains_map (element : α) :
    (partition.map f).contains (f element) = partition.contains element := by
  rw [contains, classOf?_map hf, Option.isSome_map, contains]

theorem find_map (element : α) :
    (partition.map f).find (f element) = f (partition.find element) := by
  rw [find, classOf?_map hf, find]
  cases partition.classOf? element <;> rfl

theorem add_map (element : α) :
    (partition.map f).add (f element) = (partition.add element).map f := by
  rw [add, contains_map hf, add]
  split
  · rfl
  · simp [map, Class.map, Cluster.singleton]

theorem union_map {pick : α → α → α} {pick' : β → β → β}
    (hpick : ∀ a b, pick' (f a) (f b) = f (pick a b)) (left right : α) :
    (partition.map f).union (f left) (f right) pick' =
      (partition.union left right pick).map f := by
  rw [union, add_map hf, add_map hf, union]
  dsimp only
  rw [classOf?_map hf, classOf?_map hf]
  cases ((partition.add left).add right).classOf? left with
  | none => rfl
  | some leftClass =>
    cases ((partition.add left).add right).classOf? right with
    | none => rfl
    | some rightClass =>
      simp only [Option.map_some, Class.map, Cluster.root_map, hf]
      split
      · rfl
      · simp [map, List.filter_map, Function.comp_def, Class.map, hf, hpick, Cluster.merge_map]

theorem remove_map {pick : α → α → α} {pick' : β → β → β}
    (hpick : ∀ a b, pick' (f a) (f b) = f (pick a b)) (element : α) :
    (partition.map f).remove (f element) pick' = (partition.remove element pick).map f := by
  have hfold : ∀ (first : α) (rest : List α),
      (rest.map f).foldl pick' (f first) = f (rest.foldl pick first) := by
    intro first rest
    induction rest generalizing first with
    | nil => rfl
    | cons member rest ih => rw [List.map_cons, List.foldl_cons, hpick, ih, List.foldl_cons]
  rw [remove, map, List.filterMap_map, remove, map, List.map_filterMap]
  refine congrArg (fun g => Partition.mk (partition.classes.filterMap g)) (funext fun c => ?_)
  simp only [Function.comp_apply, Class.map, Cluster.members_map, contains_members_map hf,
    Cluster.remove?_map hf]
  split
  · rw [Option.map_map, Option.map_map]
    refine congrArg (Option.map · (c.cluster.remove? element)) (funext fun cluster => ?_)
    simp only [Function.comp_apply, hf, Cluster.members_map]
    split
    · cases cluster.members with
      | nil => simp [Class.map]
      | cons first rest => simp only [List.map_cons, hfold, Class.map]
    · rfl
  · rfl

end Classes

end Partition

end PolyFront
