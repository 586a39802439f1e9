import PolyFront.Collection.Partition

/-!
# The members of clusters

The shape of a cluster only decides which root survives.  What matters to a partition are
its members: merging two clusters joins them, and removing an element leaves all others.
-/

namespace PolyFront

/-- No two items of a list count as the same. -/
def Distinct {α : Type} [BEq α] (items : List α) : Prop :=
  items.Pairwise fun a b => (a == b) = false

section Distinct

variable {α : Type} [BEq α] [EquivBEq α]

theorem Distinct.perm {left right : List α} (h : Distinct left) (hperm : left.Perm right) :
    Distinct right := by
  refine (hperm.pairwise_iff ?_).1 h
  intro a b hab
  rw [BEq.comm, hab]

/-- Leaving an element out of distinct items changes nothing when none of them is it. -/
theorem filter_eq_self_of_apart {items : List α} {element : α}
    (h : ∀ a ∈ items, (element == a) = false) :
    items.filter (fun a => !(a == element)) = items := by
  refine List.filter_eq_self.2 fun a ha => ?_
  rw [BEq.comm, h a ha]
  rfl

end Distinct

namespace Cluster

variable {α : Type}

theorem root_mem_members (cluster : Cluster α) : cluster.root ∈ cluster.members := by
  cases cluster
  simp [root, members]

theorem membersList_append (left right : List (Cluster α)) :
    membersList (left ++ right) = membersList left ++ membersList right := by
  induction left with
  | nil => simp [membersList]
  | cons cluster rest ih => simp [membersList, ih]

theorem members_adopt (cluster child : Cluster α) :
    (cluster.adopt child).members = cluster.members ++ child.members := by
  cases cluster
  simp [adopt, members, membersList_append, membersList]

theorem members_foldl_adopt (best : Cluster α) (others : List (Cluster α)) :
    (others.foldl adopt best).members = best.members ++ membersList others := by
  induction others generalizing best with
  | nil => simp [membersList]
  | cons cluster rest ih => simp [membersList, ih, members_adopt]

theorem members_merge (left right : Cluster α) :
    (left.merge right).members.Perm (left.members ++ right.members) := by
  unfold merge
  split
  · rw [members_adopt]
    exact List.perm_append_comm
  · rw [members_adopt]

theorem heaviest?_eq_none {clusters : List (Cluster α)} (h : heaviest? clusters = none) :
    clusters = [] := by
  cases clusters with
  | nil => rfl
  | cons cluster rest =>
    unfold heaviest? at h
    split at h
    · cases h
    · split at h <;> cases h

theorem heaviest?_perm {clusters others : List (Cluster α)} {best : Cluster α}
    (h : heaviest? clusters = some (best, others)) :
    (best.members ++ membersList others).Perm (membersList clusters) := by
  induction clusters generalizing best others with
  | nil => cases h
  | cons cluster rest ih =>
    unfold heaviest? at h
    split at h
    · obtain ⟨rfl, rfl⟩ := Prod.mk.inj (Option.some.inj h)
      rename_i hrest
      rw [heaviest?_eq_none hrest]
      simp [membersList]
    · rename_i hrest
      split at h
      · obtain ⟨rfl, rfl⟩ := Prod.mk.inj (Option.some.inj h)
        rw [membersList, membersList]
        exact (List.perm_append_comm_assoc _ _ _).trans ((ih hrest).append_left _)
      · obtain ⟨rfl, rfl⟩ := Prod.mk.inj (Option.some.inj h)
        rw [membersList]

section Removal

variable [BEq α]

/-- Nothing is left of a cluster only when the removed element was its only member. -/
theorem remove?_eq_none {element : α} {cluster : Cluster α}
    (hremove : cluster.remove? element = none) :
    cluster.members.filter (fun a => !(a == element)) = [] := by
  cases cluster with
  | node root weight children =>
    rw [remove?] at hremove
    split at hremove
    · rename_i heq
      have hchildren := heaviest?_eq_none (Option.map_eq_none_iff.1 hremove)
      simp [members, hchildren, membersList, heq]
    · cases hremove

mutual
/-- Detaching an element from the trees of a list leaves all their other members. -/
theorem detach_perm [EquivBEq α] (element : α) (clusters : List (Cluster α))
    (h : Distinct (membersList clusters)) :
    (membersList (detach element clusters).1 ++ membersList (detach element clusters).2).Perm
      ((membersList clusters).filter fun a => !(a == element)) := by
  cases clusters with
  | nil => simp [detach, membersList]
  | cons cluster rest =>
    rw [membersList] at h
    obtain ⟨hcluster, hrest, -⟩ := List.pairwise_append.1 h
    have hnode := detachNode_perm element cluster hcluster
    have hothers := detach_perm element rest hrest
    simp only [detach, membersList, membersList_append, List.filter_append]
    refine List.Perm.trans ?_ (hnode.append hothers)
    simp only [List.append_assoc]
    exact (List.perm_append_comm_assoc _ _ _).append_left _
theorem detachNode_perm [EquivBEq α] (element : α) (cluster : Cluster α)
    (h : Distinct cluster.members) :
    (membersList (detachNode element cluster).1 ++
      membersList (detachNode element cluster).2).Perm
      (cluster.members.filter fun a => !(a == element)) := by
  cases cluster with
  | node root weight children =>
    rw [members] at h
    obtain ⟨hroot, hchildren⟩ := List.pairwise_cons.1 h
    unfold detachNode
    split
    · rename_i heq
      have hapart : ∀ a ∈ membersList children, (element == a) = false := by
        intro a ha
        rw [← BEq.congr_left heq]
        exact hroot a ha
      simp [members, membersList, heq, filter_eq_self_of_apart hapart]
    · rename_i hne
      have hinner := detach_perm element children hchildren
      simpa [members, membersList, hne] using hinner
end

variable [EquivBEq α]

/-- Removing an element from a cluster leaves all other members. -/
theorem remove?_perm {element : α} {cluster rest : Cluster α} (h : Distinct cluster.members)
    (hremove : cluster.remove? element = some rest) :
    rest.members.Perm (cluster.members.filter fun a => !(a == element)) := by
  cases cluster with
  | node root weight children =>
    rw [members] at h
    obtain ⟨hroot, hchildren⟩ := List.pairwise_cons.1 h
    rw [remove?] at hremove
    split at hremove
    · rename_i heq
      have hapart : ∀ a ∈ membersList children, (element == a) = false := by
        intro a ha
        rw [← BEq.congr_left heq]
        exact hroot a ha
      obtain ⟨⟨best, others⟩, hheaviest, rfl⟩ := Option.map_eq_some_iff.1 hremove
      rw [members_foldl_adopt]
      simpa [members, heq, filter_eq_self_of_apart hapart] using heaviest?_perm hheaviest
    · rename_i hne
      obtain rfl := Option.some.inj hremove
      have hinner := detach_perm element children hchildren
      simpa [members, hne, membersList_append] using hinner

end Removal

end Cluster

end PolyFront
