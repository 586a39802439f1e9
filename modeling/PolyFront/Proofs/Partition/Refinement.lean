import Mathlib.Data.Set.Lattice
import PolyFront.Proofs.Solutions.Classes

/-!
# Partitions refine sets of blocks

The reference is a set of blocks.  Adding makes a block of one element unless a block has it,
merging unites the blocks of two elements, removing takes an element out of its block, and a
look-up changes nothing.  Any sequence of operations on a partition, with any choice of
representatives and whatever the order in which children and members are visited, leaves classes
whose members are the blocks of the reference, each represented by one of its members.
-/

namespace PolyFront

/-- A choice between two elements that always falls on one of them. -/
structure Choice (α : Type) [BEq α] where
  pick : α → α → α
  picks : ∀ a b, (pick a b == a) = true ∨ (pick a b == b) = true

/-- An order in which children of a node and members of a class are visited. -/
structure Visit (α : Type) where
  children : List (Cluster α) → List (Cluster α)
  members : List α → List α
  children_perm : ∀ clusters, (children clusters).Perm clusters
  members_perm : ∀ items, (members items).Perm items

/-- Children and members are visited as they are listed. -/
def Visit.listed (α : Type) : Visit α := ⟨id, id, .refl, .refl⟩

namespace Cluster

variable {α : Type}

theorem membersList_perm {left right : List (Cluster α)} (h : left.Perm right) :
    (membersList left).Perm (membersList right) := by
  induction h with
  | nil => exact .refl _
  | cons cluster _ ih => exact ih.append_left _
  | swap first second rest => exact List.perm_append_comm_assoc _ _ _
  | trans _ _ ih ih' => exact ih.trans ih'

variable [BEq α]

/-- Remove an element, the first of the heaviest children in the order of the visit taking the
place of a root. -/
def removeIn? (visit : Visit α) (element : α) : Cluster α → Option (Cluster α)
  | .node root weight children =>
    if root == element then
      (heaviest? (visit.children children)).map fun (best, others) => others.foldl adopt best
    else
      let inner := detach element children
      some (.node root weight (inner.1 ++ inner.2))

theorem removeIn?_listed (element : α) (cluster : Cluster α) :
    cluster.removeIn? (.listed α) element = cluster.remove? element := by
  cases cluster
  rfl

theorem removeIn?_eq_none {visit : Visit α} {element : α} {cluster : Cluster α}
    (hremove : cluster.removeIn? visit element = none) :
    cluster.members.filter (fun a => !(a == element)) = [] := by
  cases cluster with
  | node root weight children =>
    rw [removeIn?] at hremove
    split at hremove
    · rename_i heq
      have hvisited := heaviest?_eq_none (Option.map_eq_none_iff.1 hremove)
      have hchildren : children = [] :=
        List.perm_nil.1 ((visit.children_perm children).symm.trans (.of_eq hvisited))
      simp [members, hchildren, membersList, heq]
    · cases hremove

/-- The members do not depend on the order of the visit. -/
theorem removeIn?_perm [EquivBEq α] {visit : Visit α} {element : α} {cluster rest : Cluster α}
    (h : Distinct cluster.members) (hremove : cluster.removeIn? visit element = some rest) :
    rest.members.Perm (cluster.members.filter fun a => !(a == element)) := by
  cases cluster with
  | node root weight children =>
    by_cases heq : (root == element) = true
    · obtain ⟨⟨best, others⟩, hheaviest, rfl⟩ : ∃ found,
          heaviest? (visit.children children) = some found ∧
            found.2.foldl adopt found.1 = rest := by
        rw [removeIn?, if_pos heq] at hremove
        exact Option.map_eq_some_iff.1 hremove
      have hroot := (List.pairwise_cons.1 h).1
      have hapart : ∀ a ∈ membersList children, (element == a) = false := by
        intro a ha
        rw [← BEq.congr_left heq]
        exact hroot a ha
      have hvisited : (membersList (visit.children children)).Perm (membersList children) :=
        membersList_perm (visit.children_perm children)
      rw [members_foldl_adopt]
      simpa [members, heq, filter_eq_self_of_apart hapart] using
        (heaviest?_perm hheaviest).trans hvisited
    · refine remove?_perm h ?_
      rw [removeIn?, if_neg heq] at hremove
      rw [remove?, if_neg heq]
      exact hremove

/-! ## Shorter ways to the root -/

mutual
/-- Cutting the way to an element into its nodes loses no member. -/
theorem unravel_perm {element : α} {cluster : Cluster α} {path : List (Cluster α)}
    (h : unravel element cluster = some path) : (membersList path).Perm cluster.members := by
  cases cluster with
  | node root weight children =>
    rw [unravel] at h
    split at h
    · obtain rfl := Option.some.inj h
      simp [membersList]
    · obtain ⟨⟨below, rest⟩, hbelow, rfl⟩ := Option.map_eq_some_iff.1 h
      have hperm := unravelList_perm hbelow
      simp only [membersList, members, List.cons_append]
      exact (List.perm_append_comm.trans hperm).cons _
theorem unravelList_perm {element : α} {clusters path rest : List (Cluster α)}
    (h : unravelList element clusters = some (path, rest)) :
    (membersList path ++ membersList rest).Perm (membersList clusters) := by
  cases clusters with
  | nil => cases h
  | cons cluster others =>
    rw [unravelList] at h
    split at h
    · rename_i found hfound
      obtain ⟨rfl, rfl⟩ := Prod.mk.inj (Option.some.inj h)
      exact (unravel_perm hfound).append_right _
    · obtain ⟨⟨below, left⟩, hbelow, hsome⟩ := Option.map_eq_some_iff.1 h
      obtain ⟨rfl, rfl⟩ := Prod.mk.inj hsome
      have hperm := unravelList_perm hbelow
      simp only [membersList]
      exact (List.perm_append_comm_assoc _ _ _).trans (hperm.append_left _)
end

theorem compress_perm (element : α) (cluster : Cluster α) :
    (cluster.compress element).members.Perm cluster.members := by
  unfold compress
  split
  · rename_i root weight children path hpath
    simpa [members, membersList, membersList_append] using unravel_perm hpath
  · exact .refl _

end Cluster

namespace Class

variable {α : Type} [BEq α]

/-- What is left of a class without an element, for an order of the visit. -/
def withoutIn? (visit : Visit α) (element : α) (pick : α → α → α) (c : Class α) :
    Option (Class α) :=
  if c.cluster.members.contains element then
    (c.cluster.removeIn? visit element).map fun cluster =>
      if c.representative == element then
        match visit.members cluster.members with
        | first :: rest => ⟨cluster, rest.foldl pick first⟩
        | [] => ⟨cluster, cluster.root⟩
      else ⟨cluster, c.representative⟩
  else some c

/-- What is left of a class has the other members. It keeps its representative, or gets one from
the members in the order of the visit. -/
theorem withoutIn?_some [EquivBEq α] {visit : Visit α} {element : α} {pick : α → α → α}
    {c d : Class α} (hdistinct : Distinct c.cluster.members)
    (h : c.withoutIn? visit element pick = some d) :
    ¬c.Has element ∧ d = c ∨
      c.Has element ∧
        d.cluster.members.Perm (c.cluster.members.filter fun a => !(a == element)) ∧
        ((c.representative == element) = false ∧ d.representative = c.representative ∨
          (c.representative == element) = true ∧ ∃ first rest,
            visit.members d.cluster.members = first :: rest ∧
              d.representative = rest.foldl pick first) := by
  by_cases hhas : c.cluster.members.contains element = true
  · refine .inr ⟨hhas, ?_⟩
    rw [withoutIn?, if_pos hhas] at h
    obtain ⟨cluster, hremove, rfl⟩ := Option.map_eq_some_iff.1 h
    have hperm := Cluster.removeIn?_perm hdistinct hremove
    by_cases hrep : (c.representative == element) = true
    · rw [if_pos hrep]
      cases hmembers : visit.members cluster.members with
      | nil =>
        have hroot := (visit.members_perm _).mem_iff.2 (Cluster.root_mem_members cluster)
        rw [hmembers] at hroot
        exact (List.not_mem_nil hroot).elim
      | cons first rest => exact ⟨hperm, .inr ⟨hrep, first, rest, hmembers, rfl⟩⟩
    · rw [if_neg hrep]
      exact ⟨hperm, .inl ⟨by simpa using hrep, rfl⟩⟩
  · rw [withoutIn?, if_neg hhas] at h
    exact .inl ⟨hhas, (Option.some.inj h).symm⟩

theorem withoutIn?_perm [EquivBEq α] {visit : Visit α} {element : α} {pick : α → α → α}
    {c d : Class α} (hdistinct : Distinct c.cluster.members)
    (h : c.withoutIn? visit element pick = some d) :
    d.cluster.members.Perm (c.cluster.members.filter fun a => !(a == element)) := by
  obtain ⟨hhas, rfl⟩ | ⟨-, hperm, -⟩ := withoutIn?_some hdistinct h
  · refine .of_eq (filter_eq_self_of_apart fun a ha => ?_).symm
    rw [← Bool.not_eq_true]
    exact fun hbeq => hhas (has_iff.2 ⟨a, ha, hbeq⟩)
  · exact hperm

/-- A class with another member than the removed element does not vanish. -/
theorem exists_withoutIn? [EquivBEq α] {element other : α} (visit : Visit α)
    (pick : α → α → α) {c : Class α} (hother : other ∈ c.cluster.members)
    (hne : (other == element) = false) : ∃ d, c.withoutIn? visit element pick = some d := by
  rw [withoutIn?]
  split
  · cases hremove : c.cluster.removeIn? visit element with
    | some cluster => exact ⟨_, rfl⟩
    | none =>
      have hmem : other ∈ c.cluster.members.filter fun a => !(a == element) := by
        simp [hother, hne]
      rw [Cluster.removeIn?_eq_none hremove] at hmem
      exact (List.not_mem_nil hmem).elim
  · exact ⟨c, rfl⟩

/-- The elements that count as members. -/
def block (c : Class α) : Set α := {a | c.Has a}

/-- A class that is represented by one of its members. -/
def Represented (c : Class α) : Prop := c.Has c.representative

end Class

/-- An operation on classes, with all that its outcome may depend on: the choice of a
representative, and for a removal the order `ω` in which it visits what it finds. -/
inductive Change (α ω : Type) [BEq α] where
  | add (element : α)
  | union (left right : α) (choice : Choice α)
  /-- A look-up shortens the way from the element to the root of its class. -/
  | find (element : α)
  | remove (element : α) (choice : Choice α) (order : ω)

/-- The operation without the order of its visits. -/
def Change.plain {α ω : Type} [BEq α] : Change α ω → Change α Unit
  | .add element => .add element
  | .union left right choice => .union left right choice
  | .find element => .find element
  | .remove element choice _ => .remove element choice ()

namespace Partition

variable {α : Type} [BEq α]

/-- Remove an element, for an order of the visit. -/
def removeIn (visit : Visit α) (partition : Partition α) (element : α) (pick : α → α → α) :
    Partition α :=
  ⟨partition.classes.filterMap fun c => c.withoutIn? visit element pick⟩

theorem removeIn_listed (partition : Partition α) (element : α) (pick : α → α → α) :
    partition.removeIn (.listed α) element pick = partition.remove element pick := by
  simp only [removeIn, remove, Class.withoutIn?, Cluster.removeIn?_listed]
  rfl

omit [BEq α] in
theorem mem_elements {partition : Partition α} {a : α} :
    a ∈ partition.elements ↔ ∃ c ∈ partition.classes, a ∈ c.cluster.members :=
  List.mem_flatMap

section Removal

variable [EquivBEq α] {partition : Partition α}

theorem distinct_removeIn (h : Distinct partition.elements) (visit : Visit α) (element : α)
    (pick : α → α → α) : Distinct (partition.removeIn visit element pick).elements := by
  obtain ⟨hclasses, hpairs⟩ := distinct_iff.1 h
  refine distinct_iff.2 ⟨fun d hd => ?_, ?_⟩
  · obtain ⟨c, hc, hcd⟩ := List.mem_filterMap.1 hd
    exact Distinct.perm ((hclasses c hc).filter _) (Class.withoutIn?_perm (hclasses c hc) hcd).symm
  · refine List.Pairwise.filterMap _ ?_ (List.Pairwise.and_mem.1 hpairs)
    rintro c c' ⟨hc, hc', hapart⟩ d hcd d' hcd' a ha b hb
    have hmem := (Class.withoutIn?_perm (hclasses c hc) hcd).mem_iff.1 ha
    have hmem' := (Class.withoutIn?_perm (hclasses c' hc') hcd').mem_iff.1 hb
    exact hapart a (List.mem_filter.1 hmem).1 b (List.mem_filter.1 hmem').1

theorem mem_elements_removeIn (h : Distinct partition.elements) (visit : Visit α) (element : α)
    (pick : α → α → α) {a : α} : a ∈ (partition.removeIn visit element pick).elements ↔
      a ∈ partition.elements ∧ (a == element) = false := by
  have hperm := fun {c d : Class α} (hc : c ∈ partition.classes)
    (hd : c.withoutIn? visit element pick = some d) =>
      Class.withoutIn?_perm ((distinct_iff.1 h).1 c hc) hd
  simp only [mem_elements]
  constructor
  · rintro ⟨d, hd, ha⟩
    obtain ⟨c, hc, hcd⟩ := List.mem_filterMap.1 hd
    obtain ⟨hmem, hne⟩ := List.mem_filter.1 ((hperm hc hcd).mem_iff.1 ha)
    exact ⟨⟨c, hc, hmem⟩, by simpa using hne⟩
  · rintro ⟨⟨c, hc, ha⟩, hne⟩
    obtain ⟨d, hcd⟩ := Class.exists_withoutIn? visit pick ha hne
    refine ⟨d, List.mem_filterMap.2 ⟨c, hc, hcd⟩, (hperm hc hcd).mem_iff.2 ?_⟩
    exact List.mem_filter.2 ⟨ha, by simp [hne]⟩

end Removal

/-- What an operation does to a partition. -/
def change (partition : Partition α) : Change α (Visit α) → Partition α
  | .add element => partition.add element
  | .union left right choice => partition.union left right choice.pick
  | .find element => partition.compress element
  | .remove element choice visit => partition.removeIn visit element choice.pick

end Partition

/-! ## The reference -/

/-- Disjoint sets of elements. -/
abbrev Blocks (α : Type) : Type := Set (Set α)

namespace Blocks

variable {α : Type} [BEq α]

/-- The elements that count as the same as the given one. -/
def alike (element : α) : Set α := {a | (a == element) = true}

/-- A block of one element, unless the element is there already. -/
def add (blocks : Blocks α) (element : α) : Blocks α :=
  blocks ∪ {block | block = alike element ∧ ∀ other ∈ blocks, element ∉ other}

/-- The blocks of two elements, added if necessary, become one. -/
def union (blocks : Blocks α) (left right : α) : Blocks α :=
  let blocks := (blocks.add left).add right
  {block | block ∈ blocks ∧ left ∉ block ∧ right ∉ block} ∪
    {⋃₀ {block | block ∈ blocks ∧ (left ∈ block ∨ right ∈ block)}}

/-- The other elements of a block stay together. A block of nothing else goes. -/
def remove (blocks : Blocks α) (element : α) : Blocks α :=
  {block | block.Nonempty ∧ ∃ old ∈ blocks, block = old \ alike element}

/-- What an operation does to the blocks. -/
def change {ω : Type} (blocks : Blocks α) : Change α ω → Blocks α
  | .add element => blocks.add element
  | .union left right _ => blocks.union left right
  | .find _ => blocks
  | .remove element _ _ => blocks.remove element

/-- The blocks after some operations. -/
def after {ω : Type} (changes : List (Change α ω)) : Blocks α := changes.foldl change ∅

theorem change_plain {ω : Type} (blocks : Blocks α) (change : Change α ω) :
    blocks.change change.plain = blocks.change change := by
  cases change <;> rfl

end Blocks

namespace Partition

variable {α : Type} [BEq α]

/-- The classes are the blocks, and each class is represented by a member. -/
structure Refines (partition : Partition α) (blocks : Blocks α) : Prop where
  distinct : Distinct partition.elements
  represented : ∀ c ∈ partition.classes, c.Represented
  mem_iff : ∀ block, block ∈ blocks ↔ ∃ c ∈ partition.classes, block = c.block

section Steps

variable {partition : Partition α} {blocks : Blocks α}

theorem contains_iff {x : α} :
    partition.contains x = true ↔ ∃ c ∈ partition.classes, c.Has x := by
  rw [contains, ← not_iff_not, Bool.not_eq_true, Option.isSome_eq_false_iff,
    Option.isNone_iff_eq_none, classOf?_eq_none_iff]
  simp

namespace Refines

theorem empty : Refines (Partition.empty : Partition α) ∅ where
  distinct := List.Pairwise.nil
  represented _ hc := (List.not_mem_nil hc).elim
  mem_iff block := by simp [Partition.empty]

theorem exists_class (h : Refines partition blocks) {block : Set α} (hblock : block ∈ blocks) :
    ∃ c ∈ partition.classes, block = c.block :=
  (h.mem_iff block).1 hblock

theorem block_mem (h : Refines partition blocks) {c : Class α} (hc : c ∈ partition.classes) :
    c.block ∈ blocks :=
  (h.mem_iff c.block).2 ⟨c, hc, rfl⟩

theorem known_iff (h : Refines partition blocks) (x : α) :
    partition.contains x = true ↔ ∃ block ∈ blocks, x ∈ block := by
  rw [contains_iff]
  constructor
  · rintro ⟨c, hc, hx⟩
    exact ⟨c.block, h.block_mem hc, hx⟩
  · rintro ⟨block, hblock, hx⟩
    obtain ⟨c, hc, rfl⟩ := h.exists_class hblock
    exact ⟨c, hc, hx⟩

variable [EquivBEq α]

theorem find_of_has (h : Refines partition blocks) {c : Class α} (hc : c ∈ partition.classes)
    {x : α} (hx : c.Has x) : partition.find x = c.representative :=
  find_of_classOf? (classOf?_eq_some h.distinct hc hx)

/-! ## Adding -/

omit [EquivBEq α] in
theorem block_singleton (element : α) :
    (⟨.singleton element, element⟩ : Class α).block = Blocks.alike element := by
  ext a
  simp [Class.block, Class.Has, Blocks.alike, Cluster.singleton, Cluster.members,
    Cluster.membersList]

theorem add (h : Refines partition blocks) (element : α) :
    Refines (partition.add element) (blocks.add element) := by
  have hown : (⟨.singleton element, element⟩ : Class α).Represented :=
    Class.has_of_mem (Cluster.root_mem_members _)
  refine ⟨distinct_add h.distinct element, fun c hc => ?_, fun block => ?_⟩
  · rcases mem_classes_add hc with hold | rfl
    · exact h.represented c hold
    · exact hown
  · rw [Blocks.add, Set.mem_union, Set.mem_ofPred_eq, h.mem_iff]
    by_cases hcontains : partition.contains element = true
    · rw [Partition.add, if_pos hcontains]
      refine or_iff_left fun hnew => ?_
      obtain ⟨other, hother, helement⟩ := (h.known_iff element).1 hcontains
      exact hnew.2 other hother helement
    · have hfresh : ∀ other ∈ blocks, element ∉ other := fun other hother helement =>
        hcontains ((h.known_iff element).2 ⟨other, hother, helement⟩)
      rw [Partition.add, if_neg hcontains]
      simp only [List.mem_append, List.mem_singleton, or_and_right, exists_or, exists_eq_left,
        block_singleton]
      exact or_congr_right (and_iff_left hfresh)

/-! ## Merging -/

omit [EquivBEq α] in
theorem block_merged (pick : α → α → α) (l r : Class α) :
    (Class.merged pick l r).block = l.block ∪ r.block := by
  ext a
  exact Class.merged_has

theorem represented_merged (choice : Choice α) {l r : Class α} (hl : l.Represented)
    (hr : r.Represented) : (Class.merged choice.pick l r).Represented := by
  refine Class.merged_has.2 ?_
  rcases choice.picks l.representative r.representative with hpick | hpick
  · exact .inl ((Class.has_congr hpick).2 hl)
  · exact .inr ((Class.has_congr hpick).2 hr)

theorem union (h : Refines partition blocks) (left right : α) (choice : Choice α) :
    Refines (partition.union left right choice.pick) (blocks.union left right) := by
  obtain ⟨⟨l, hl⟩, r, hr⟩ := exists_classOf?_prepared partition left right
  have hprepared : Refines (partition.prepared left right) ((blocks.add left).add right) :=
    (h.add left).add right
  obtain ⟨hlmem, hleft⟩ := mem_of_classOf? hl
  obtain ⟨hrmem, hright⟩ := mem_of_classOf? hr
  have hown : ∀ c ∈ (partition.prepared left right).classes,
      (c.Has left ↔ c = l) ∧ (c.Has right ↔ c = r) := by
    intro c hc
    refine ⟨⟨fun hhas => eq_of_has hprepared.distinct hc hlmem hhas hleft, ?_⟩,
      ⟨fun hhas => eq_of_has hprepared.distinct hc hrmem hhas hright, ?_⟩⟩
    · rintro rfl
      exact hleft
    · rintro rfl
      exact hright
  -- The blocks that hold one of the two elements are those of the two classes.
  have hjoined : ⋃₀ {block | block ∈ (blocks.add left).add right ∧
      (left ∈ block ∨ right ∈ block)} = l.block ∪ r.block := by
    ext a
    constructor
    · rintro ⟨block, ⟨hblock, hholds⟩, ha⟩
      obtain ⟨c, hc, rfl⟩ := hprepared.exists_class hblock
      rcases hholds with hholds | hholds
      · rw [(hown c hc).1.1 hholds] at ha
        exact .inl ha
      · rw [(hown c hc).2.1 hholds] at ha
        exact .inr ha
    · rintro (ha | ha)
      · exact ⟨l.block, ⟨hprepared.block_mem hlmem, .inl hleft⟩, ha⟩
      · exact ⟨r.block, ⟨hprepared.block_mem hrmem, .inr hright⟩, ha⟩
  have hothers : ∀ block, (block ∈ (blocks.add left).add right ∧ left ∉ block ∧ right ∉ block) ↔
      ∃ c ∈ (partition.prepared left right).classes, (c ≠ l ∧ c ≠ r) ∧ block = c.block := by
    intro block
    constructor
    · rintro ⟨hblock, hnotLeft, hnotRight⟩
      obtain ⟨c, hc, rfl⟩ := hprepared.exists_class hblock
      exact ⟨c, hc, ⟨fun heq => hnotLeft ((hown c hc).1.2 heq),
        fun heq => hnotRight ((hown c hc).2.2 heq)⟩, rfl⟩
    · rintro ⟨c, hc, ⟨hcl, hcr⟩, rfl⟩
      exact ⟨hprepared.block_mem hc, fun hhas => hcl ((hown c hc).1.1 hhas),
        fun hhas => hcr ((hown c hc).2.1 hhas)⟩
  have hmem : ∀ block, block ∈ blocks.union left right ↔
      (∃ c ∈ (partition.prepared left right).classes, (c ≠ l ∧ c ≠ r) ∧ block = c.block) ∨
        block = l.block ∪ r.block := by
    intro block
    rw [Blocks.union, Set.mem_union, Set.mem_ofPred_eq, Set.mem_singleton_iff, hjoined, hothers]
  refine ⟨distinct_union h.distinct left right choice.pick, ?_, fun block => ?_⟩
  · obtain ⟨-, hunion⟩ | ⟨-, others, hunion, -, hclasses⟩ :=
      union_cases choice.pick h.distinct hl hr
    · rw [hunion]
      exact hprepared.represented
    · rw [hunion]
      intro c hc
      rcases List.mem_append.1 hc with hc | hc
      · exact hprepared.represented c ((hclasses c).1 hc).1
      · rw [List.mem_singleton.1 hc]
        exact represented_merged choice (hprepared.represented l hlmem)
          (hprepared.represented r hrmem)
  · rw [hmem]
    obtain ⟨rfl, hunion⟩ | ⟨hlr, others, hunion, -, hclasses⟩ :=
      union_cases choice.pick h.distinct hl hr
    · rw [hunion, Set.union_self]
      constructor
      · rintro (⟨c, hc, -, rfl⟩ | rfl)
        · exact ⟨c, hc, rfl⟩
        · exact ⟨l, hlmem, rfl⟩
      · rintro ⟨c, hc, rfl⟩
        by_cases hcl : c = l
        · exact .inr (by rw [hcl])
        · exact .inl ⟨c, hc, ⟨hcl, hcl⟩, rfl⟩
    · rw [hunion, ← block_merged choice.pick]
      simp only [List.mem_append, List.mem_singleton, hclasses, or_and_right, exists_or,
        exists_eq_left, and_assoc]

/-! ## Removing -/

/-- Choosing one by one from a list ends with an element of the list. -/
theorem exists_beq_foldl (choice : Choice α) (first : α) (rest : List α) :
    ∃ a ∈ first :: rest, (rest.foldl choice.pick first == a) = true := by
  induction rest generalizing first with
  | nil => exact ⟨first, List.mem_cons_self, BEq.refl first⟩
  | cons second rest ih =>
    obtain ⟨a, ha, hbeq⟩ := ih (choice.pick first second)
    rw [List.foldl_cons]
    rcases List.mem_cons.1 ha with rfl | ha
    · rcases choice.picks first second with hpick | hpick
      · exact ⟨first, List.mem_cons_self, BEq.trans hbeq hpick⟩
      · exact ⟨second, List.mem_cons_of_mem _ List.mem_cons_self, BEq.trans hbeq hpick⟩
    · exact ⟨a, List.mem_cons_of_mem _ (List.mem_cons_of_mem _ ha), hbeq⟩

/-- What is left of a class is represented by one of its members. -/
theorem represented_without (visit : Visit α) (choice : Choice α) {element : α} {c d : Class α}
    (hdistinct : Distinct c.cluster.members) (hc : c.Represented)
    (h : c.withoutIn? visit element choice.pick = some d) : d.Represented := by
  obtain ⟨-, rfl⟩ | ⟨-, hperm, hkept | hpicked⟩ := Class.withoutIn?_some hdistinct h
  · exact hc
  · obtain ⟨hrep, hkept⟩ := hkept
    obtain ⟨a, ha, hbeq⟩ := Class.has_iff.1 hc
    refine Class.has_iff.2 ⟨a, hperm.mem_iff.2 (List.mem_filter.2 ⟨ha, ?_⟩), hkept ▸ hbeq⟩
    rw [← BEq.congr_left hbeq]
    simpa using hrep
  · obtain ⟨-, first, rest, hvisit, hpicked⟩ := hpicked
    obtain ⟨a, ha, hbeq⟩ := exists_beq_foldl choice first rest
    refine Class.has_iff.2 ⟨a, (visit.members_perm _).mem_iff.1 ?_, hpicked ▸ hbeq⟩
    rw [hvisit]
    exact ha

theorem block_of_perm {element : α} {c d : Class α}
    (h : d.cluster.members.Perm (c.cluster.members.filter fun a => !(a == element))) :
    d.block = c.block \ Blocks.alike element := by
  ext a
  simp only [Class.block, Set.mem_ofPred_eq, Class.has_iff, h.mem_iff, List.mem_filter,
    Set.mem_sdiff, Blocks.alike]
  constructor
  · rintro ⟨m, ⟨hm, hne⟩, hbeq⟩
    refine ⟨⟨m, hm, hbeq⟩, fun halike => ?_⟩
    rw [BEq.trans (BEq.symm hbeq) halike] at hne
    cases hne
  · rintro ⟨⟨m, hm, hbeq⟩, hne⟩
    refine ⟨m, ⟨hm, ?_⟩, hbeq⟩
    rw [← BEq.congr_left hbeq]
    simpa using hne

theorem remove (h : Refines partition blocks) (element : α) (choice : Choice α)
    (visit : Visit α) :
    Refines (partition.removeIn visit element choice.pick) (blocks.remove element) := by
  obtain ⟨hclasses, -⟩ := distinct_iff.1 h.distinct
  have hblock : ∀ c ∈ partition.classes, ∀ d, c.withoutIn? visit element choice.pick = some d →
      d.block = c.block \ Blocks.alike element := fun c hc d hcd =>
    block_of_perm (Class.withoutIn?_perm (hclasses c hc) hcd)
  refine ⟨distinct_removeIn h.distinct visit element choice.pick, fun d hd => ?_, fun block => ?_⟩
  · obtain ⟨c, hc, hcd⟩ := List.mem_filterMap.1 hd
    exact represented_without visit choice (hclasses c hc) (h.represented c hc) hcd
  · constructor
    · rintro ⟨⟨a, ha⟩, old, hold, rfl⟩
      obtain ⟨c, hc, rfl⟩ := h.exists_class hold
      obtain ⟨m, hm, hbeq⟩ := Class.has_iff.1 ha.1
      have hne : (m == element) = false := by
        rw [← BEq.congr_left hbeq]
        simpa [Blocks.alike] using ha.2
      obtain ⟨d, hcd⟩ := Class.exists_withoutIn? visit choice.pick hm hne
      exact ⟨d, List.mem_filterMap.2 ⟨c, hc, hcd⟩, (hblock c hc d hcd).symm⟩
    · rintro ⟨d, hd, rfl⟩
      obtain ⟨c, hc, hcd⟩ := List.mem_filterMap.1 hd
      exact ⟨⟨d.cluster.root, Class.has_of_mem (Cluster.root_mem_members _)⟩, c.block,
        h.block_mem hc, hblock c hc d hcd⟩

/-! ## Looking up -/

/-- Shorter ways change no class. -/
theorem compress (h : Refines partition blocks) (element : α) :
    Refines (partition.compress element) blocks := by
  obtain ⟨hclasses, hpairs⟩ := distinct_iff.1 h.distinct
  have hperm := fun c : Class α => Cluster.compress_perm element c.cluster
  have hblock : ∀ c : Class α,
      ({ c with cluster := c.cluster.compress element } : Class α).block = c.block := by
    intro c
    ext a
    simp only [Class.block, Set.mem_ofPred_eq, Class.has_iff, (hperm c).mem_iff]
  refine ⟨distinct_iff.2 ⟨fun d hd => ?_, ?_⟩, fun d hd => ?_, fun block => ?_⟩
  · obtain ⟨c, hc, rfl⟩ := List.mem_map.1 hd
    exact (hclasses c hc).perm (hperm c).symm
  · refine List.Pairwise.map _ (fun c d hapart a ha b hb => ?_) hpairs
    exact hapart a ((hperm c).mem_iff.1 ha) b ((hperm d).mem_iff.1 hb)
  · obtain ⟨c, hc, rfl⟩ := List.mem_map.1 hd
    have hmem : c.representative ∈ c.block := h.represented c hc
    rwa [← hblock c] at hmem
  · rw [h.mem_iff]
    constructor
    · rintro ⟨c, hc, rfl⟩
      exact ⟨_, List.mem_map_of_mem hc, (hblock c).symm⟩
    · rintro ⟨d, hd, rfl⟩
      obtain ⟨c, hc, rfl⟩ := List.mem_map.1 hd
      exact ⟨c, hc, hblock c⟩

/-- Every operation does to the classes what it does to the blocks. -/
theorem change (h : Refines partition blocks) (change : Change α (Visit α)) :
    Refines (partition.change change) (blocks.change change) := by
  cases change with
  | add element => exact h.add element
  | union left right choice => exact h.union left right choice
  | find element => exact h.compress element
  | remove element choice visit => exact h.remove element choice visit

/-! ## What is seen of the classes -/

/-- Classes with one representative are one class. -/
theorem eq_of_representative (h : Refines partition blocks) {c d : Class α}
    (hc : c ∈ partition.classes) (hd : d ∈ partition.classes)
    (hbeq : (c.representative == d.representative) = true) : c = d :=
  eq_of_has h.distinct hc hd ((Class.has_congr hbeq).1 (h.represented c hc))
    (h.represented d hd)

theorem same_iff (h : Refines partition blocks) {x y : α} (hx : partition.contains x = true)
    (hy : partition.contains y = true) : (partition.find x == partition.find y) = true ↔
      ∃ block ∈ blocks, x ∈ block ∧ y ∈ block := by
  obtain ⟨c, hc, hcx⟩ := contains_iff.1 hx
  obtain ⟨d, hd, hdy⟩ := contains_iff.1 hy
  rw [h.find_of_has hc hcx, h.find_of_has hd hdy]
  constructor
  · intro hbeq
    obtain rfl := h.eq_of_representative hc hd hbeq
    exact ⟨c.block, h.block_mem hc, hcx, hdy⟩
  · rintro ⟨block, hblock, hbx, hby⟩
    obtain ⟨e, he, rfl⟩ := h.exists_class hblock
    rw [eq_of_has h.distinct hc he hcx hbx, eq_of_has h.distinct hd he hdy hby]
    exact BEq.refl _

theorem find_find (h : Refines partition blocks) (x : α) :
    partition.find (partition.find x) = partition.find x := by
  cases hclass : partition.classOf? x with
  | none => rw [find_of_absent hclass, find_of_absent hclass]
  | some c =>
    obtain ⟨hc, hcx⟩ := mem_of_classOf? hclass
    rw [h.find_of_has hc hcx, h.find_of_has hc (h.represented c hc)]

end Refines

end Steps

end Partition

end PolyFront
