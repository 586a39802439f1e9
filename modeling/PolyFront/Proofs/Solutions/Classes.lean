import PolyFront.Proofs.Solutions.Clusters

/-!
# The classes of a partition

Every operation on partitions is described by what it does to the class of an element: adding
gives an element a class of its own, merging gives the members of two classes one class with a
picked representative, and removing keeps the other members of a class together.

The classes of solutions are sound when an unsolved representative stands for variables only
and is one of them, and when a class that holds a leaf is represented by a leaf.
-/

namespace PolyFront

namespace Class

variable {α : Type}

/-- The class of two merged classes. -/
def merged (pick : α → α → α) (c d : Class α) : Class α :=
  ⟨c.cluster.merge d.cluster, pick c.representative d.representative⟩

theorem mem_merged {pick : α → α → α} {c d : Class α} {a : α} :
    a ∈ (merged pick c d).cluster.members ↔
      a ∈ c.cluster.members ∨ a ∈ d.cluster.members := by
  rw [merged, (Cluster.members_merge c.cluster d.cluster).mem_iff, List.mem_append]

variable [BEq α]

/-- An element is a member of the class. -/
def Has (c : Class α) (element : α) : Prop := c.cluster.members.contains element = true

theorem has_iff {c : Class α} {element : α} :
    c.Has element ↔ ∃ a ∈ c.cluster.members, (element == a) = true :=
  List.contains_iff_exists_mem_beq

/-- No member of one class is a member of the other. -/
def Apart (c d : Class α) : Prop :=
  ∀ a ∈ c.cluster.members, ∀ b ∈ d.cluster.members, (a == b) = false

theorem merged_has {pick : α → α → α} {c d : Class α} {a : α} :
    (merged pick c d).Has a ↔ c.Has a ∨ d.Has a := by
  simp only [has_iff, mem_merged]
  constructor
  · rintro ⟨m, hm | hm, ham⟩
    · exact .inl ⟨m, hm, ham⟩
    · exact .inr ⟨m, hm, ham⟩
  · rintro (⟨m, hm, ham⟩ | ⟨m, hm, ham⟩)
    · exact ⟨m, .inl hm, ham⟩
    · exact ⟨m, .inr hm, ham⟩

/-- What is left of a class without an element. -/
def without? (element : α) (pick : α → α → α) (c : Class α) : Option (Class α) :=
  if c.cluster.members.contains element then
    (c.cluster.remove? element).map fun cluster =>
      if c.representative == element then
        match cluster.members with
        | first :: rest => ⟨cluster, rest.foldl pick first⟩
        | [] => ⟨cluster, cluster.root⟩
      else ⟨cluster, c.representative⟩
  else some c

/-- The representative of what is left of a class: the old one, unless that was removed. -/
theorem without?_representative {element : α} {pick : α → α → α} {c d : Class α}
    (h : c.without? element pick = some d) :
    d.representative = c.representative ∧
        (c.Has element → (c.representative == element) = false) ∨
      (c.representative == element) = true ∧
        ∃ first rest, d.cluster.members = first :: rest ∧
          d.representative = rest.foldl pick first := by
  unfold without? at h
  split at h
  · obtain ⟨cluster, hremove, rfl⟩ := Option.map_eq_some_iff.1 h
    split
    · rename_i hrep
      refine .inr ⟨hrep, ?_⟩
      split
      · rename_i first rest hmembers
        exact ⟨first, rest, hmembers, rfl⟩
      · rename_i hmembers
        have hroot := Cluster.root_mem_members cluster
        rw [hmembers] at hroot
        exact (List.not_mem_nil hroot).elim
    · rename_i hrep
      exact .inl ⟨rfl, fun _ => by simpa using hrep⟩
  · rename_i hnot
    obtain rfl := Option.some.inj h
    exact .inl ⟨rfl, fun hhas => (hnot hhas).elim⟩

variable [EquivBEq α]

theorem has_of_mem {c : Class α} {element : α} (h : element ∈ c.cluster.members) :
    c.Has element :=
  has_iff.2 ⟨element, h, BEq.refl element⟩

theorem has_congr {c : Class α} {a b : α} (h : (a == b) = true) : c.Has a ↔ c.Has b := by
  constructor
  · intro ha
    obtain ⟨m, hm, ham⟩ := has_iff.1 ha
    exact has_iff.2 ⟨m, hm, BEq.trans (BEq.symm h) ham⟩
  · intro hb
    obtain ⟨m, hm, hbm⟩ := has_iff.1 hb
    exact has_iff.2 ⟨m, hm, BEq.trans h hbm⟩

theorem Apart.not_has {c d : Class α} (h : Apart c d) {element : α} (hc : c.Has element) :
    ¬d.Has element := by
  intro hd
  obtain ⟨a, ha, hea⟩ := has_iff.1 hc
  obtain ⟨b, hb, heb⟩ := has_iff.1 hd
  have hab : (a == b) = true := BEq.trans (BEq.symm hea) heb
  rw [h a ha b hb] at hab
  cases hab

theorem Apart.symm {c d : Class α} (h : Apart c d) : Apart d c := by
  intro b hb a ha
  rw [BEq.comm]
  exact h a ha b hb

/-- The members of what is left of a class. -/
theorem without?_perm {element : α} {pick : α → α → α} {c d : Class α}
    (hc : Distinct c.cluster.members) (h : c.without? element pick = some d) :
    d.cluster.members.Perm (c.cluster.members.filter fun a => !(a == element)) := by
  unfold without? at h
  split at h
  · obtain ⟨cluster, hremove, rfl⟩ := Option.map_eq_some_iff.1 h
    have hperm := Cluster.remove?_perm hc hremove
    split
    · split <;> exact hperm
    · exact hperm
  · rename_i hnot
    obtain rfl := Option.some.inj h
    rw [filter_eq_self_of_apart]
    intro a ha
    rw [← Bool.not_eq_true]
    intro heq
    exact hnot (has_iff.2 ⟨a, ha, heq⟩)

/-- A class with another member than the removed element does not vanish. -/
theorem exists_without? {element other : α} (pick : α → α → α) {c : Class α}
    (hother : c.Has other) (hne : (other == element) = false) :
    ∃ d, c.without? element pick = some d := by
  unfold without?
  split
  · cases hremove : c.cluster.remove? element with
    | some cluster => exact ⟨_, rfl⟩
    | none =>
      obtain ⟨a, ha, hoa⟩ := has_iff.1 hother
      have hae : (a == element) = false := by rw [← BEq.congr_left hoa, hne]
      have hmem : a ∈ c.cluster.members.filter fun a => !(a == element) := by
        simp [ha, hae]
      rw [Cluster.remove?_eq_none hremove] at hmem
      exact (List.not_mem_nil hmem).elim
  · exact ⟨c, rfl⟩

theorem mem_of_without? {element : α} {pick : α → α → α} {c d : Class α}
    (hc : Distinct c.cluster.members) (h : c.without? element pick = some d) {a : α} :
    a ∈ d.cluster.members ↔ a ∈ c.cluster.members ∧ (a == element) = false := by
  rw [(without?_perm hc h).mem_iff, List.mem_filter]
  simp

end Class

namespace Partition

variable {α : Type} [BEq α] {partition : Partition α}

/-! ## Distinct classes -/

theorem distinct_iff : Distinct partition.elements ↔
    (∀ c ∈ partition.classes, Distinct c.cluster.members) ∧
      partition.classes.Pairwise Class.Apart := by
  rw [Distinct, elements, List.pairwise_flatMap]
  rfl

section Distinct

variable [EquivBEq α]

theorem apart_of_ne (h : Distinct partition.elements) {c d : Class α}
    (hc : c ∈ partition.classes) (hd : d ∈ partition.classes) (hne : c ≠ d) :
    Class.Apart c d := by
  have hpairs := (distinct_iff.1 h).2
  have hall : ∀ a ∈ partition.classes, ∀ b ∈ partition.classes, a = b ∨ Class.Apart a b := by
    refine List.Pairwise.forall_of_forall_of_flip ?_ ?_ ?_
    · intro a _
      exact .inl rfl
    · exact hpairs.imp fun hab => .inr hab
    · exact hpairs.imp fun hab => .inr hab.symm
  exact (hall c hc d hd).resolve_left hne

/-- Two classes that share a member are one. -/
theorem eq_of_has (h : Distinct partition.elements) {c d : Class α} {a : α}
    (hc : c ∈ partition.classes) (hd : d ∈ partition.classes) (hca : c.Has a) (hda : d.Has a) :
    c = d := by
  by_cases hcd : c = d
  · exact hcd
  · exact ((apart_of_ne h hc hd hcd).not_has hca hda).elim

end Distinct

theorem mem_of_classOf? {a : α} {c : Class α} (h : partition.classOf? a = some c) :
    c ∈ partition.classes ∧ c.Has a := by
  unfold classOf? at h
  exact ⟨List.mem_of_find?_eq_some h, by simpa [Class.Has] using List.find?_some h⟩

theorem classOf?_eq_none_iff {a : α} :
    partition.classOf? a = none ↔ ∀ c ∈ partition.classes, ¬c.Has a := by
  simp [classOf?, List.find?_eq_none, Class.Has]

theorem find_of_classOf? {a : α} {c : Class α} (h : partition.classOf? a = some c) :
    partition.find a = c.representative := by
  rw [find, h]

theorem find_of_absent {a : α} (h : partition.classOf? a = none) : partition.find a = a := by
  rw [find, h]

variable [EquivBEq α]

theorem classOf?_eq_some (h : Distinct partition.elements) {a : α} {c : Class α}
    (hc : c ∈ partition.classes) (hca : c.Has a) : partition.classOf? a = some c := by
  cases hfind : partition.classOf? a with
  | none => exact (classOf?_eq_none_iff.1 hfind c hc hca).elim
  | some d =>
    obtain ⟨hd, hda⟩ := mem_of_classOf? hfind
    rw [eq_of_has h hd hc hda hca]

theorem classOf?_congr {a b : α} (h : (a == b) = true) :
    partition.classOf? a = partition.classOf? b := by
  have htest : (fun c : Class α => c.cluster.members.contains a) =
      fun c => c.cluster.members.contains b := by
    funext c
    rw [Bool.eq_iff_iff]
    exact Class.has_congr h
  rw [classOf?, classOf?, htest]

/-! ## Adding -/

/-- Adding an element changes no class but gives the element one if it has none. -/
theorem classOf?_add (partition : Partition α) (element a : α) :
    (partition.add element).classOf? a = (partition.classOf? a).or
      (if a == element then some ⟨.singleton element, element⟩ else none) := by
  have hlast : [(⟨.singleton element, element⟩ : Class α)].find?
      (fun c => c.cluster.members.contains a) =
        if a == element then some ⟨.singleton element, element⟩ else none := by
    simp [Cluster.singleton, Cluster.members, Cluster.membersList]
  unfold add
  split
  · rename_i hcontains
    by_cases ha : (a == element) = true
    · rw [contains, ← classOf?_congr ha] at hcontains
      obtain ⟨c, hc⟩ := Option.isSome_iff_exists.1 hcontains
      rw [hc]
      rfl
    · rw [if_neg ha, Option.or_none]
  · rw [classOf?, List.find?_append, hlast]
    rfl

omit [EquivBEq α] in
theorem mem_classes_add {element : α} {c : Class α} (h : c ∈ (partition.add element).classes) :
    c ∈ partition.classes ∨ c = ⟨.singleton element, element⟩ := by
  unfold add at h
  split at h
  · exact .inl h
  · simpa using h

theorem distinct_add (h : Distinct partition.elements) (element : α) :
    Distinct (partition.add element).elements := by
  unfold add
  split
  · exact h
  · rename_i hcontains
    obtain ⟨hclasses, hpairs⟩ := distinct_iff.1 h
    have habsent : ∀ c ∈ partition.classes, ¬c.Has element := by
      rw [contains, Option.not_isSome_iff_eq_none] at hcontains
      exact classOf?_eq_none_iff.1 hcontains
    refine distinct_iff.2 ⟨?_, List.pairwise_append.2 ⟨hpairs, List.pairwise_singleton _ _, ?_⟩⟩
    · intro c hc
      rcases List.mem_append.1 hc with hc | hc
      · exact hclasses c hc
      · rw [List.mem_singleton.1 hc]
        exact List.pairwise_singleton _ _
    · intro c hc d hd a ha b hb
      rw [List.mem_singleton.1 hd] at hb
      obtain rfl : b = element := by
        simpa [Cluster.singleton, Cluster.members, Cluster.membersList] using hb
      rw [← Bool.not_eq_true]
      intro hab
      exact habsent c hc (Class.has_iff.2 ⟨a, ha, BEq.symm hab⟩)

theorem exists_classOf?_add (partition : Partition α) (element : α) :
    ∃ c, (partition.add element).classOf? element = some c := by
  rw [classOf?_add, if_pos (BEq.refl element)]
  cases partition.classOf? element with
  | none => exact ⟨_, rfl⟩
  | some c => exact ⟨c, rfl⟩

/-! ## Merging -/

/-- The partition in which two elements that are to be merged have classes. -/
def prepared (partition : Partition α) (left right : α) : Partition α :=
  (partition.add left).add right

theorem distinct_prepared (h : Distinct partition.elements) (left right : α) :
    Distinct (partition.prepared left right).elements :=
  distinct_add (distinct_add h left) right

theorem exists_classOf?_prepared (partition : Partition α) (left right : α) :
    (∃ l, (partition.prepared left right).classOf? left = some l) ∧
      ∃ r, (partition.prepared left right).classOf? right = some r := by
  refine ⟨?_, exists_classOf?_add _ right⟩
  obtain ⟨l, hl⟩ := exists_classOf?_add partition left
  refine ⟨l, ?_⟩
  rw [prepared, classOf?_add, hl]
  rfl

/-- Merging the classes of two elements: nothing happens when they are one class, and else the
two give way to the class of both. -/
theorem union_cases (pick : α → α → α) (h : Distinct partition.elements) {left right : α}
    {l r : Class α} (hl : (partition.prepared left right).classOf? left = some l)
    (hr : (partition.prepared left right).classOf? right = some r) :
    l = r ∧ partition.union left right pick = partition.prepared left right ∨
      l ≠ r ∧ ∃ others, partition.union left right pick =
          ⟨others ++ [Class.merged pick l r]⟩ ∧
        others.Sublist (partition.prepared left right).classes ∧
        ∀ c, c ∈ others ↔ c ∈ (partition.prepared left right).classes ∧ c ≠ l ∧ c ≠ r := by
  have hdistinct := distinct_prepared h left right
  obtain ⟨hlmem, -⟩ := mem_of_classOf? hl
  obtain ⟨hrmem, -⟩ := mem_of_classOf? hr
  have hroot : ∀ c ∈ (partition.prepared left right).classes,
      ∀ d ∈ (partition.prepared left right).classes,
        (c.cluster.root == d.cluster.root) = true ↔ c = d := by
    intro c hc d hd
    constructor
    · intro heq
      have hdroot : d.Has d.cluster.root := Class.has_of_mem (Cluster.root_mem_members _)
      have hcroot : c.Has d.cluster.root :=
        (Class.has_congr heq).1 (Class.has_of_mem (Cluster.root_mem_members _))
      exact eq_of_has hdistinct hc hd hcroot hdroot
    · rintro rfl
      exact BEq.refl _
  have hunion : partition.union left right pick =
      if l.cluster.root == r.cluster.root then partition.prepared left right
      else ⟨((partition.prepared left right).classes.filter fun c =>
        !(c.cluster.root == l.cluster.root || c.cluster.root == r.cluster.root)) ++
          [Class.merged pick l r]⟩ := by
    rw [prepared] at hl hr ⊢
    simp only [union, hl, hr]
    rfl
  by_cases hlr : l = r
  · exact .inl ⟨hlr, by rw [hunion, if_pos ((hroot l hlmem r hrmem).2 hlr)]⟩
  · refine .inr ⟨hlr, (partition.prepared left right).classes.filter fun c =>
      !(c.cluster.root == l.cluster.root || c.cluster.root == r.cluster.root), ?_,
      List.filter_sublist, ?_⟩
    · rw [hunion, if_neg fun heq => hlr ((hroot l hlmem r hrmem).1 heq)]
    · intro c
      rw [List.mem_filter]
      refine and_congr_right fun hc => ?_
      rw [Bool.not_eq_true', Bool.or_eq_false_iff, ← Bool.not_eq_true, ← Bool.not_eq_true,
        hroot c hc l hlmem, hroot c hc r hrmem]

theorem distinct_union (h : Distinct partition.elements) (left right : α)
    (pick : α → α → α) : Distinct (partition.union left right pick).elements := by
  obtain ⟨⟨l, hl⟩, r, hr⟩ := exists_classOf?_prepared partition left right
  have hprepared := distinct_prepared h left right
  obtain ⟨hlmem, -⟩ := mem_of_classOf? hl
  obtain ⟨hrmem, -⟩ := mem_of_classOf? hr
  obtain ⟨-, hunion⟩ | ⟨hlr, others, hunion, hsub, hothers⟩ :=
    union_cases pick h hl hr
  · rw [hunion]
    exact hprepared
  · obtain ⟨hclasses, hpairs⟩ := distinct_iff.1 hprepared
    rw [hunion]
    refine distinct_iff.2 ⟨?_, List.pairwise_append.2 ⟨hpairs.sublist hsub,
      List.pairwise_singleton _ _, ?_⟩⟩
    · intro c hc
      rcases List.mem_append.1 hc with hc | hc
      · exact hclasses c ((hothers c).1 hc).1
      · rw [List.mem_singleton.1 hc]
        refine Distinct.perm ?_ (Cluster.members_merge _ _).symm
        exact List.pairwise_append.2 ⟨hclasses l hlmem, hclasses r hrmem,
          apart_of_ne hprepared hlmem hrmem hlr⟩
    · intro c hc d hd a ha b hb
      rw [List.mem_singleton.1 hd] at hb
      obtain ⟨hcmem, hcl, hcr⟩ := (hothers c).1 hc
      rcases Class.mem_merged.1 hb with hb | hb
      · exact apart_of_ne hprepared hcmem hlmem hcl a ha b hb
      · exact apart_of_ne hprepared hcmem hrmem hcr a ha b hb

/-- The class of an element once two different classes are merged. -/
theorem classOf?_union (pick : α → α → α) (h : Distinct partition.elements)
    {left right : α} {l r : Class α}
    (hl : (partition.prepared left right).classOf? left = some l)
    (hr : (partition.prepared left right).classOf? right = some r) (hlr : l ≠ r) (a : α) :
    (l.Has a ∨ r.Has a) ∧
        (partition.union left right pick).classOf? a = some (Class.merged pick l r) ∨
      ¬(l.Has a ∨ r.Has a) ∧
        (partition.union left right pick).classOf? a =
          (partition.prepared left right).classOf? a := by
  have hdistinct := distinct_union h left right pick
  obtain ⟨heq, -⟩ | ⟨-, others, hunion, -, hothers⟩ := union_cases pick h hl hr
  · exact (hlr heq).elim
  rw [hunion] at hdistinct ⊢
  by_cases hin : l.Has a ∨ r.Has a
  · refine .inl ⟨hin, classOf?_eq_some hdistinct ?_ (Class.merged_has.2 hin)⟩
    exact List.mem_append_right _ List.mem_cons_self
  · refine .inr ⟨hin, ?_⟩
    cases hprepared : (partition.prepared left right).classOf? a with
    | none =>
      refine classOf?_eq_none_iff.2 fun c hc => ?_
      rcases List.mem_append.1 hc with hc | hc
      · exact classOf?_eq_none_iff.1 hprepared c ((hothers c).1 hc).1
      · rw [List.mem_singleton.1 hc, Class.merged_has]
        exact hin
    | some c =>
      obtain ⟨hc, hca⟩ := mem_of_classOf? hprepared
      refine classOf?_eq_some hdistinct (List.mem_append_left _ ((hothers c).2 ⟨hc, ?_, ?_⟩)) hca
      · rintro rfl
        exact hin (.inl hca)
      · rintro rfl
        exact hin (.inr hca)

/-! ## Removing -/

omit [EquivBEq α] in
theorem remove_eq (partition : Partition α) (element : α) (pick : α → α → α) :
    partition.remove element pick =
      ⟨partition.classes.filterMap fun c => c.without? element pick⟩ := rfl

theorem distinct_remove (h : Distinct partition.elements) (element : α)
    (pick : α → α → α) : Distinct (partition.remove element pick).elements := by
  obtain ⟨hclasses, hpairs⟩ := distinct_iff.1 h
  refine distinct_iff.2 ⟨?_, ?_⟩
  · intro d hd
    obtain ⟨c, hc, hcd⟩ := List.mem_filterMap.1 hd
    have hperm := Class.without?_perm (hclasses c hc) hcd
    exact Distinct.perm (List.Pairwise.filter _ (hclasses c hc)) hperm.symm
  · rw [remove_eq]
    have hmem : partition.classes.Pairwise fun c d =>
        c ∈ partition.classes ∧ d ∈ partition.classes ∧ Class.Apart c d :=
      List.Pairwise.and_mem.1 hpairs
    refine List.Pairwise.filterMap _ ?_ hmem
    rintro c c' ⟨hc, hc', hapart⟩ d hcd d' hcd' a ha b hb
    exact hapart a ((Class.mem_of_without? (hclasses c hc) hcd).1 ha).1 b
      ((Class.mem_of_without? (hclasses c' hc') hcd').1 hb).1

theorem classOf?_remove_self (h : Distinct partition.elements) {element a : α}
    (pick : α → α → α) (ha : (a == element) = true) :
    (partition.remove element pick).classOf? a = none := by
  refine classOf?_eq_none_iff.2 fun d hd hda => ?_
  obtain ⟨c, hc, hcd⟩ := List.mem_filterMap.1 hd
  obtain ⟨m, hm, ham⟩ := Class.has_iff.1 hda
  have hne := ((Class.mem_of_without? ((distinct_iff.1 h).1 c hc) hcd).1 hm).2
  rw [BEq.trans (BEq.symm ham) ha] at hne
  cases hne

/-- The class of an element that stays. -/
theorem classOf?_remove (h : Distinct partition.elements) {element a : α}
    (pick : α → α → α) (ha : (a == element) = false) :
    (partition.remove element pick).classOf? a =
      (partition.classOf? a).bind fun c => c.without? element pick := by
  have hclasses := (distinct_iff.1 h).1
  cases hold : partition.classOf? a with
  | none =>
    refine classOf?_eq_none_iff.2 fun d hd hda => ?_
    obtain ⟨c, hc, hcd⟩ := List.mem_filterMap.1 hd
    obtain ⟨m, hm, ham⟩ := Class.has_iff.1 hda
    have hmc := ((Class.mem_of_without? (hclasses c hc) hcd).1 hm).1
    exact classOf?_eq_none_iff.1 hold c hc (Class.has_iff.2 ⟨m, hmc, ham⟩)
  | some c =>
    obtain ⟨hc, hca⟩ := mem_of_classOf? hold
    obtain ⟨d, hcd⟩ := Class.exists_without? pick hca ha
    obtain ⟨m, hm, ham⟩ := Class.has_iff.1 hca
    have hme : (m == element) = false := by rw [← BEq.congr_left ham, ha]
    have hmd : m ∈ d.cluster.members := (Class.mem_of_without? (hclasses c hc) hcd).2 ⟨hm, hme⟩
    rw [Option.bind_some, hcd]
    refine classOf?_eq_some (distinct_remove h element pick) ?_ (Class.has_iff.2 ⟨m, hmd, ham⟩)
    exact List.mem_filterMap.2 ⟨c, hc, hcd⟩

/-! ## New representatives -/

omit [EquivBEq α] in
theorem classOf?_mapRepresentatives (f : α → α → α) (a : α) :
    (partition.mapRepresentatives f).classOf? a = (partition.classOf? a).map fun c =>
      { c with representative := f c.cluster.root c.representative } := by
  rw [classOf?, mapRepresentatives, List.find?_map]
  rfl

omit [BEq α] [EquivBEq α] in
theorem elements_mapRepresentatives (f : α → α → α) :
    (partition.mapRepresentatives f).elements = partition.elements := by
  rw [elements, mapRepresentatives, List.flatMap_map]
  rfl

end Partition

end PolyFront
