import PolyFront.Proofs.Solutions.Classes

/-!
# Sound partitions of terms

Some terms are variables and some are leaves, solved terms without parts.  In a sound partition
an unsolved representative stands for variables only and is one of them, and a class that holds
a leaf is represented by a leaf.  Adding, merging and removing keep partitions sound as long as
a class is merged into another only while its representative is a variable.

How the representatives change is stated per operation: merging replaces one variable that
stood for itself, removing replaces the removed variable by another member of its class.
-/

namespace PolyFront

/-- Which terms are unsolved variables and which are leaves. -/
structure TermShape (α : Type) [BEq α] where
  unknown : α → Bool
  leaf : α → Bool
  unknown_congr : ∀ {a b : α}, (a == b) = true → unknown a = unknown b
  leaf_congr : ∀ {a b : α}, (a == b) = true → leaf a = leaf b
  unknown_of_leaf : ∀ {a : α}, leaf a = true → unknown a = false

/-- A choice of representatives that prefers solved terms, and among two variables chooses one
of them. -/
structure TermShape.Picks {α : Type} [BEq α] (shape : TermShape α) (pick : α → α → α) :
    Prop where
  solved : ∀ {a b : α}, shape.unknown a = true → shape.unknown b = false → pick a b = b
  chosen : ∀ {a b : α}, shape.unknown a = true → shape.unknown b = true →
    pick a b = a ∨ pick a b = b

/-- Picking one by one from a list of variables ends with a variable of the list. -/
theorem TermShape.Picks.foldl_mem {α : Type} [BEq α] {shape : TermShape α}
    {pick : α → α → α} (hpick : shape.Picks pick) {first : α} {rest : List α}
    (h : ∀ a ∈ first :: rest, shape.unknown a = true) :
    rest.foldl pick first ∈ first :: rest := by
  induction rest generalizing first with
  | nil => exact List.mem_cons_self
  | cons second rest ih =>
    have hfirst := h first List.mem_cons_self
    have hsecond := h second (List.mem_cons_of_mem _ List.mem_cons_self)
    have hrest : ∀ a ∈ rest, shape.unknown a = true := fun a ha =>
      h a (List.mem_cons_of_mem _ (List.mem_cons_of_mem _ ha))
    have hpicked : pick first second = first ∨ pick first second = second :=
      hpick.chosen hfirst hsecond
    have hmem : rest.foldl pick (pick first second) ∈ pick first second :: rest := by
      refine ih fun a ha => ?_
      rcases List.mem_cons.1 ha with rfl | ha
      · rcases hpicked with heq | heq <;> rw [heq] <;> assumption
      · exact hrest a ha
    rw [List.foldl_cons]
    rcases List.mem_cons.1 hmem with heq | hmem
    · rw [heq]
      rcases hpicked with hfirst | hsecond
      · rw [hfirst]
        exact List.mem_cons_self
      · rw [hsecond]
        exact List.mem_cons_of_mem _ List.mem_cons_self
    · exact List.mem_cons_of_mem _ (List.mem_cons_of_mem _ hmem)

namespace Partition

variable {α : Type} [BEq α]

/-- An element that stands for itself. -/
def Final (partition : Partition α) (a : α) : Prop := (partition.find a == a) = true

/-- An unsolved representative stands for variables only and is one of them, a class that holds
a leaf is represented by a leaf, and all terms are of the expected kind. -/
structure Sound (shape : TermShape α) (good : α → Prop) (partition : Partition α) : Prop where
  distinct : Distinct partition.elements
  ofUnknown : ∀ c ∈ partition.classes, shape.unknown c.representative = true →
    (∀ a ∈ c.cluster.members, shape.unknown a = true) ∧ c.Has c.representative
  ofLeaf : ∀ c ∈ partition.classes, ∀ a ∈ c.cluster.members, shape.leaf a = true →
    shape.leaf c.representative = true
  good : ∀ c ∈ partition.classes, (∀ a ∈ c.cluster.members, good a) ∧ good c.representative

variable {shape : TermShape α} {good : α → Prop} {partition : Partition α}

namespace Sound

theorem empty : Sound shape good Partition.empty where
  distinct := List.Pairwise.nil
  ofUnknown _ hc := (List.not_mem_nil hc).elim
  ofLeaf _ hc := (List.not_mem_nil hc).elim
  good _ hc := (List.not_mem_nil hc).elim

theorem mono {good' : α → Prop} (h : Sound shape good partition)
    (himp : ∀ a, good a → good' a) : Sound shape good' partition where
  distinct := h.distinct
  ofUnknown := h.ofUnknown
  ofLeaf := h.ofLeaf
  good c hc := ⟨fun a ha => himp a ((h.good c hc).1 a ha), himp _ (h.good c hc).2⟩

theorem find_good (h : Sound shape good partition) {a : α} (ha : good a) :
    good (partition.find a) := by
  cases hclass : partition.classOf? a with
  | none => rwa [find_of_absent hclass]
  | some c =>
    rw [find_of_classOf? hclass]
    exact (h.good c (mem_of_classOf? hclass).1).2

theorem leaf_find (h : Sound shape good partition) {a : α} (ha : shape.leaf a = true) :
    shape.leaf (partition.find a) = true := by
  cases hclass : partition.classOf? a with
  | none => rwa [find_of_absent hclass]
  | some c =>
    obtain ⟨hc, hca⟩ := mem_of_classOf? hclass
    obtain ⟨m, hm, ham⟩ := Class.has_iff.1 hca
    rw [find_of_classOf? hclass]
    refine h.ofLeaf c hc m hm ?_
    rw [← shape.leaf_congr ham, ha]

variable [EquivBEq α]

/-- A variable that represents a class stands for itself. -/
theorem find_find (h : Sound shape good partition) {a : α}
    (ha : shape.unknown (partition.find a) = true) :
    partition.find (partition.find a) = partition.find a := by
  cases hclass : partition.classOf? a with
  | none => rw [find_of_absent hclass, find_of_absent hclass]
  | some c =>
    obtain ⟨hc, -⟩ := mem_of_classOf? hclass
    rw [find_of_classOf? hclass] at ha ⊢
    exact find_of_classOf? (classOf?_eq_some h.distinct hc (h.ofUnknown c hc ha).2)

theorem final_find (h : Sound shape good partition) {a : α}
    (ha : shape.unknown (partition.find a) = true) : partition.Final (partition.find a) := by
  rw [Final, h.find_find ha]
  exact BEq.refl _

/-! ## Adding -/

theorem add (h : Sound shape good partition) {element : α} (helement : good element) :
    Sound shape good (partition.add element) := by
  have hmember : ∀ a, a ∈ (Cluster.singleton element).members → a = element := by
    intro a ha
    simpa [Cluster.singleton, Cluster.members, Cluster.membersList] using ha
  refine ⟨distinct_add h.distinct element, ?_, ?_, ?_⟩
  · intro c hc hrep
    rcases mem_classes_add hc with hc | rfl
    · exact h.ofUnknown c hc hrep
    · refine ⟨fun a ha => ?_, Class.has_of_mem (Cluster.root_mem_members (.singleton element))⟩
      rw [hmember a ha]
      exact hrep
  · intro c hc a ha hleaf
    rcases mem_classes_add hc with hc | rfl
    · exact h.ofLeaf c hc a ha hleaf
    · rw [hmember a ha] at hleaf
      exact hleaf
  · intro c hc
    rcases mem_classes_add hc with hc | rfl
    · exact h.good c hc
    · refine ⟨fun a ha => ?_, helement⟩
      rw [hmember a ha]
      exact helement

theorem prepared (h : Sound shape good partition) {left right : α} (hleft : good left)
    (hright : good right) : Sound shape good (partition.prepared left right) :=
  (h.add hleft).add hright

end Sound

variable [EquivBEq α]

/-- Adding an element changes a representative only to the element itself. -/
theorem find_add (partition : Partition α) (element a : α) :
    (partition.add element).find a = partition.find a ∨
      partition.classOf? a = none ∧ (a == element) = true ∧
        (partition.add element).find a = element := by
  have hadd := classOf?_add partition element a
  cases hclass : partition.classOf? a with
  | some c =>
    rw [hclass, Option.some_or] at hadd
    exact .inl (by rw [find_of_classOf? hadd, find_of_classOf? hclass])
  | none =>
    rw [hclass, Option.none_or] at hadd
    split at hadd
    · rename_i ha
      exact .inr ⟨rfl, ha, find_of_classOf? hadd⟩
    · exact .inl (by rw [find_of_absent hadd, find_of_absent hclass])

theorem find_add_beq (partition : Partition α) (element a : α) :
    ((partition.add element).find a == partition.find a) = true := by
  rcases find_add partition element a with heq | ⟨habsent, ha, heq⟩
  · rw [heq]
    exact BEq.refl _
  · rw [heq, find_of_absent habsent]
    exact BEq.symm ha

theorem find_prepared_beq (partition : Partition α) (left right a : α) :
    ((partition.prepared left right).find a == partition.find a) = true :=
  BEq.trans (find_add_beq _ right a) (find_add_beq partition left a)

/-! ## Merging -/

theorem Sound.union (h : Sound shape good partition) {left right : α} {pick : α → α → α}
    (hpick : shape.Picks pick) (hleft : good left) (hright : good right)
    (hunknown : shape.unknown (partition.find left) = true) :
    Sound shape good (partition.union left right pick) := by
  have hprepared := h.prepared hleft hright
  obtain ⟨⟨l, hl⟩, r, hr⟩ := exists_classOf?_prepared partition left right
  obtain ⟨hlmem, -⟩ := mem_of_classOf? hl
  obtain ⟨hrmem, -⟩ := mem_of_classOf? hr
  have hlrep : shape.unknown l.representative = true := by
    rw [← find_of_classOf? hl, shape.unknown_congr (find_prepared_beq partition left right left)]
    exact hunknown
  obtain ⟨hlmembers, hlhas⟩ := hprepared.ofUnknown l hlmem hlrep
  obtain ⟨-, hunion⟩ | ⟨hlr, others, hunion, -, hothers⟩ :=
    union_cases pick h.distinct hl hr
  · rw [hunion]
    exact hprepared
  have hclasses : ∀ c ∈ (partition.union left right pick).classes,
      c ∈ (partition.prepared left right).classes ∨ c = Class.merged pick l r := by
    intro c hc
    rw [hunion] at hc
    rcases List.mem_append.1 hc with hc | hc
    · exact .inl ((hothers c).1 hc).1
    · exact .inr (List.mem_singleton.1 hc)
  refine ⟨distinct_union h.distinct left right pick, ?_, ?_, ?_⟩
  · intro c hc hrep
    rcases hclasses c hc with hc | rfl
    · exact hprepared.ofUnknown c hc hrep
    -- The merged class is represented by a variable only if both classes were.
    have hrrep : shape.unknown r.representative = true := by
      rw [← Bool.not_eq_false]
      intro hsolved
      rw [Class.merged, hpick.solved hlrep hsolved, hsolved] at hrep
      cases hrep
    obtain ⟨hrmembers, hrhas⟩ := hprepared.ofUnknown r hrmem hrrep
    refine ⟨fun a ha => ?_, ?_⟩
    · rcases Class.mem_merged.1 ha with ha | ha
      · exact hlmembers a ha
      · exact hrmembers a ha
    · rw [Class.merged_has]
      rcases hpick.chosen hlrep hrrep with heq | heq
      · exact .inl (by rw [Class.merged, heq]; exact hlhas)
      · exact .inr (by rw [Class.merged, heq]; exact hrhas)
  · intro c hc a ha hleaf
    rcases hclasses c hc with hc | rfl
    · exact hprepared.ofLeaf c hc a ha hleaf
    rcases Class.mem_merged.1 ha with ha | ha
    · have := hlmembers a ha
      rw [shape.unknown_of_leaf hleaf] at this
      cases this
    · have hrleaf := hprepared.ofLeaf r hrmem a ha hleaf
      rw [Class.merged, hpick.solved hlrep (shape.unknown_of_leaf hrleaf)]
      exact hrleaf
  · intro c hc
    rcases hclasses c hc with hc | rfl
    · exact hprepared.good c hc
    refine ⟨fun a ha => ?_, ?_⟩
    · rcases Class.mem_merged.1 ha with ha | ha
      · exact (hprepared.good l hlmem).1 a ha
      · exact (hprepared.good r hrmem).1 a ha
    · cases hrrep : shape.unknown r.representative with
      | false =>
        rw [Class.merged, hpick.solved hlrep hrrep]
        exact (hprepared.good r hrmem).2
      | true =>
        rcases hpick.chosen hlrep hrrep with heq | heq
        · rw [Class.merged, heq]
          exact (hprepared.good l hlmem).2
        · rw [Class.merged, heq]
          exact (hprepared.good r hrmem).2

/-- What a merge does to representatives: `loser`, a variable that stood for itself, and all it
stood for are now represented by `winner`. -/
structure Merges (shape : TermShape α) (before after : Partition α) (loser winner : α) :
    Prop where
  unknown : shape.unknown loser = true
  find : ∀ a, (after.find a == before.find a) = true ∨ after.find a = winner
  final : ∀ {a}, shape.unknown a = true → before.Final a → (a == loser) = false → after.Final a

/-- Merging a variable that stands for itself with another such variable, a leaf or a term that
is in no class yet. -/
theorem Sound.merges (h : Sound shape good partition) {left right : α} {pick : α → α → α}
    (hpick : shape.Picks pick) (hleft : good left) (hright : good right)
    (hunknown : shape.unknown left = true) (hfinal : partition.Final left)
    (hne : (left == right) = false)
    (hcase : partition.classOf? right = none ∨ shape.leaf right = true ∨
      shape.unknown right = true ∧ partition.Final right) :
    ∃ loser winner, Merges shape partition (partition.union left right pick) loser winner ∧
      (loser = left ∧ (partition.find right == winner) = true ∧
          (partition.classOf? right = none → winner = right) ∨
        loser = right ∧ shape.unknown right = true ∧ (left == winner) = true) := by
  have hprepared := h.prepared hleft hright
  obtain ⟨⟨l, hl⟩, r, hr⟩ := exists_classOf?_prepared partition left right
  have hlfind : (partition.prepared left right).find left = l.representative :=
    find_of_classOf? hl
  have hrfind : (partition.prepared left right).find right = r.representative :=
    find_of_classOf? hr
  have hlrep : (l.representative == left) = true := by
    rw [← hlfind]
    exact BEq.trans (find_prepared_beq partition left right left) hfinal
  have hrrep : (r.representative == partition.find right) = true := by
    rw [← hrfind]
    exact find_prepared_beq partition left right right
  have hlunknown : shape.unknown l.representative = true := by
    rw [shape.unknown_congr hlrep, hunknown]
  have hright' : shape.unknown (partition.find right) = true →
      shape.unknown right = true ∧ partition.Final right := by
    intro hfound
    rcases hcase with habsent | hleaf | hvariable
    · rw [find_of_absent habsent] at hfound
      refine ⟨hfound, ?_⟩
      rw [Final, find_of_absent habsent]
      exact BEq.refl _
    · rw [shape.unknown_of_leaf (h.leaf_find hleaf)] at hfound
      cases hfound
    · exact hvariable
  have hlr : l ≠ r := by
    rintro rfl
    have heq : (partition.find right == left) = true := BEq.trans (BEq.symm hrrep) hlrep
    have hself := (hright' (by rw [shape.unknown_congr heq, hunknown])).2
    rw [BEq.comm, BEq.trans (BEq.symm hself) heq] at hne
    cases hne
  have hnew : partition.classOf? right = none → r.representative = right := by
    intro habsent
    have hadd : (partition.add left).classOf? right = none := by
      rw [classOf?_add, habsent, BEq.comm, hne]
      rfl
    rw [← hrfind]
    rcases find_add (partition.add left) right right with heq | ⟨-, -, heq⟩
    · exact heq.trans (find_of_absent hadd)
    · exact heq
  have hclass := classOf?_union pick h.distinct hl hr hlr
  have hfind : ∀ a, ((partition.union left right pick).find a == partition.find a) = true ∨
      (partition.union left right pick).find a = pick l.representative r.representative := by
    intro a
    rcases hclass a with ⟨-, hsome⟩ | ⟨-, heq⟩
    · exact .inr (find_of_classOf? hsome)
    · refine .inl ?_
      rw [find, heq]
      exact find_prepared_beq partition left right a
  -- A variable that stood for itself still does, unless its class was merged away.
  have hstays : ∀ {a}, partition.Final a →
      (l.Has a → (pick l.representative r.representative == a) = true) →
      (r.Has a → (pick l.representative r.representative == a) = true) →
      (partition.union left right pick).Final a := by
    intro a ha hinl hinr
    rcases hclass a with ⟨hin, hsome⟩ | ⟨-, heq⟩
    · rw [Final, find_of_classOf? hsome]
      exact hin.elim hinl hinr
    · rw [Final, find, heq]
      exact BEq.trans (find_prepared_beq partition left right a) ha
  have hrepOf : ∀ {a c}, partition.Final a →
      c ∈ (partition.prepared left right).classes → c.Has a → (c.representative == a) = true := by
    intro a c ha hc hca
    rw [← find_of_classOf? (classOf?_eq_some hprepared.distinct hc hca)]
    exact BEq.trans (find_prepared_beq partition left right a) ha
  obtain ⟨hlmem, -⟩ := mem_of_classOf? hl
  obtain ⟨hrmem, -⟩ := mem_of_classOf? hr
  -- The left variable loses unless the right one is a variable that is not picked.
  have hleftLoses : pick l.representative r.representative = r.representative →
      Merges shape partition (partition.union left right pick) left r.representative := by
    intro hpicked
    refine ⟨hunknown, fun a => ?_, fun {a} _ ha hloser => hstays ha ?_ ?_⟩
    · rw [← hpicked]
      exact hfind a
    · intro hla
      rw [BEq.comm, BEq.trans (BEq.symm hlrep) (hrepOf ha hlmem hla)] at hloser
      cases hloser
    · intro hra
      rw [hpicked]
      exact hrepOf ha hrmem hra
  cases hrunknown : shape.unknown r.representative with
  | false =>
    exact ⟨left, r.representative, hleftLoses (hpick.solved hlunknown hrunknown),
      .inl ⟨rfl, BEq.symm hrrep, hnew⟩⟩
  | true =>
    rcases hpick.chosen hlunknown hrunknown with hpicked | hpicked
    · obtain ⟨hru, hrfinal⟩ := hright' (by rw [← shape.unknown_congr hrrep, hrunknown])
      refine ⟨right, l.representative, ⟨hru, fun a => ?_, fun {a} _ ha hloser => hstays ha ?_ ?_⟩,
        .inr ⟨rfl, hru, BEq.symm hlrep⟩⟩
      · rw [← hpicked]
        exact hfind a
      · intro hla
        rw [hpicked]
        exact hrepOf ha hlmem hla
      · intro hra
        have hself : (r.representative == right) = true := BEq.trans hrrep hrfinal
        rw [BEq.comm, BEq.trans (BEq.symm hself) (hrepOf ha hrmem hra)] at hloser
        cases hloser
    · exact ⟨left, r.representative, hleftLoses hpicked, .inl ⟨rfl, BEq.symm hrrep, hnew⟩⟩

/-! ## Removing -/

/-- A representative is picked anew only in a class of variables. -/
theorem Sound.without?_cases (h : Sound shape good partition) {element : α}
    {pick : α → α → α} (hpick : shape.Picks pick) (helement : shape.unknown element = true)
    {c d : Class α} (hc : c ∈ partition.classes) (hcd : c.without? element pick = some d) :
    d.representative = c.representative ∧
        (c.Has element → (c.representative == element) = false) ∨
      (c.representative == element) = true ∧
        (∀ a ∈ c.cluster.members, shape.unknown a = true) ∧
        d.representative ∈ d.cluster.members := by
  rcases Class.without?_representative hcd with hkept | ⟨hrep, first, rest, hmembers, hfold⟩
  · exact .inl hkept
  · have hunknown : shape.unknown c.representative = true := by
      rw [shape.unknown_congr hrep, helement]
    have hall := (h.ofUnknown c hc hunknown).1
    refine .inr ⟨hrep, hall, ?_⟩
    rw [hfold, hmembers]
    refine hpick.foldl_mem fun a ha => hall a ?_
    rw [← hmembers] at ha
    exact ((Class.mem_of_without? ((distinct_iff.1 h.distinct).1 c hc) hcd).1 ha).1

theorem Sound.remove (h : Sound shape good partition) {element : α} {pick : α → α → α}
    (hpick : shape.Picks pick) (helement : shape.unknown element = true) :
    Sound shape good (partition.remove element pick) := by
  have hclasses := (distinct_iff.1 h.distinct).1
  refine ⟨distinct_remove h.distinct element pick, ?_, ?_, ?_⟩
  · intro d hd hrep
    obtain ⟨c, hc, hcd⟩ := List.mem_filterMap.1 hd
    have hmem := fun {a} => Class.mem_of_without? (a := a) (hclasses c hc) hcd
    rcases h.without?_cases hpick helement hc hcd with ⟨heq, hkept⟩ | ⟨-, hall, hin⟩
    · rw [heq] at hrep ⊢
      obtain ⟨hall, hhas⟩ := h.ofUnknown c hc hrep
      refine ⟨fun a ha => hall a (hmem.1 ha).1, ?_⟩
      obtain ⟨m, hm, hrm⟩ := Class.has_iff.1 hhas
      refine Class.has_iff.2 ⟨m, hmem.2 ⟨hm, ?_⟩, hrm⟩
      rw [← Bool.not_eq_true]
      intro hme
      have hhase : c.Has element := Class.has_iff.2 ⟨m, hm, BEq.symm hme⟩
      rw [BEq.trans hrm hme] at hkept
      cases hkept hhase
    · exact ⟨fun a ha => hall a (hmem.1 ha).1, Class.has_of_mem hin⟩
  · intro d hd a ha hleaf
    obtain ⟨c, hc, hcd⟩ := List.mem_filterMap.1 hd
    have hac := ((Class.mem_of_without? (hclasses c hc) hcd).1 ha).1
    rcases h.without?_cases hpick helement hc hcd with ⟨heq, -⟩ | ⟨-, hall, -⟩
    · rw [heq]
      exact h.ofLeaf c hc a hac hleaf
    · have hunknown := hall a hac
      rw [shape.unknown_of_leaf hleaf] at hunknown
      cases hunknown
  · intro d hd
    obtain ⟨c, hc, hcd⟩ := List.mem_filterMap.1 hd
    have hmem := fun {a} => Class.mem_of_without? (a := a) (hclasses c hc) hcd
    obtain ⟨hmembers, hrepresentative⟩ := h.good c hc
    refine ⟨fun a ha => hmembers a (hmem.1 ha).1, ?_⟩
    rcases h.without?_cases hpick helement hc hcd with ⟨heq, -⟩ | ⟨-, -, hin⟩
    · rw [heq]
      exact hrepresentative
    · exact hmembers _ (hmem.1 hin).1

/-- The representative of an element once another is removed: it stays, unless it is the removed
variable; then another variable of the class, which stood for nothing, stands for the class. -/
theorem Sound.find_remove (h : Sound shape good partition) {element : α} {pick : α → α → α}
    (hpick : shape.Picks pick) (helement : shape.unknown element = true) (a : α) :
    (partition.remove element pick).find a = partition.find a ∨
      (a == element) = true ∧ (partition.remove element pick).find a = a ∨
      (partition.find a == element) = true ∧
        shape.unknown ((partition.remove element pick).find a) = true ∧
        ((partition.remove element pick).find a == element) = false ∧
        partition.find ((partition.remove element pick).find a) = partition.find a := by
  have hclasses := (distinct_iff.1 h.distinct).1
  cases ha : a == element with
  | true =>
    exact .inr (.inl ⟨rfl, find_of_absent (classOf?_remove_self h.distinct pick ha)⟩)
  | false =>
    have hremove := classOf?_remove h.distinct pick ha
    cases hold : partition.classOf? a with
    | none =>
      rw [hold, Option.bind_none] at hremove
      exact .inl (by rw [find_of_absent hremove, find_of_absent hold])
    | some c =>
      obtain ⟨hc, hca⟩ := mem_of_classOf? hold
      obtain ⟨d, hcd⟩ := Class.exists_without? pick hca ha
      rw [hold, Option.bind_some, hcd] at hremove
      rw [find_of_classOf? hremove, find_of_classOf? hold]
      rcases h.without?_cases hpick helement hc hcd with ⟨heq, -⟩ | ⟨hrep, hall, hin⟩
      · exact .inl heq
      · have hmem := fun {a} => Class.mem_of_without? (a := a) (hclasses c hc) hcd
        obtain ⟨hinc, hne⟩ := hmem.1 hin
        exact .inr (.inr ⟨hrep, hall _ hinc, hne,
          find_of_classOf? (classOf?_eq_some h.distinct hc (Class.has_of_mem hinc))⟩)

/-! ## New representatives -/

theorem Sound.mapRepresentatives (h : Sound shape good partition) {f : α → α}
    (hunknown : ∀ {a}, shape.unknown a = true → partition.Final a → (f a == a) = true)
    (hsolved : ∀ {a}, shape.unknown a = false → shape.unknown (f a) = false)
    (hleaf : ∀ {a}, shape.leaf a = true → shape.leaf (f a) = true)
    (hgood : ∀ {a}, good a → good (f a)) :
    Sound shape good (partition.mapRepresentatives fun _ a => f a) := by
  refine ⟨?_, ?_, ?_, ?_⟩
  · rw [elements_mapRepresentatives]
    exact h.distinct
  · intro d hd hrep
    obtain ⟨c, hc, rfl⟩ := List.mem_map.1 hd
    have hunknownRep : shape.unknown c.representative = true := by
      rw [← Bool.not_eq_false]
      intro heq
      rw [hsolved heq] at hrep
      cases hrep
    obtain ⟨hall, hhas⟩ := h.ofUnknown c hc hunknownRep
    refine ⟨hall, ?_⟩
    have hfinal : partition.Final c.representative := by
      rw [Final, find_of_classOf? (classOf?_eq_some h.distinct hc hhas)]
      exact BEq.refl _
    exact (Class.has_congr (c := c) (hunknown hunknownRep hfinal)).2 hhas
  · intro d hd a ha hleafa
    obtain ⟨c, hc, rfl⟩ := List.mem_map.1 hd
    exact hleaf (h.ofLeaf c hc a ha hleafa)
  · intro d hd
    obtain ⟨c, hc, rfl⟩ := List.mem_map.1 hd
    exact ⟨(h.good c hc).1, hgood (h.good c hc).2⟩

omit [EquivBEq α] in
theorem find_mapRepresentatives (f : α → α) (a : α) :
    (partition.mapRepresentatives fun _ a => f a).find a =
      match partition.classOf? a with
      | some c => f c.representative
      | none => a := by
  rw [find, classOf?_mapRepresentatives]
  cases partition.classOf? a <;> rfl

end Partition

end PolyFront
