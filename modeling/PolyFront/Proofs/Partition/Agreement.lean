import Mathlib.Data.List.Perm.Basic
import PolyFront.Proofs.Partition.Refinement
import PolyFront.Proofs.Partition.Removal

/-!
# Union-find and partitions answer alike

A union-find agrees with a partition when it has the same elements, its parents form a forest, and
the members of every class have one root, whose set has the representative of the class.  Every
operation keeps them in agreement, whatever representatives are picked, as long as a removal visits
the members that are left in one order on both sides; the shapes of the trees, and with them the
order in which children are visited, need not have anything in common.

So what is known of partitions carries over: any operations on three empty tables have a result,
whose sets are the blocks of the reference, each represented by one of its members.
-/

namespace PolyFront

namespace Partition

variable {α : Type} [BEq α] {partition : Partition α}

theorem contains_elements (partition : Partition α) (element : α) :
    partition.elements.contains element = partition.contains element := by
  rw [Bool.eq_iff_iff, contains_iff, List.contains_iff_exists_mem_beq]
  simp only [mem_elements, Class.has_iff]
  constructor
  · rintro ⟨a, ⟨c, hc, ha⟩, hbeq⟩
    exact ⟨c, hc, a, ha, hbeq⟩
  · rintro ⟨c, hc, a, ha, hbeq⟩
    exact ⟨a, ⟨c, hc, ha⟩, hbeq⟩

end Partition

section Agreement

variable {α : Type} [BEq α] [EquivBEq α]

theorem Distinct.nodup {items : List α} (h : Distinct items) : items.Nodup :=
  h.imp fun hne heq => by
    rw [heq, BEq.refl] at hne
    cases hne

theorem perm_of_distinct {left right : List α} (hleft : Distinct left) (hright : Distinct right)
    (hmem : ∀ a, a ∈ left ↔ a ∈ right) : left.Perm right :=
  (List.perm_ext_iff_of_nodup hleft.nodup hright.nodup).2 hmem

/-- The members of a class are found among all elements. -/
theorem Partition.members_perm_filter {partition : Partition α} (h : Distinct partition.elements)
    {c : Class α} (hc : c ∈ partition.classes) {items : List α} (hitems : Distinct items)
    (hmem : ∀ a, a ∈ items ↔ a ∈ partition.elements) :
    c.cluster.members.Perm (items.filter c.cluster.members.contains) := by
  refine perm_of_distinct ((distinct_iff.1 h).1 c hc) (hitems.filter _) fun a => ?_
  rw [List.mem_filter, hmem, mem_elements]
  constructor
  · exact fun ha => ⟨⟨c, hc, ha⟩, Class.has_of_mem ha⟩
  · rintro ⟨⟨d, hd, ha⟩, hhas⟩
    rwa [eq_of_has h hc hd hhas (Class.has_of_mem ha)]

namespace UnionFind

/-- The members of a class have one root, whose set has the representative of the class. -/
structure RootOf (sets : UnionFind α) (top : Item α → Item α) (c : Class α) (root : α) :
    Prop where
  has : c.Has root
  representative : sets.representative.get? root = some c.representative
  top_eq : ∀ x, c.Has x → top (item x) = item root

/-- The sets are the classes. -/
structure Agrees (sets : UnionFind α) (partition : Partition α) : Prop where
  elements : sets.elements.Perm partition.elements
  distinct : Distinct partition.elements
  forest : ∃ top height, Forest sets top height ∧
    ∀ c ∈ partition.classes, ∃ root, RootOf sets top c root

namespace Agrees

variable {sets : UnionFind α} {partition : Partition α}

theorem empty : Agrees (UnionFind.empty : UnionFind α) Partition.empty where
  elements := .refl _
  distinct := List.Pairwise.nil
  forest := by
    refine ⟨id, fun _ => 0, ⟨fun x hx => ?_, fun _ => rfl, fun _ _ => rfl, fun x hx => ?_,
      fun _ => rfl, fun x => ?_⟩, fun c hc => (List.not_mem_nil hc).elim⟩
    · cases hx
    · exact (hx rfl).elim
    · exact iff_of_false (fun hx => by cases hx) (fun hx => by cases hx.1)

theorem contains_eq (h : Agrees sets partition) (x : α) :
    sets.contains x = partition.contains x := by
  rw [UnionFind.contains_eq, ← partition.contains_elements, Bool.eq_iff_iff,
    List.contains_iff_exists_mem_beq, List.contains_iff_exists_mem_beq]
  simp only [h.elements.mem_iff]

theorem contains_iff (h : Agrees sets partition) {x : α} :
    sets.contains x = true ↔ ∃ c ∈ partition.classes, c.Has x := by
  rw [h.contains_eq, Partition.contains_iff]

/-! ## Looking up -/

/-- The sets may be shaped in any other way that keeps roots and representatives. -/
theorem of_forest (h : Agrees sets partition) {top : Item α → Item α} {height : Item α → Nat}
    {after : UnionFind α} (hforest : Forest after top height)
    (hrooted : ∀ c ∈ partition.classes, ∃ root, RootOf sets top c root)
    (helements : after.elements = sets.elements)
    (hrepresentative : after.representative = sets.representative) : Agrees after partition := by
  refine ⟨helements ▸ h.elements, h.distinct, top, height, hforest, fun c hc => ?_⟩
  obtain ⟨root, hroot⟩ := hrooted c hc
  exact ⟨root, hroot.has, hrepresentative ▸ hroot.representative, hroot.top_eq⟩

/-- Both find the same representative, and agree afterwards. -/
theorem find (h : Agrees sets partition) (x : α) :
    ∃ after, sets.find? x = some (partition.find x, after) ∧ Agrees after partition := by
  obtain ⟨top, height, hforest, hrooted⟩ := h.forest
  obtain ⟨r, after, hfind, htop, hself, hagain, helements, hrepresentative⟩ := hforest.find?_eq x
  refine ⟨after, ?_, h.of_forest hagain hrooted helements hrepresentative⟩
  suffices hrep : sets.representativeOf r = partition.find x by rw [hfind, hrep]
  cases hclass : partition.classOf? x with
  | none =>
    have hunknown : sets.contains x = false := by
      rw [h.contains_eq, Partition.contains, hclass]
      rfl
    rw [Partition.find_of_absent hclass, hself hunknown, representativeOf,
      hforest.representative_none hunknown]
    rfl
  | some c =>
    obtain ⟨hc, hx⟩ := Partition.mem_of_classOf? hclass
    obtain ⟨root, hroot⟩ := hrooted c hc
    have hitem : item r = item root := htop.trans (hroot.top_eq x hx)
    rw [Partition.find_of_classOf? hclass, representativeOf, Table.get?_congr hitem,
      hroot.representative]
    rfl

/-- Classes with the same members and representatives are as good. -/
theorem map_classes (h : Agrees sets partition) (f : Class α → Class α)
    (hmembers : ∀ c, (f c).cluster.members.Perm c.cluster.members)
    (hrepresentative : ∀ c, (f c).representative = c.representative) :
    Agrees sets ⟨partition.classes.map f⟩ := by
  have hhas : ∀ c x, (f c).Has x ↔ c.Has x := fun c x => by
    simp only [Class.has_iff, (hmembers c).mem_iff]
  have helements : (⟨partition.classes.map f⟩ : Partition α).elements.Perm
      partition.elements := by
    rw [Partition.elements, Partition.elements, List.flatMap_map]
    exact List.Perm.flatMap_left _ fun c _ => hmembers c
  obtain ⟨top, height, hforest, hrooted⟩ := h.forest
  refine ⟨h.elements.trans helements.symm, h.distinct.perm helements.symm, top, height, hforest,
    fun d hd => ?_⟩
  obtain ⟨c, hc, rfl⟩ := List.mem_map.1 hd
  obtain ⟨root, hroot⟩ := hrooted c hc
  exact ⟨root, (hhas c root).2 hroot.has, (hrepresentative c).symm ▸ hroot.representative,
    fun x hx => hroot.top_eq x ((hhas c x).1 hx)⟩

theorem compress (h : Agrees sets partition) (x : α) : Agrees sets (partition.compress x) :=
  h.map_classes _ (fun c => Cluster.compress_perm x c.cluster) (fun _ => rfl)

/-! ## Adding -/

theorem add (h : Agrees sets partition) (x : α) : Agrees (sets.add x) (partition.add x) := by
  have hdistinct := Partition.distinct_add h.distinct x
  cases hx : sets.contains x with
  | true =>
    have hpartition : partition.add x = partition := by
      rw [Partition.add, if_pos (h.contains_eq x ▸ hx)]
    rwa [hpartition, UnionFind.add, if_pos hx]
  | false =>
    have hpartition : partition.add x = ⟨partition.classes ++ [⟨.singleton x, x⟩]⟩ := by
      rw [Partition.add, if_neg (by simp [← h.contains_eq, hx])]
    obtain ⟨top, height, hforest, hrooted⟩ := h.forest
    have hsets : sets.add x = ⟨sets.parent.insert x x, sets.rank.insert x 1,
        sets.representative.insert x x⟩ := by rw [UnionFind.add, if_neg (by simp [hx])]
    have hkeys : (sets.add x).elements = sets.elements ++ [x] := by
      rw [UnionFind.contains_eq, UnionFind.elements] at hx
      rw [hsets, UnionFind.elements, Table.keys_insert, if_neg (by simp [hx]), UnionFind.elements]
    refine ⟨?_, hdistinct, top, height, hforest.add x, fun c hc => ?_⟩
    · rw [hkeys, hpartition, Partition.elements, List.flatMap_append]
      exact h.elements.append (.refl _)
    · rw [hpartition] at hc
      rcases List.mem_append.1 hc with hc | hc
      · obtain ⟨root, hroot⟩ := hrooted c hc
        have hne : (root == x) = false := by
          rw [← Bool.not_eq_true]
          intro hbeq
          rw [← contains_congr (item_eq_iff.2 hbeq)] at hx
          rw [h.contains_iff.2 ⟨c, hc, hroot.has⟩] at hx
          cases hx
        refine ⟨root, hroot.has, ?_, hroot.top_eq⟩
        rw [hsets]
        exact (Table.get?_insert _ _ _ _).trans
            ((if_neg (by simp [hne])).trans hroot.representative)
      · obtain rfl := List.mem_singleton.1 hc
        have htop : top (item x) = item x := hforest.top_root x (by rw [parentOf_of_unknown hx])
        refine ⟨x, Class.has_of_mem (Cluster.root_mem_members _), ?_, fun y hy => ?_⟩
        · rw [hsets]
          exact (Table.get?_insert _ _ _ _).trans (if_pos (BEq.refl x))
        · have hyx : item y = item x := by
            simpa [Class.Has, Cluster.singleton, Cluster.members, Cluster.membersList,
              ← item_eq_iff] using hy
          rw [hyx, htop]

/-! ## Merging -/

/-- Elements with one root are members of one class. -/
theorem has_of_top_eq (h : Agrees sets partition) {top : Item α → Item α}
    (hrooted : ∀ c ∈ partition.classes, ∃ root, RootOf sets top c root) {c : Class α}
    (hc : c ∈ partition.classes) {x y : α} (hx : c.Has x) (hy : sets.contains y = true)
    (htop : top (item y) = top (item x)) : c.Has y := by
  obtain ⟨d, hd, hdy⟩ := h.contains_iff.1 hy
  obtain ⟨root, hroot⟩ := hrooted c hc
  obtain ⟨other, hother⟩ := hrooted d hd
  have hitem : item other = item root :=
    (hother.top_eq y hdy).symm.trans (htop.trans (hroot.top_eq x hx))
  have hhas := (Class.has_congr (item_eq_iff.1 hitem)).1 hother.has
  rwa [Partition.eq_of_has h.distinct hc hd hroot.has hhas]

/-- One root is hung below another: the members of the two classes have one root from then on, and
all other classes keep theirs. -/
theorem link (h : Agrees sets partition) {top : Item α → Item α} {height : Item α → Nat}
    (hforest : Forest sets top height)
    (hrooted : ∀ c ∈ partition.classes, ∃ root, RootOf sets top c root) {k m n : Class α}
    (hk : k ∈ partition.classes) (hm : m ∈ partition.classes) (hkm : k ≠ m) {c p : α}
    (hc : RootOf sets top k c) (hp : RootOf sets top m p)
    (hn : ∀ x, n.Has x ↔ k.Has x ∨ m.Has x) :
    ∃ top' height', Forest (sets.link c p n.representative) top' height' ∧
      RootOf (sets.link c p n.representative) top' n p ∧ ∀ d ∈ partition.classes, d ≠ k → d ≠ m →
        ∃ root, RootOf (sets.link c p n.representative) top' d root := by
  have hknown : ∀ {d : Class α} {root : α}, d ∈ partition.classes → d.Has root →
      sets.contains root = true := fun hd hhas => h.contains_iff.2 ⟨_, hd, hhas⟩
  have hself : ∀ {d : Class α} {root : α}, RootOf sets top d root →
      item (sets.parentOf root) = item root := fun hroot =>
    (hforest.top_eq_iff _).1 (hroot.top_eq _ hroot.has)
  -- Roots of different classes are different.
  have hapart : ∀ {d e : Class α} {a b : α}, d ∈ partition.classes → e ∈ partition.classes →
      d ≠ e → RootOf sets top d a → RootOf sets top e b → item a ≠ item b :=
    fun hd he hde ha hb hitem => hde (Partition.eq_of_has h.distinct hd he ha.has
      ((Class.has_congr (item_eq_iff.1 hitem)).2 hb.has))
  have hcp := hapart hk hm hkm hc hp
  obtain ⟨top', height', hlinked, htops⟩ := hforest.link (hknown hk hc.has) (hknown hm hp.has)
    (hself hc) (hself hp) hcp n.representative
  have hget : ∀ y, (sets.link c p n.representative).representative.get? y =
      if y == p then some n.representative
      else if y == c then none else sets.representative.get? y := fun y => by
    rw [UnionFind.link, Table.get?_insert, Table.get?_erase]
  refine ⟨top', height', hlinked, ⟨(hn p).2 (.inr hp.has), ?_, fun x hx => ?_⟩,
    fun d hd hdk hdm => ?_⟩
  · rw [hget, if_pos (BEq.refl p)]
  · rcases (hn x).1 hx with hx | hx
    · exact (htops x).1 (hc.top_eq x hx)
    · rw [(htops x).2 (by rw [hp.top_eq x hx]; exact hcp.symm), hp.top_eq x hx]
  · obtain ⟨root, hroot⟩ := hrooted d hd
    have hrc := hapart hd hk hdk hroot hc
    have hrp := hapart hd hm hdm hroot hp
    refine ⟨root, hroot.has, ?_, fun x hx => ?_⟩
    · rw [hget, if_neg (by simp [item_ne_iff.1 hrp]), if_neg (by simp [item_ne_iff.1 hrc]),
        hroot.representative]
    · rw [(htops x).2 (by rwa [hroot.top_eq x hx]), hroot.top_eq x hx]

/-- Merging has the same outcome on both sides. -/
theorem union (h : Agrees sets partition) (left right : α) (pick : α → α → α) :
    ∃ after, sets.union? left right pick = some after ∧
      Agrees after (partition.union left right pick) := by
  obtain ⟨⟨l, hl⟩, r, hr⟩ := Partition.exists_classOf?_prepared partition left right
  have hprepared : Agrees ((sets.add left).add right) (partition.prepared left right) :=
    (h.add left).add right
  have hdistinct := Partition.distinct_union h.distinct left right pick
  obtain ⟨hlmem, hleft⟩ := Partition.mem_of_classOf? hl
  obtain ⟨hrmem, hright⟩ := Partition.mem_of_classOf? hr
  obtain ⟨top, height, hforest, hrooted⟩ := hprepared.forest
  obtain ⟨a, ha, hatop, -⟩ := hforest.root?_eq left
  obtain ⟨b, hb, hbtop, -⟩ := hforest.root?_eq right
  -- What the walks find are roots of the two classes.
  have hrootOf : ∀ {c : Class α} {x y : α}, c ∈ (partition.prepared left right).classes →
      c.Has x → item y = top (item x) → RootOf ((sets.add left).add right) top c y := by
    intro c x y hc hx hy
    obtain ⟨root, hroot⟩ := hrooted c hc
    have hitem : item y = item root := hy.trans (hroot.top_eq x hx)
    exact ⟨(Class.has_congr (item_eq_iff.1 hitem)).2 hroot.has,
      (Table.get?_congr hitem).trans hroot.representative,
      fun z hz => (hroot.top_eq z hz).trans hitem.symm⟩
  have haroot := hrootOf hlmem hleft hatop
  have hbroot := hrootOf hrmem hright hbtop
  have hsame : (a == b) = true ↔ l = r := by
    refine ⟨fun hab => ?_, ?_⟩
    · exact Partition.eq_of_has hprepared.distinct hlmem hrmem haroot.has
        ((Class.has_congr hab).2 hbroot.has)
    · rintro rfl
      rw [← item_eq_iff, hatop, hbtop, haroot.top_eq _ hleft, haroot.top_eq _ hright]
  obtain ⟨heq, hunion⟩ | ⟨hne, others, hunion, -, hothers⟩ :=
    Partition.union_cases pick h.distinct hl hr
  · rw [hunion]
    exact ⟨_, by simp [union?, ha, hb, hsame.2 heq], hprepared⟩
  · rw [hunion] at hdistinct ⊢
    have hab : (a == b) = false := by rw [← Bool.not_eq_true]; exact fun hab => hne (hsame.1 hab)
    have hmerged : ∀ x, (Class.merged pick l r).Has x ↔ l.Has x ∨ r.Has x := fun x =>
      Class.merged_has
    have hperm : (partition.prepared left right).elements.Perm
        (⟨others ++ [Class.merged pick l r]⟩ : Partition α).elements := by
      refine perm_of_distinct hprepared.distinct hdistinct fun x => ?_
      simp only [Partition.mem_elements, List.mem_append, List.mem_singleton, or_and_right,
        exists_or, exists_eq_left, hothers, Class.mem_merged]
      constructor
      · rintro ⟨c, hc, hx⟩
        by_cases hcl : c = l
        · exact .inr (.inl (hcl ▸ hx))
        · by_cases hcr : c = r
          · exact .inr (.inr (hcr ▸ hx))
          · exact .inl ⟨c, ⟨hc, hcl, hcr⟩, hx⟩
      · rintro (⟨c, ⟨hc, -⟩, hx⟩ | hx | hx)
        exacts [⟨c, hc, hx⟩, ⟨l, hlmem, hx⟩, ⟨r, hrmem, hx⟩]
    -- Either root may end up below the other.
    have hagrees : ∀ {k m : Class α} {c p : α}, k ∈ (partition.prepared left right).classes →
        m ∈ (partition.prepared left right).classes → k ≠ m →
        RootOf ((sets.add left).add right) top k c → RootOf ((sets.add left).add right) top m p →
        (∀ x, (Class.merged pick l r).Has x ↔ k.Has x ∨ m.Has x) →
        (∀ d ∈ others, d ∈ (partition.prepared left right).classes ∧ d ≠ k ∧ d ≠ m) →
        Agrees (((sets.add left).add right).link c p (Class.merged pick l r).representative)
          ⟨others ++ [Class.merged pick l r]⟩ := by
      intro k m c p hk hm hkm hc hp hn hrest
      obtain ⟨top', height', hlinked, hroot, hkept⟩ :=
        hprepared.link hforest hrooted hk hm hkm hc hp hn
      refine ⟨?_, hdistinct, top', height', hlinked, fun d hd => ?_⟩
      · have hknown := hprepared.contains_iff.2 ⟨k, hk, hc.has⟩
        exact (List.Perm.of_eq (elements_hang hknown p)).trans (hprepared.elements.trans hperm)
      · rcases List.mem_append.1 hd with hd | hd
        · obtain ⟨hmem, hdk, hdm⟩ := hrest d hd
          exact hkept d hmem hdk hdm
        · rw [List.mem_singleton.1 hd]
          exact ⟨p, hroot⟩
    have hchosen : pick (((sets.add left).add right).representativeOf a)
        (((sets.add left).add right).representativeOf b) =
          (Class.merged pick l r).representative := by
      rw [representativeOf_of_get? haroot.representative,
        representativeOf_of_get? hbroot.representative]
      rfl
    by_cases hrank : ((sets.add left).add right).rankOf a < ((sets.add left).add right).rankOf b
    · refine ⟨_, by simp [union?, ha, hb, hab, hrank, hchosen]; rfl, ?_⟩
      exact hagrees hlmem hrmem hne haroot hbroot hmerged fun d hd => (hothers d).1 hd
    · refine ⟨_, by simp [union?, ha, hb, hab, hrank, hchosen]; rfl, ?_⟩
      refine hagrees hrmem hlmem (Ne.symm hne) hbroot haroot (fun x => ?_) fun d hd => ?_
      · rw [hmerged, or_comm]
      · exact ⟨((hothers d).1 hd).1, ((hothers d).1 hd).2.2, ((hothers d).1 hd).2.1⟩

/-! ## Removing -/

/-- A class without the removed element keeps its root. -/
theorem rootOf_other (h : Agrees sets partition) {top top' : Item α → Item α}
    (hrooted : ∀ c ∈ partition.classes, ∃ root, RootOf sets top c root) {after : UnionFind α}
    {order : Iteration α} {pick : α → α → α} {x : α} (hx : sets.contains x = true)
    (hleaves : Leaves order pick sets after x top top') {c : Class α}
    (hc : c ∈ partition.classes) (hnot : ¬c.Has x) : ∃ root, RootOf after top' c root := by
  obtain ⟨root, hroot⟩ := hrooted c hc
  have hne : ∀ y, c.Has y → item y ≠ item x := fun y hy hitem =>
    hnot ((Class.has_congr (item_eq_iff.1 hitem)).1 hy)
  have hapart : ∀ y, c.Has y → top (item y) ≠ top (item x) := fun y hy htop =>
    hnot (h.has_of_top_eq hrooted hc hy hx htop.symm)
  cases hleaves with
  | nothing _ kept others =>
    exact ⟨root, hroot.has, (others root (hne root hroot.has)).trans hroot.representative,
      fun y hy => (kept y (hne y hy)).trans (hroot.top_eq y hy)⟩
  | successor t _ _ _ within _ kept others _ _ =>
    have hrt : item root ≠ item t := fun hitem => hapart root hroot.has (by rw [hitem, within])
    exact ⟨root, hroot.has, (others root (hne root hroot.has) hrt).trans hroot.representative,
      fun y hy => (kept y (hne y hy) (hapart y hy)).trans (hroot.top_eq y hy)⟩

/-- What is left of the class of the removed element has its successor for a root. -/
theorem rootOf_rest (h : Agrees sets partition) {top top' : Item α → Item α}
    {height : Item α → Nat} (hforest : Forest sets top height)
    (hrooted : ∀ c ∈ partition.classes, ∃ root, RootOf sets top c root) {after : UnionFind α}
    {order : Iteration α} {pick : α → α → α} {x : α}
    (helements : after.elements = sets.elements.filter fun y => !(x == y))
    (hleaves : Leaves order pick sets after x top top') {c d : Class α}
    (hc : c ∈ partition.classes) (hhas : c.Has x)
    (hdhas : ∀ y, d.Has y ↔ c.Has y ∧ item y ≠ item x)
    (hrepresentative : (c.representative == x) = false ∧ d.representative = c.representative ∨
      (c.representative == x) = true ∧ ∃ first rest,
        (order.keys (sets.elements.filter fun y => !(x == y))).filter
          d.cluster.members.contains = first :: rest ∧ d.representative = rest.foldl pick first) :
    ∃ root, RootOf after top' d root := by
  obtain ⟨root, hroot⟩ := hrooted c hc
  have htops : ∀ y, c.Has y → top (item y) = top (item x) := fun y hy =>
    (hroot.top_eq y hy).trans (hroot.top_eq x hhas).symm
  cases hleaves with
  | nothing alone _ _ =>
    have hfirst := (hdhas _).1 (Class.has_of_mem (Cluster.root_mem_members d.cluster))
    exact (hfirst.2 (alone _ (h.contains_iff.2 ⟨c, hc, hfirst.1⟩) (htops _ hfirst.1))).elim
  | successor t old known ne within joined kept others before representative =>
    have hct : c.Has t := h.has_of_top_eq hrooted hc hhas known within
    have hold : old = c.representative := by
      have hsome := before root (hroot.top_eq x hhas).symm
      rw [hroot.representative] at hsome
      exact (Option.some.inj hsome).symm
    subst hold
    refine ⟨t, (hdhas t).2 ⟨hct, ne⟩, ?_, fun y hy =>
      joined y ((hdhas y).1 hy).2 (htops y ((hdhas y).1 hy).1)⟩
    obtain ⟨hstays, hget⟩ | ⟨hgone, hpicked⟩ := representative
    · obtain ⟨-, hsame⟩ | ⟨hgone, -⟩ := hrepresentative
      · rw [hget, hsame]
      · rw [hstays] at hgone
        cases hgone
    · obtain ⟨hstays, -⟩ | ⟨-, first, rest, hmembers, hsame⟩ := hrepresentative
      · rw [hstays] at hgone
        cases hgone
      · classical
        obtain ⟨first', rest', hlist, hget⟩ := hpicked
          (fun y => decide (top' (item y) = item t)) fun y => decide_eq_true_iff
        -- The elements below the new root are the members that are left.
        have htest : ∀ y ∈ order.keys after.elements,
            d.cluster.members.contains y = decide (top' (item y) = item t) := by
          intro y hy
          have hmem := (order.keys_perm _).mem_iff.1 hy
          rw [helements, List.mem_filter, Bool.not_eq_true'] at hmem
          have hyx : item y ≠ item x := (item_ne_iff.2 hmem.2).symm
          have hknown : sets.contains y = true := by
            rw [UnionFind.contains_eq]
            exact List.contains_iff_exists_mem_beq.2 ⟨y, hmem.1, BEq.refl y⟩
          rw [Bool.eq_iff_iff, decide_eq_true_iff]
          refine (hdhas y).trans ⟨fun hy => joined y hyx (htops y hy.1), fun htop => ⟨?_, hyx⟩⟩
          by_cases hyt : top (item y) = top (item x)
          · exact h.has_of_top_eq hrooted hc hhas hknown hyt
          · rw [kept y hyx hyt] at htop
            have hself := hforest.top_top y
            rw [htop, within] at hself
            exact (hyt (htop.trans hself.symm)).elim
        rw [← helements, List.filter_congr htest, hlist] at hmembers
        obtain ⟨rfl, rfl⟩ := List.cons.inj hmembers
        rw [hget, hsame]

/-- Removing has the same outcome on both sides when what is left of the set of the element is
visited in one order. -/
theorem remove (h : Agrees sets partition) (order : Iteration α) (visit : Visit α) (x : α)
    (pick : α → α → α) (hvisit : ∀ c ∈ partition.classes, c.Has x → ∀ d,
      c.withoutIn? visit x pick = some d → visit.members d.cluster.members =
        (order.keys (sets.elements.filter fun y => !(x == y))).filter d.cluster.members.contains) :
    ∃ after, sets.remove? order x pick = some after ∧
      Agrees after (partition.removeIn visit x pick) := by
  obtain ⟨hclasses, -⟩ := Partition.distinct_iff.1 h.distinct
  cases hx : sets.contains x with
  | false =>
    have hkept : ∀ c ∈ partition.classes, c.withoutIn? visit x pick = some c := by
      intro c hc
      rw [Class.withoutIn?]
      refine if_neg fun hhas => ?_
      rw [h.contains_iff.2 ⟨c, hc, hhas⟩] at hx
      cases hx
    have hsame : partition.removeIn visit x pick = partition := by
      rw [Partition.removeIn, List.filterMap_congr hkept, List.filterMap_some]
    exact ⟨sets, by simp [remove?, hx], by rwa [hsame]⟩
  | true =>
    obtain ⟨top, height, hforest, hrooted⟩ := h.forest
    have hkeys : Distinct sets.elements := h.distinct.perm h.elements.symm
    have hdistinct := Partition.distinct_removeIn h.distinct visit x pick
    obtain ⟨after, hafter, helements, top', height', hagain, hleaves⟩ :=
      hforest.remove?_eq order hkeys pick hx
    refine ⟨after, hafter, ?_, hdistinct, top', height', hagain, fun d hd => ?_⟩
    · rw [helements]
      refine perm_of_distinct (hkeys.filter _) hdistinct fun a => ?_
      rw [List.mem_filter, h.elements.mem_iff, Partition.mem_elements_removeIn h.distinct, BEq.comm]
      simp
    · obtain ⟨c, hc, hcd⟩ := List.mem_filterMap.1 hd
      obtain ⟨hnot, rfl⟩ | ⟨hhas, hperm, hrepresentative⟩ :=
        Class.withoutIn?_some (hclasses c hc) hcd
      · exact h.rootOf_other hrooted hx hleaves hc hnot
      · have hdhas : ∀ y, d.Has y ↔ c.Has y ∧ item y ≠ item x := fun y => by
          simp only [Class.has_iff, hperm.mem_iff, List.mem_filter, Bool.not_eq_true']
          constructor
          · rintro ⟨m, ⟨hm, hmx⟩, hbeq⟩
            exact ⟨⟨m, hm, hbeq⟩, item_ne_iff.2 ((BEq.congr_left hbeq).trans hmx)⟩
          · rintro ⟨⟨m, hm, hbeq⟩, hyx⟩
            exact ⟨m, ⟨hm, (BEq.congr_left hbeq).symm.trans (item_ne_iff.1 hyx)⟩, hbeq⟩
        rw [hvisit c hc hhas d hcd] at hrepresentative
        exact h.rootOf_rest hforest hrooted helements hleaves hc hhas hdhas hrepresentative

/-- The elements that a removal leaves are those of the classes it leaves. -/
theorem mem_left_iff (h : Agrees sets partition) (visit : Visit α) (x : α) (pick : α → α → α)
    (a : α) : a ∈ sets.elements.filter (fun y => !(x == y)) ↔
      a ∈ (partition.removeIn visit x pick).elements := by
  rw [Partition.mem_elements_removeIn h.distinct, List.mem_filter, h.elements.mem_iff, BEq.comm,
    Bool.not_eq_true']

/-- Whatever the order in which tables are visited, a partition can be visited alike. -/
theorem exists_visit (h : Agrees sets partition) (order : Iteration α) (x : α)
    (pick : α → α → α) : ∃ visit after, sets.remove? order x pick = some after ∧
      Agrees after (partition.removeIn visit x pick) := by
  classical
  let left := sets.elements.filter fun y => !(x == y)
  let visited (items : List α) := (order.keys left).filter items.contains
  let visit : Visit α :=
    ⟨id, fun items => if items.Perm (visited items) then visited items else items, .refl,
      fun items => by
        split
        · rename_i hperm
          exact hperm.symm
        · exact .refl _⟩
  refine ⟨visit, h.remove order visit x pick fun c hc hcx d hcd => if_pos ?_⟩
  have hkeys : Distinct left := (h.distinct.perm h.elements.symm).filter _
  refine (Partition.members_perm_filter (Partition.distinct_removeIn h.distinct visit x pick)
    (List.mem_filterMap.2 ⟨c, hc, hcd⟩) (hkeys.perm (order.keys_perm left).symm) fun a => ?_)
  rw [(order.keys_perm left).mem_iff, h.mem_left_iff visit x pick]

/-- Whatever the order in which a partition is visited, tables can be visited alike. -/
theorem exists_order (h : Agrees sets partition) (visit : Visit α) (x : α)
    (pick : α → α → α) : ∃ order after, sets.remove? order x pick = some after ∧
      Agrees after (partition.removeIn visit x pick) := by
  classical
  by_cases hclass : ∃ c ∈ partition.classes, c.Has x ∧ ∃ d, c.withoutIn? visit x pick = some d
  · obtain ⟨c, hc, hcx, d, hcd⟩ := hclass
    let left := sets.elements.filter fun y => !(x == y)
    have hperm : (visit.members d.cluster.members ++
        left.filter fun a => !d.cluster.members.contains a).Perm left :=
      (((visit.members_perm _).trans (Partition.members_perm_filter
        (Partition.distinct_removeIn h.distinct visit x pick) (List.mem_filterMap.2 ⟨c, hc, hcd⟩)
        ((h.distinct.perm h.elements.symm).filter _) (h.mem_left_iff visit x pick))).append_right
          _).trans (List.filter_append_perm _ left)
    let order : Iteration α :=
      ⟨id, fun items => if items = left then visit.members d.cluster.members ++
        left.filter (fun a => !d.cluster.members.contains a) else items, .refl, fun items => by
          split
          · rename_i heq
            exact heq ▸ hperm
          · exact .refl _⟩
    refine ⟨order, h.remove order visit x pick fun c' hc' hc'x d' hcd' => ?_⟩
    obtain rfl := Partition.eq_of_has h.distinct hc hc' hcx hc'x
    obtain rfl := Option.some.inj (hcd.symm.trans hcd')
    have hkeys : order.keys left = visit.members d.cluster.members ++
      left.filter fun a => !d.cluster.members.contains a := if_pos rfl
    rw [hkeys, List.filter_append, List.filter_filter, List.filter_eq_self.2,
        List.filter_eq_nil_iff.2,
      List.append_nil]
    · intro a _
      simp
    · intro a ha
      exact Class.has_of_mem ((visit.members_perm _).mem_iff.1 ha)
  · exact ⟨.listed α, h.remove _ visit x pick fun c hc hcx d hcd =>
      (hclass ⟨c, hc, hcx, d, hcd⟩).elim⟩

/-- The representatives of all sets are what a partition finds for their elements. -/
theorem representatives (h : Agrees sets partition) (order : Iteration α) :
    sets.representatives? order =
      some ((order.keys sets.elements).map partition.find).eraseDups := by
  obtain ⟨top, height, hforest, hrooted⟩ := h.forest
  obtain ⟨root, htop, hrepresentatives⟩ := hforest.representatives?_eq order
  rw [hrepresentatives]
  refine congrArg (fun items => some (List.eraseDups items)) (List.map_congr_left fun x hx => ?_)
  have hmem := h.elements.mem_iff.1 ((order.keys_perm _).mem_iff.1 hx)
  obtain ⟨c, hc, hxc⟩ := Partition.mem_elements.1 hmem
  have hhas := Class.has_of_mem hxc
  obtain ⟨croot, hcroot⟩ := hrooted c hc
  have hitem : item (root x) = item croot := (htop x).trans (hcroot.top_eq x hhas)
  rw [Partition.find_of_classOf? (Partition.classOf?_eq_some h.distinct hc hhas)]
  exact representativeOf_of_get? ((Table.get?_congr hitem).trans hcroot.representative)

end Agrees

/-! ## Sequences of operations -/

/-- What an operation does to three tables, if the walks it takes come to an end. -/
def change? (sets : UnionFind α) : Change α (Iteration α) → Option (UnionFind α)
  | .add element => some (sets.add element)
  | .union left right choice => sets.union? left right choice.pick
  | .find element => (sets.find? element).map Prod.snd
  | .remove element choice order => sets.remove? order element choice.pick

/-- The tables after some operations. -/
def after (changes : List (Change α (Iteration α))) : Option (UnionFind α) :=
  changes.foldlM change? empty

/-- What three tables tell about the blocks, when `find` gives the representatives: a look-up
finds them, and finds them again after any other look-up. -/
structure Presents (sets : UnionFind α) (blocks : Blocks α) (find : α → α) : Prop where
  finds : ∀ x, ∃ after, sets.find? x = some (find x, after) ∧
    ∀ y, ∃ again, after.find? y = some (find y, again)
  known_iff : ∀ x, sets.contains x = true ↔ ∃ block ∈ blocks, x ∈ block
  same_iff : ∀ x y, sets.contains x = true → sets.contains y = true →
    ((find x == find y) = true ↔ ∃ block ∈ blocks, x ∈ block ∧ y ∈ block)
  find_mem : ∀ block ∈ blocks, ∀ x ∈ block, find x ∈ block
  find_unknown : ∀ x, sets.contains x = false → find x = x
  find_find : ∀ x, find (find x) = find x
  representatives : ∀ order, ∃ items, sets.representatives? order = some items ∧ Distinct items ∧
    (∀ r, r ∈ items ↔ ∃ x, sets.contains x = true ∧ find x = r) ∧
      (∀ r ∈ items, ∃ block ∈ blocks, r ∈ block) ∧
        ∀ block ∈ blocks, ∃ r ∈ items, r ∈ block ∧ ∀ s ∈ items, s ∈ block → s = r

namespace Agrees

variable {sets : UnionFind α} {partition : Partition α} {blocks : Blocks α}

/-- Every operation on three tables has a result, and what it does is done to a partition by the
same operation in some order. -/
theorem change (h : Agrees sets partition) (change : Change α (Iteration α)) :
    ∃ after alike, sets.change? change = some after ∧ alike.plain = change.plain ∧
      Agrees after (partition.change alike) := by
  cases change with
  | add element => exact ⟨_, .add element, rfl, rfl, h.add element⟩
  | union left right choice =>
    obtain ⟨after, hafter, hagrees⟩ := h.union left right choice.pick
    exact ⟨after, .union left right choice, hafter, rfl, hagrees⟩
  | find element =>
    obtain ⟨after, hafter, hagrees⟩ := h.find element
    exact ⟨after, .find element, by rw [change?, hafter]; rfl, rfl, hagrees.compress element⟩
  | remove element choice order =>
    obtain ⟨visit, after, hafter, hagrees⟩ := h.exists_visit order element choice.pick
    exact ⟨after, .remove element choice visit, hafter, rfl, hagrees⟩

/-- Every operation on a partition is done by the same operation on three tables in some order. -/
theorem change_back (h : Agrees sets partition) (change : Change α (Visit α)) :
    ∃ after alike, sets.change? alike = some after ∧ alike.plain = change.plain ∧
      Agrees after (partition.change change) := by
  cases change with
  | add element => exact ⟨_, .add element, rfl, rfl, h.add element⟩
  | union left right choice =>
    obtain ⟨after, hafter, hagrees⟩ := h.union left right choice.pick
    exact ⟨after, .union left right choice, hafter, rfl, hagrees⟩
  | find element =>
    obtain ⟨after, hafter, hagrees⟩ := h.find element
    exact ⟨after, .find element, by rw [change?, hafter]; rfl, rfl, hagrees.compress element⟩
  | remove element choice visit =>
    obtain ⟨order, after, hafter, hagrees⟩ := h.exists_order visit element choice.pick
    exact ⟨after, .remove element choice order, hafter, rfl, hagrees⟩

/-- The same for a removal that visits children and members as they are listed. -/
theorem remove_listed (h : Agrees sets partition) (element : α) (pick : α → α → α) :
    ∃ order after, sets.remove? order element pick = some after ∧
      Agrees after (partition.remove element pick) := by
  rw [← Partition.removeIn_listed]
  exact h.exists_order (.listed α) element pick

/-- Any operations on three tables have a result, which agrees with classes that are the blocks. -/
theorem run (h : Agrees sets partition) (hrefines : partition.Refines blocks)
    (changes : List (Change α (Iteration α))) :
    ∃ after left, changes.foldlM change? sets = some after ∧ Agrees after left ∧
      left.Refines (changes.foldl Blocks.change blocks) := by
  induction changes generalizing sets partition blocks with
  | nil => exact ⟨sets, partition, rfl, h, hrefines⟩
  | cons change rest ih =>
    obtain ⟨next, alike, hnext, hplain, hagrees⟩ := h.change change
    have hblocks : blocks.change alike = blocks.change change := by
      rw [← Blocks.change_plain, hplain, Blocks.change_plain]
    obtain ⟨after, left, hafter, hrest⟩ := ih hagrees (hblocks ▸ hrefines.change alike)
    exact ⟨after, left, by rw [List.foldlM_cons, hnext]; exact hafter, hrest⟩

theorem presents (h : Agrees sets partition) (hrefines : partition.Refines blocks) :
    sets.Presents blocks partition.find where
  finds x := by
    obtain ⟨after, hafter, hagrees⟩ := h.find x
    exact ⟨after, hafter, fun y => (hagrees.find y).imp fun again hagain => hagain.1⟩
  known_iff x := by rw [h.contains_eq, hrefines.known_iff]
  same_iff x y hx hy := hrefines.same_iff (h.contains_eq x ▸ hx) (h.contains_eq y ▸ hy)
  find_mem block hblock x hx := by
    obtain ⟨c, hc, rfl⟩ := hrefines.exists_class hblock
    rw [hrefines.find_of_has hc hx]
    exact hrefines.represented c hc
  find_unknown x hx := by
    rw [h.contains_eq, Partition.contains, Option.isSome_eq_false_iff,
      Option.isNone_iff_eq_none] at hx
    exact Partition.find_of_absent hx
  find_find := hrefines.find_find
  representatives order := by
    have hclass : ∀ x, sets.contains x = true →
        ∃ c ∈ partition.classes, c.Has x ∧ partition.find x = c.representative := fun x hx => by
      obtain ⟨c, hc, hhas⟩ := h.contains_iff.1 hx
      exact ⟨c, hc, hhas, hrefines.find_of_has hc hhas⟩
    have hiff : ∀ r, r ∈ ((order.keys sets.elements).map partition.find).eraseDups ↔
        ∃ x, sets.contains x = true ∧ partition.find x = r := by
      intro r
      constructor
      · intro hr
        obtain ⟨x, hx, hfind⟩ := List.mem_map.1 ((eraseDups_sublist _).subset hr)
        have hmem := h.elements.mem_iff.1 ((order.keys_perm _).mem_iff.1 hx)
        obtain ⟨c, hc, hxc⟩ := Partition.mem_elements.1 hmem
        exact ⟨x, h.contains_iff.2 ⟨c, hc, Class.has_of_mem hxc⟩, hfind⟩
      · rintro ⟨x, hx, rfl⟩
        obtain ⟨c, hc, hhas, hfind⟩ := hclass x hx
        obtain ⟨m, hm, -⟩ := Class.has_iff.1 hhas
        have hmem : partition.find m ∈ (order.keys sets.elements).map partition.find :=
          List.mem_map_of_mem ((order.keys_perm _).mem_iff.2
            (h.elements.mem_iff.2 (Partition.mem_elements.2 ⟨c, hc, hm⟩)))
        obtain ⟨kept, hkept, hbeq⟩ := exists_mem_eraseDups hmem
        obtain ⟨y, hy, hyfind⟩ := List.mem_map.1 ((eraseDups_sublist _).subset hkept)
        have hyelements := h.elements.mem_iff.1 ((order.keys_perm _).mem_iff.1 hy)
        obtain ⟨d, hd, hyd⟩ := Partition.mem_elements.1 hyelements
        rw [hrefines.find_of_has hc (Class.has_of_mem hm), ← hyfind,
          hrefines.find_of_has hd (Class.has_of_mem hyd)] at hbeq
        rw [hfind, hrefines.eq_of_representative hc hd hbeq,
          ← hrefines.find_of_has hd (Class.has_of_mem hyd), hyfind]
        exact hkept
    refine ⟨_, h.representatives order, distinct_eraseDups _, hiff, fun r hr => ?_,
      fun block hblock => ?_⟩
    · obtain ⟨x, hx, rfl⟩ := (hiff r).1 hr
      obtain ⟨c, hc, -, hfind⟩ := hclass x hx
      exact ⟨c.block, hrefines.block_mem hc, hfind ▸ hrefines.represented c hc⟩
    · obtain ⟨c, hc, rfl⟩ := hrefines.exists_class hblock
      have hown := hrefines.represented c hc
      refine ⟨c.representative, (hiff _).2 ⟨c.representative, h.contains_iff.2 ⟨c, hc, hown⟩,
        hrefines.find_of_has hc hown⟩, hown, fun s hs hmem => ?_⟩
      obtain ⟨x, hx, rfl⟩ := (hiff s).1 hs
      obtain ⟨d, hd, hhas, hfind⟩ := hclass x hx
      rw [hfind] at hmem ⊢
      rw [Partition.eq_of_has h.distinct hd hc (hrefines.represented d hd) hmem]

/-- Operations on a partition are operations on three tables, in some order. -/
theorem run_back (h : Agrees sets partition) (changes : List (Change α (Visit α))) :
    ∃ (alike : List (Change α (Iteration α))) (after : UnionFind α),
      alike.map Change.plain = changes.map Change.plain ∧
        alike.foldlM change? sets = some after ∧
          Agrees after (changes.foldl Partition.change partition) := by
  induction changes generalizing sets partition with
  | nil => exact ⟨[], sets, rfl, rfl, h⟩
  | cons change rest ih =>
    obtain ⟨next, first, hnext, hplain, hagrees⟩ := h.change_back change
    obtain ⟨alike, after, hplains, hafter, hrest⟩ := ih hagrees
    refine ⟨first :: alike, after, ?_, ?_, hrest⟩
    · rw [List.map_cons, List.map_cons, hplain, hplains]
    · rw [List.foldlM_cons, hnext]
      exact hafter

end Agrees

/-- Any operations on three empty tables have a result, whatever is picked and in whatever order
tables are visited. Elements have one representative exactly when the reference has them in one
block, it is a member of the block, unknown elements stand for themselves, and there is one
representative for each block. -/
theorem after_presents (changes : List (Change α (Iteration α))) :
    ∃ sets find, UnionFind.after changes = some sets ∧
        sets.Presents (Blocks.after changes) find := by
  obtain ⟨sets, partition, hsets, hagrees, hrefines⟩ :=
    Agrees.empty.run Partition.Refines.empty changes
  exact ⟨sets, partition.find, hsets, hagrees.presents hrefines⟩

/-- Whatever is done to an empty partition, the same operations on three empty tables agree with
it when they visit tables in some order. -/
theorem after_agrees (changes : List (Change α (Visit α))) :
    ∃ alike sets, alike.map Change.plain = changes.map Change.plain ∧
      UnionFind.after alike = some sets ∧
        Agrees sets (changes.foldl Partition.change Partition.empty) :=
  Agrees.empty.run_back changes

/-- The second of two elements. -/
def secondChoice (α : Type) [BEq α] [ReflBEq α] : Choice α :=
  ⟨fun _ b => b, fun _ b => .inr (BEq.refl b)⟩

/-- Tables are visited from the last entry to the first. -/
def reverseOrder (α : Type) : Iteration α :=
  ⟨List.reverse, List.reverse, List.reverse_perm, List.reverse_perm⟩

/-- A set of four loses its root and then its representative. -/
def losses : List (Change Nat (Iteration Nat)) :=
  [.union 3 5 (secondChoice Nat), .union 1 3 (secondChoice Nat), .add 7, .find 5,
    .union 1 8 (secondChoice Nat), .remove 3 (secondChoice Nat) (reverseOrder Nat),
    .remove 8 (secondChoice Nat) (reverseOrder Nat)]

theorem losses_presented : (∃ sets find, UnionFind.after losses = some sets ∧
      sets.Presents (Blocks.after losses) find) ∧
    ((UnionFind.after losses).bind fun sets => (sets.find? 5).map Prod.fst) = some 5 ∧
      ((UnionFind.after losses).bind fun sets => sets.representatives? (reverseOrder Nat)) =
        some [7, 5] :=
  ⟨after_presents losses, by decide, by decide⟩

end UnionFind

end Agreement

end PolyFront
