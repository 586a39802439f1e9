import PolyFront.Collection.UnionFind
import PolyFront.Proofs.Multimap.Refinement
import Mathlib.Order.Basic

/-!
# The parents of a union-find form a forest

The tables of a union-find are kept consistent by a certificate: a function that sends every
element to the root of its set, and a height that shrinks along every parent.  The heights make
walks end, before they have met more elements than there are, and the roots say where.  Each
operation is a few writes to the table of parents; what it does to the forest is stated as a new
certificate, which is checked entry by entry and never along a walk.

Elements only have to be equal in the sense of an equivalence, so roots and heights belong to
elements up to what counts as the same.
-/

namespace PolyFront

/-! ## Elements up to what counts as the same -/

/-- An element, up to what counts as the same. -/
def Item (α : Type) [BEq α] [EquivBEq α] : Type :=
  Quotient (⟨fun a b : α => (a == b) = true, BEq.refl, BEq.symm, BEq.trans⟩ : Setoid α)

section Item

variable {α : Type} [BEq α] [EquivBEq α]

def item (element : α) : Item α := Quotient.mk _ element

theorem item_eq_iff {a b : α} : item a = item b ↔ (a == b) = true :=
  ⟨Quotient.exact, fun h => Quotient.sound h⟩

theorem item_ne_iff {a b : α} : item a ≠ item b ↔ (a == b) = false := by
  rw [Ne, item_eq_iff, Bool.not_eq_true]

end Item

/-- One item more passes the weaker test. -/
theorem countP_lt_countP {α : Type} {items : List α} {p q : α → Bool} {item : α}
    (hmem : item ∈ items) (hpq : ∀ a ∈ items, p a = true → q a = true) (hp : p item = false)
    (hq : q item = true) : items.countP p < items.countP q := by
  induction items with
  | nil => cases hmem
  | cons first rest ih =>
    have hle := List.countP_mono_left fun a ha => hpq a (List.mem_cons_of_mem first ha)
    have hfirst := hpq first List.mem_cons_self
    rw [List.countP_cons, List.countP_cons]
    rcases List.mem_cons.1 hmem with rfl | hrest
    · simp only [hp, hq]
      exact Nat.lt_succ_of_le hle
    · have hlt := ih hrest fun a ha => hpq a (List.mem_cons_of_mem _ ha)
      cases hpf : p first with
      | false => simp only [Bool.false_eq_true, if_false]; omega
      | true => simp only [hfirst hpf, if_true]; omega

/-! ## Tables -/

namespace Table

variable {κ ν : Type} [BEq κ] [EquivBEq κ]

theorem get?_congr {table : Table κ ν} {a b : κ} (h : item a = item b) :
    table.get? a = table.get? b := by
  rw [item_eq_iff] at h
  obtain ⟨entries⟩ := table
  simp only [get?]
  induction entries with
  | nil => rfl
  | cons entry rest ih => rw [List.lookup_cons, List.lookup_cons, ih, BEq.congr_left h]

theorem contains_congr {table : Table κ ν} {a b : κ} (h : item a = item b) :
    table.contains a = table.contains b := by
  rw [contains, contains, get?_congr h]

theorem contains_insert (table : Table κ ν) (key other : κ) (value : ν) :
    (table.insert key value).contains other = (other == key || table.contains other) := by
  rw [contains, get?_insert]
  cases other == key <;> rfl

theorem contains_erase (table : Table κ ν) (key other : κ) :
    (table.erase key).contains other = (!(other == key) && table.contains other) := by
  rw [contains, get?_erase]
  cases other == key <;> rfl

end Table

namespace UnionFind

variable {α : Type} [BEq α] [EquivBEq α] {sets : UnionFind α}

/-! ## The tables after a write -/

omit [EquivBEq α] in
theorem contains_eq (sets : UnionFind α) (element : α) :
    sets.contains element = sets.elements.contains element := sets.parent.contains_eq element

theorem contains_congr {a b : α} (h : item a = item b) : sets.contains a = sets.contains b :=
  Table.contains_congr h

omit [EquivBEq α] in
theorem parentOf_of_unknown {element : α} (h : sets.contains element = false) :
    sets.parentOf element = element := by
  rw [contains, Table.contains, Option.isSome_eq_false_iff, Option.isNone_iff_eq_none] at h
  rw [parentOf, h]
  rfl

theorem item_parentOf_congr {a b : α} (h : item a = item b) :
    item (sets.parentOf a) = item (sets.parentOf b) := by
  rw [parentOf, parentOf, Table.get?_congr h]
  cases sets.parent.get? b with
  | none => exact h
  | some parent => rfl

omit [EquivBEq α] in
theorem representativeOf_of_get? {root representative : α}
    (h : sets.representative.get? root = some representative) :
    sets.representativeOf root = representative := by
  rw [representativeOf, h]
  rfl

theorem contains_add (sets : UnionFind α) (element other : α) :
    (sets.add element).contains other = (other == element || sets.contains other) := by
  rw [add]
  split
  · rename_i helement
    cases hbeq : other == element with
    | false => rfl
    | true => rw [contains_congr (item_eq_iff.2 hbeq), helement, Bool.true_or]
  · exact sets.parent.contains_insert element other element

/-- An element that is added was its own parent before. -/
theorem item_parentOf_add (sets : UnionFind α) (element other : α) :
    item ((sets.add element).parentOf other) = item (sets.parentOf other) := by
  rw [add]
  split
  · rfl
  · rename_i hunknown
    rw [parentOf, Table.get?_insert]
    split
    · rename_i hbeq
      rw [item_parentOf_congr (item_eq_iff.2 hbeq), parentOf_of_unknown (by simpa using hunknown)]
      rfl
    · rfl

theorem parentOf_hang (sets : UnionFind α) (child parent element : α) :
    (sets.hang child parent).parentOf element =
      if element == child then parent else sets.parentOf element := by
  rw [parentOf, hang, Table.get?_insert]
  split <;> rfl

theorem contains_hang (sets : UnionFind α) (child parent element : α) :
    (sets.hang child parent).contains element = (element == child || sets.contains element) :=
  sets.parent.contains_insert child element parent

omit [EquivBEq α] in
theorem elements_hang {child : α} (h : sets.contains child = true) (parent : α) :
    (sets.hang child parent).elements = sets.elements := by
  rw [contains_eq, elements] at h
  rw [elements, hang, Table.keys_insert, if_pos h, elements]

/-! ## Certificates -/

/-- The roots and the heights of a forest, and what the other tables have to do with it: every
element has a rank, and the roots have representatives. -/
structure Forest (sets : UnionFind α) (top : Item α → Item α) (height : Item α → Nat) :
    Prop where
  known_parent : ∀ x, sets.contains x = true → sets.contains (sets.parentOf x) = true
  top_parent : ∀ x, top (item (sets.parentOf x)) = top (item x)
  top_root : ∀ x, item (sets.parentOf x) = item x → top (item x) = item x
  height_parent : ∀ x, item (sets.parentOf x) ≠ item x →
    height (item (sets.parentOf x)) < height (item x)
  ranked : ∀ x, sets.rank.contains x = sets.contains x
  represented : ∀ x, sets.representative.contains x = true ↔
    sets.contains x = true ∧ item (sets.parentOf x) = item x

namespace Forest

variable {top : Item α → Item α} {height : Item α → Nat}

/-- The root of an element, which is known when the element is. -/
theorem exists_root (h : Forest sets top height) (x : α) :
    ∃ r, item r = top (item x) ∧ item (sets.parentOf r) = item r ∧
      height (item r) ≤ height (item x) ∧ sets.contains r = sets.contains x := by
  induction hsize : height (item x) using Nat.strongRecOn generalizing x with
  | ind size ih =>
    by_cases hroot : item (sets.parentOf x) = item x
    · exact ⟨x, (h.top_root x hroot).symm, hroot, Nat.le_of_eq hsize, rfl⟩
    · have hlt := h.height_parent x hroot
      obtain ⟨r, hr, hrroot, hle, hknown⟩ := ih _ (hsize ▸ hlt) (sets.parentOf x) rfl
      refine ⟨r, hr.trans (h.top_parent x), hrroot, by omega, hknown.trans ?_⟩
      cases hx : sets.contains x with
      | true => exact h.known_parent x hx
      | false => rw [parentOf_of_unknown hx, hx]

theorem height_top_le (h : Forest sets top height) (x : α) :
    height (top (item x)) ≤ height (item x) := by
  obtain ⟨r, hr, -, hle, -⟩ := h.exists_root x
  rwa [← hr]

/-- A root is where its own walk ends. -/
theorem top_eq_iff (h : Forest sets top height) (x : α) :
    top (item x) = item x ↔ item (sets.parentOf x) = item x := by
  refine ⟨fun htop => ?_, h.top_root x⟩
  obtain ⟨r, hr, hroot, -⟩ := h.exists_root x
  have hrx : item r = item x := hr.trans htop
  rw [item_parentOf_congr hrx.symm, hroot, hrx]

theorem top_top (h : Forest sets top height) (x : α) : top (top (item x)) = top (item x) := by
  obtain ⟨r, hr, hroot, -⟩ := h.exists_root x
  rw [← hr]
  exact h.top_root r hroot

theorem representative_none (h : Forest sets top height) {x : α}
    (hx : sets.contains x = false) : sets.representative.get? x = none := by
  have hnot : ¬sets.representative.contains x = true := fun hhas => by
    rw [((h.represented x).1 hhas).1] at hx
    cases hx
  simpa [Table.contains] using hnot

/-! ## Walks -/

variable (height) in
/-- The number of elements that are lower than the given one. -/
def lower (sets : UnionFind α) (x : α) : Nat :=
  sets.elements.countP fun y => decide (height (item y) < height (item x))

theorem lower_lt_size {x : α} (hx : sets.contains x = true) :
    lower height sets x < sets.size := by
  rw [contains_eq] at hx
  obtain ⟨y, hy, hxy⟩ := exists_of_contains hx
  have hlt := countP_lt_countP hy (p := fun z => decide (height (item z) < height (item x)))
    (q := fun _ => true) (fun _ _ _ => rfl) (by simp [item_eq_iff.2 hxy]) rfl
  rwa [List.countP_true, elements, Table.keys, List.length_map] at hlt

theorem lower_parent_lt (h : Forest sets top height) {x : α} (hx : sets.contains x = true)
    (hroot : item (sets.parentOf x) ≠ item x) :
    lower height sets (sets.parentOf x) < lower height sets x := by
  have hlt := h.height_parent x hroot
  have hparent := h.known_parent x hx
  rw [contains_eq] at hparent
  obtain ⟨y, hy, hbeq⟩ := exists_of_contains hparent
  have hitem := item_eq_iff.2 hbeq
  refine countP_lt_countP hy (fun z _ hz => ?_) ?_ ?_
  · exact decide_eq_true (Nat.lt_trans (of_decide_eq_true hz) hlt)
  · rw [hitem]
    exact decide_eq_false (Nat.lt_irrefl _)
  · rw [← hitem]
    exact decide_eq_true hlt

/-- A walk ends at the root, once it may take more steps than there are lower elements. -/
theorem climb_eq (h : Forest sets top height) {x : α} (hx : sets.contains x = true) {steps : Nat}
    (hsteps : lower height sets x < steps) :
    ∃ r, sets.climb steps x = some r ∧ item r = top (item x) ∧
      item (sets.parentOf r) = item r ∧ sets.contains r = true := by
  induction steps generalizing x with
  | zero => exact (Nat.not_lt_zero _ hsteps).elim
  | succ steps ih =>
    by_cases hroot : item (sets.parentOf x) = item x
    · refine ⟨x, ?_, (h.top_root x hroot).symm, hroot, hx⟩
      rw [climb, if_pos (item_eq_iff.1 hroot)]
    · have hlower := h.lower_parent_lt hx hroot
      obtain ⟨r, hr, htop, hrest⟩ := ih (h.known_parent x hx) (by omega)
      refine ⟨r, ?_, htop.trans (h.top_parent x), hrest⟩
      rw [climb, if_neg (fun hbeq => hroot (item_eq_iff.2 hbeq)), hr]

/-- Every walk ends, at the root. -/
theorem root?_eq (h : Forest sets top height) (x : α) :
    ∃ r, sets.root? x = some r ∧ item r = top (item x) ∧
      item (sets.parentOf r) = item r ∧ sets.contains r = sets.contains x := by
  cases hx : sets.contains x with
  | true => exact h.climb_eq hx (Nat.lt_succ_of_lt (lower_lt_size hx))
  | false =>
    have hroot : item (sets.parentOf x) = item x := by rw [parentOf_of_unknown hx]
    refine ⟨x, ?_, (h.top_root x hroot).symm, hroot, hx⟩
    rw [root?, climb, if_pos (item_eq_iff.1 hroot)]

/-! ## Looking up -/

/-- Hanging an element below a lower one of its set changes no root. -/
theorem hang (h : Forest sets top height) {x p : α} (hx : sets.contains x = true)
    (hp : sets.contains p = true) (htop : top (item p) = top (item x))
    (hlt : height (item p) < height (item x)) : Forest (sets.hang x p) top height := by
  have hknown : ∀ y, (sets.hang x p).contains y = sets.contains y := by
    intro y
    rw [contains_hang]
    cases hyx : y == x with
    | false => rfl
    | true => rw [contains_congr (item_eq_iff.2 hyx), hx, Bool.true_or]
  have hpx : item p ≠ item x := fun heq => by rw [heq] at hlt; exact Nat.lt_irrefl _ hlt
  -- An element that is higher than another one of its set was no root before.
  have hnotRoot : item (sets.parentOf x) ≠ item x := by
    intro hroot
    have hle := h.height_top_le p
    rw [htop, h.top_root x hroot] at hle
    omega
  refine ⟨fun y hy => ?_, fun y => ?_, fun y hy => ?_, fun y hy => ?_, fun y => ?_, fun y => ?_⟩
  all_goals simp only [hknown, parentOf_hang] at *
  · split
    · exact hp
    · exact h.known_parent y hy
  · split
    · rename_i hyx
      rw [htop, item_eq_iff.2 hyx]
    · exact h.top_parent y
  · split at hy
    · rename_i hyx
      exact (hpx (hy.trans (item_eq_iff.2 hyx))).elim
    · exact h.top_root y hy
  · split at hy
    · rename_i hyx
      rwa [if_pos hyx, item_eq_iff.2 hyx]
    · rename_i hyx
      rw [if_neg hyx]
      exact h.height_parent y hy
  · exact h.ranked y
  · refine (h.represented y).trans (and_congr_right fun _ => ?_)
    split
    · rename_i hyx
      have hitem := item_eq_iff.2 hyx
      rw [item_parentOf_congr hitem, hitem]
      exact iff_of_false hnotRoot hpx
    · rfl

/-- Shortening a way to the root ends, and changes neither roots nor representatives. -/
theorem shorten_eq (h : Forest sets top height) {root x : α} (hroot : item root = top (item x))
    (hknown : sets.contains root = true) (hx : sets.contains x = true) {steps : Nat}
    (hsteps : lower height sets x < steps) :
    ∃ after, shorten root steps x sets = some after ∧ Forest after top height ∧
      after.elements = sets.elements ∧ after.representative = sets.representative := by
  induction steps generalizing sets x with
  | zero => exact (Nat.not_lt_zero _ hsteps).elim
  | succ steps ih =>
    by_cases heq : (x == root) = true
    · exact ⟨sets, by rw [shorten, if_pos heq], h, rfl, rfl⟩
    · have hnotRoot : item (sets.parentOf x) ≠ item x := fun hself =>
        heq (item_eq_iff.1 ((h.top_root x hself).symm.trans hroot.symm))
      have hparent := h.known_parent x hx
      have hlower := h.lower_parent_lt hx hnotRoot
      have hlt : height (item root) < height (item x) := by
        have hle := h.height_top_le (sets.parentOf x)
        rw [h.top_parent, ← hroot] at hle
        exact Nat.lt_of_le_of_lt hle (h.height_parent x hnotRoot)
      have htop : top (item root) = top (item x) := by rw [hroot, h.top_top]
      have helements := elements_hang hx root
      have hsame : ∀ y, (sets.hang x root).contains y = sets.contains y := fun y => by
        rw [contains_eq, helements, contains_eq]
      obtain ⟨after, hafter, hforest, hafterElements, hrest⟩ :=
        ih (h.hang hx hknown htop hlt) (x := sets.parentOf x) (by rw [hroot, h.top_parent])
          (by rw [hsame, hknown]) (by rw [hsame, hparent])
          (by rw [lower, helements]; rw [lower] at hlower; omega)
      exact ⟨after, by rw [shorten, if_neg heq, hafter], hforest,
        hafterElements.trans helements, hrest⟩

/-- Looking up an element gives the representative of its root, and changes neither roots nor
representatives. -/
theorem find?_eq (h : Forest sets top height) (x : α) :
    ∃ r after, sets.find? x = some (sets.representativeOf r, after) ∧
      item r = top (item x) ∧ (sets.contains x = false → r = x) ∧ Forest after top height ∧
      after.elements = sets.elements ∧ after.representative = sets.representative := by
  obtain ⟨r, hr, htop, hroot, hknown⟩ := h.root?_eq x
  cases hx : sets.contains x with
  | true =>
    obtain ⟨after, hafter, hforest, helements, hrepresentative⟩ :=
      h.shorten_eq htop (hknown.trans hx) hx (Nat.lt_succ_of_lt (lower_lt_size hx))
    refine ⟨r, after, ?_, htop, nofun, hforest, helements, hrepresentative⟩
    simp [find?, hr, hafter, representativeOf, hrepresentative]
  | false =>
    have hself : (sets.parentOf x == x) = true := by rw [parentOf_of_unknown hx, BEq.refl]
    obtain rfl : x = r := by
      rw [root?, climb, if_pos hself] at hr
      exact Option.some.inj hr
    refine ⟨x, sets, ?_, htop, fun _ => rfl, h, rfl, rfl⟩
    simp [find?, hr, shorten]

/-! ## Adding -/

theorem add (h : Forest sets top height) (x : α) : Forest (sets.add x) top height := by
  cases hx : sets.contains x with
  | true => rwa [UnionFind.add, if_pos hx]
  | false =>
    have hself : ∀ {y}, (y == x) = true → item (sets.parentOf y) = item y := fun hyx => by
      rw [item_parentOf_congr (item_eq_iff.2 hyx), parentOf_of_unknown hx, item_eq_iff.2 hyx]
    have hparentOf := item_parentOf_add sets x
    have hknown := contains_add sets x
    refine ⟨fun y hy => ?_, fun y => ?_, fun y => ?_, fun y => ?_, fun y => ?_, fun y => ?_⟩
    · rw [contains_congr (hparentOf y), hknown]
      rw [hknown, Bool.or_eq_true] at hy
      rcases hy with hy | hy
      · rw [item_eq_iff.1 ((hself hy).trans (item_eq_iff.2 hy)), Bool.true_or]
      · rw [h.known_parent y hy, Bool.or_true]
    · rw [hparentOf, h.top_parent]
    · rw [hparentOf]
      exact h.top_root y
    · rw [hparentOf]
      exact h.height_parent y
    · rw [hknown, ← h.ranked, UnionFind.add, if_neg (by simp [hx])]
      exact sets.rank.contains_insert x y 1
    · have hrepresentative : (sets.add x).representative.contains y =
          (y == x || sets.representative.contains y) := by
        rw [UnionFind.add, if_neg (by simp [hx])]
        exact sets.representative.contains_insert x y x
      rw [hrepresentative, hknown, hparentOf]
      cases hyx : y == x with
      | true => simp [hself hyx]
      | false => simpa using h.represented y

/-! ## Merging -/

/-- Hanging one root below another sends the elements of its set to the other root. -/
theorem link (h : Forest sets top height) {c p : α} (hc : sets.contains c = true)
    (hp : sets.contains p = true) (hcroot : item (sets.parentOf c) = item c)
    (hproot : item (sets.parentOf p) = item p) (hne : item c ≠ item p) (chosen : α) :
    ∃ top' height', Forest (sets.link c p chosen) top' height' ∧
      ∀ x, (top (item x) = item c → top' (item x) = item p) ∧
        (top (item x) ≠ item c → top' (item x) = top (item x)) := by
  classical
  have hknown : ∀ y, (sets.link c p chosen).contains y = sets.contains y := by
    intro y
    refine (contains_hang sets c p y).trans ?_
    cases hyc : y == c with
    | false => rfl
    | true => rw [contains_congr (item_eq_iff.2 hyc), hc, Bool.true_or]
  have hparentOf : ∀ y, (sets.link c p chosen).parentOf y =
      if item y = item c then p else sets.parentOf y := by
    intro y
    simp only [item_eq_iff]
    exact parentOf_hang sets c p y
  have hctop := h.top_root c hcroot
  have hptop := h.top_root p hproot
  refine ⟨fun i => if top i = item c then item p else top i,
    fun i => if top i = item c then height i + height (item p) + 1 else height i,
    ⟨fun y hy => ?_, fun y => ?_, fun y hy => ?_, fun y hy => ?_, fun y => ?_, fun y => ?_⟩,
    fun y => ⟨fun hy => if_pos hy, fun hy => if_neg hy⟩⟩
  all_goals simp only [hknown, hparentOf] at *
  · split
    · exact hp
    · exact h.known_parent y hy
  · split
    · rename_i hyc
      rw [hptop, if_neg hne.symm, hyc, if_pos hctop]
    · rw [h.top_parent]
  · split at hy
    · rename_i hyc
      exact (hne (hyc.symm.trans hy.symm)).elim
    · rename_i hyc
      rw [h.top_root y hy, if_neg hyc]
  · split at hy
    · rename_i hyc
      rw [if_pos hyc, hptop, if_neg hne.symm, hyc, if_pos hctop]
      omega
    · rename_i hyc
      have hlt := h.height_parent y hy
      rw [if_neg hyc, h.top_parent]
      split <;> omega
  · have hrank : (sets.link c p chosen).rank.contains y =
        (y == p || sets.rank.contains y) := sets.rank.contains_insert p y _
    rw [hrank, h.ranked]
    cases hyp : y == p with
    | false => rfl
    | true => rw [contains_congr (item_eq_iff.2 hyp), hp, Bool.true_or]
  · have hrepresentative : (sets.link c p chosen).representative.contains y =
        (y == p || (!(y == c) && sets.representative.contains y)) :=
      (Table.contains_insert _ p y chosen).trans
        (congrArg (y == p || ·) (sets.representative.contains_erase c y))
    rw [hrepresentative]
    cases hyp : y == p with
    | true =>
      have hitem := item_eq_iff.2 hyp
      rw [if_neg (fun hyc => hne (hyc.symm.trans hitem)), contains_congr hitem,
        item_parentOf_congr hitem, hitem]
      simp [hp, hproot]
    | false =>
      cases hyc : y == c with
      | true =>
        have hitem := item_eq_iff.2 hyc
        rw [if_pos hitem, hitem]
        simp [hne.symm]
      | false =>
        rw [if_neg (item_ne_iff.2 hyc)]
        simpa using h.represented y

end Forest

end UnionFind

end PolyFront
