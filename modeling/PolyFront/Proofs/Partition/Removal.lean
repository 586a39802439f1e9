import Mathlib.Tactic.Choose
import PolyFront.Proofs.Partition.Forest

/-!
# Removing an element of a forest

What was below a removed element hangs below another element of its set: the root or, when the
root itself is removed, one of its children.  In both cases that element is the root of what is
left, all other sets keep theirs, and no walk has to be followed to see it: one entry of the table
goes and the entries that pointed to it point elsewhere.  Only when the element was alone is there
nothing left to hang.
-/

namespace PolyFront

theorem mapM_eq_some {α β : Type} {f : α → Option β} {g : α → β} {items : List α}
    (h : ∀ a ∈ items, f a = some (g a)) : items.mapM f = some (items.map g) := by
  induction items with
  | nil => rfl
  | cons first rest ih =>
    rw [List.mapM_cons, h first List.mem_cons_self, ih fun a ha => h a (List.mem_cons_of_mem _ ha)]
    rfl

namespace Table

variable {κ ν : Type} [BEq κ] [EquivBEq κ]

/-- What a table without repeated keys binds a key to. -/
theorem get?_eq_some_iff {table : Table κ ν} (h : Distinct table.keys) {key : κ} {value : ν} :
    table.get? key = some value ↔ ∃ entry ∈ table.entries, item key = item entry.1 ∧
      entry.2 = value := by
  obtain ⟨entries⟩ := table
  simp only [get?, keys, item_eq_iff] at h ⊢
  induction entries with
  | nil => simp
  | cons entry rest ih =>
    obtain ⟨hfirst, hrest⟩ := List.pairwise_cons.1 h
    rw [List.lookup_cons]
    cases hkey : key == entry.1 with
    | false => simp [hkey, ih hrest]
    | true =>
      simp only [Option.some.injEq, List.mem_cons, exists_eq_or_imp, hkey, true_and]
      refine (or_iff_left ?_).symm
      rintro ⟨other, hother, hbeq, -⟩
      have happrt := hfirst other.1 (List.mem_map_of_mem hother)
      rw [BEq.trans (BEq.symm hkey) hbeq] at happrt
      cases happrt

omit [EquivBEq κ] in
theorem keys_erase (table : Table κ ν) (key : κ) :
    (table.erase key).keys = table.keys.filter fun other => !(key == other) := by
  rw [keys, keys, erase, List.filter_map]
  rfl

end Table

namespace UnionFind

variable {α : Type} [BEq α] [EquivBEq α] {sets : UnionFind α}

/-! ## The children of a removed element -/

/-- The elements below another one, found by visiting all entries. -/
theorem contains_childrenOf (order : Iteration α) (hkeys : Distinct sets.elements) {x y : α} :
    (sets.childrenOf order x).contains y = true ↔
      item y ≠ item x ∧ ∃ p, sets.parent.get? y = some p ∧ item p = item x := by
  rw [List.contains_iff_exists_mem_beq]
  simp only [childrenOf, List.mem_map, List.mem_filter, (order.entries_perm _).mem_iff,
    Bool.and_eq_true, Bool.not_eq_true']
  constructor
  · rintro ⟨child, ⟨entry, ⟨hentry, hvalue, hne⟩, rfl⟩, hbeq⟩
    have hitem := item_eq_iff.2 hbeq
    refine ⟨by rwa [hitem, item_ne_iff], entry.2, ?_, item_eq_iff.2 hvalue⟩
    exact (Table.get?_eq_some_iff hkeys).2 ⟨entry, hentry, hitem, rfl⟩
  · rintro ⟨hne, p, hget, hpx⟩
    obtain ⟨entry, hentry, hitem, rfl⟩ := (Table.get?_eq_some_iff hkeys).1 hget
    refine ⟨entry.1, ⟨entry, ⟨hentry, item_eq_iff.1 hpx, ?_⟩, rfl⟩, item_eq_iff.1 hitem⟩
    rwa [← item_ne_iff, ← hitem]

theorem get?_hangAll (sets : UnionFind α) (children : List α) (root y : α) :
    (sets.hangAll children root).parent.get? y =
      if children.contains y then some root else sets.parent.get? y := by
  induction children generalizing sets with
  | nil => rfl
  | cons child rest ih =>
    refine (ih (sets.hang child root)).trans ?_
    rw [hang, Table.get?_insert, List.contains_cons]
    cases y == child <;> cases rest.contains y <;> rfl

omit [EquivBEq α] in
theorem hangAll_others (sets : UnionFind α) (children : List α) (root : α) :
    (sets.hangAll children root).rank = sets.rank ∧
      (sets.hangAll children root).representative = sets.representative := by
  induction children generalizing sets with
  | nil => exact ⟨rfl, rfl⟩
  | cons child rest ih => exact ih (sets.hang child root)

theorem elements_hangAll {children : List α} (h : ∀ c ∈ children, sets.contains c = true)
    (root : α) : (sets.hangAll children root).elements = sets.elements := by
  induction children generalizing sets with
  | nil => rfl
  | cons child rest ih =>
    have hhang := elements_hang (h child List.mem_cons_self) root
    refine (ih fun c hc => ?_).trans hhang
    rw [contains_hang, h c (List.mem_cons_of_mem _ hc), Bool.or_true]

omit [EquivBEq α] in
/-- A promotion differs from any other way of hanging elements below a root in the ranks. -/
theorem promote_parent (sets : UnionFind α) (children : List α) (root : α) :
    (sets.promote children root).parent = (sets.hangAll children root).parent ∧
      (sets.promote children root).representative = sets.representative := by
  have hranks : ∀ (left right : UnionFind α), left.parent = right.parent →
      left.representative = sets.representative →
        (left.promote children root).parent = (right.hangAll children root).parent ∧
          (left.promote children root).representative = sets.representative := by
    induction children with
    | nil => exact fun left right hparent hrest => ⟨hparent, hrest⟩
    | cons child rest ih =>
      intro left right hparent hrest
      rw [promote, hangAll, List.foldl_cons, List.foldl_cons]
      refine ih _ _ ?_ ?_
      · cases child == root <;> simp [hang, hparent]
      · cases child == root <;> simp [hang, hrest]
  exact hranks sets sets rfl rfl

theorem contains_rank_promote {children : List α} {root : α}
    (h : sets.rank.contains root = true) (y : α) :
    (sets.promote children root).rank.contains y = sets.rank.contains y := by
  induction children generalizing sets with
  | nil => rfl
  | cons child rest ih =>
    rw [promote, List.foldl_cons]
    cases hchild : child == root with
    | true => exact ih h
    | false =>
      have hstep : ∀ z, (sets.rank.insert root ((sets.hang child root).rankOf root +
          (sets.hang child root).rankOf child)).contains z = sets.rank.contains z := by
        intro z
        rw [Table.contains_insert]
        cases hzr : z == root with
        | false => rfl
        | true => rw [Table.contains_congr (item_eq_iff.2 hzr), h, Bool.true_or]
      exact (ih (hstep root ▸ h)).trans (hstep y)

omit [EquivBEq α] in
theorem heaviest?_mem {items : List α} {best : α} (h : sets.heaviest? items = some best) :
    best ∈ items := by
  induction items generalizing best with
  | nil => cases h
  | cons first rest ih =>
    rw [heaviest?] at h
    split at h
    · exact Option.some.inj h ▸ List.mem_cons_self
    · rename_i other hother
      split at h
      · exact Option.some.inj h ▸ List.mem_cons_self
      · exact List.mem_cons_of_mem _ (ih (hother.trans h))

omit [EquivBEq α] in
theorem heaviest?_none {items : List α} (h : sets.heaviest? items = none) : items = [] := by
  cases items with
  | nil => rfl
  | cons first rest =>
    rw [heaviest?] at h
    split at h
    · cases h
    · split at h <;> cases h

omit [EquivBEq α] in
theorem inherit_eq {old new representative : α}
    (h : sets.representative.get? old = some representative) :
    sets.inherit old new = { sets with
      representative := (sets.representative.erase old).insert new representative } := by
  rw [inherit, h]

/-- The tables once an element is taken out: what was below it hangs below a successor, which has
a representative. -/
structure Spliced (sets rest : UnionFind α) (x t : α) : Prop where
  parent : ∀ y, rest.parent.get? y =
    if y == x then none else (sets.parent.get? y).map fun p => if p == x then t else p
  rank : ∀ y, rest.rank.contains y = (!(y == x) && sets.rank.contains y)
  representative : ∀ y, rest.representative.contains y =
    (y == t || (!(y == x) && sets.representative.contains y))

namespace Spliced

variable {rest : UnionFind α} {x t : α}

omit [EquivBEq α] in
theorem known (h : Spliced sets rest x t) (y : α) :
    rest.contains y = (!(y == x) && sets.contains y) := by
  rw [contains, Table.contains, h.parent]
  cases y == x <;> simp [contains, Table.contains]

theorem gone (h : Spliced sets rest x t) (y : α) (hyx : item y = item x) :
    item (rest.parentOf y) = item x := by
  rw [parentOf, h.parent, if_pos (item_eq_iff.1 hyx)]
  exact hyx

theorem child (h : Spliced sets rest x t) (y : α) (hyx : item y ≠ item x)
    (hpx : item (sets.parentOf y) = item x) : item (rest.parentOf y) = item t := by
  rw [parentOf] at hpx
  rw [parentOf, h.parent, if_neg (by simp [item_ne_iff.1 hyx])]
  cases hget : sets.parent.get? y with
  | none =>
    rw [hget] at hpx
    exact (hyx hpx).elim
  | some p =>
    rw [hget, Option.getD_some] at hpx
    simp [item_eq_iff.1 hpx]

theorem same (h : Spliced sets rest x t) (y : α) (hyx : item y ≠ item x)
    (hpx : item (sets.parentOf y) ≠ item x) :
    item (rest.parentOf y) = item (sets.parentOf y) := by
  rw [parentOf] at hpx
  rw [parentOf, parentOf, h.parent, if_neg (by simp [item_ne_iff.1 hyx])]
  cases hget : sets.parent.get? y with
  | none => rfl
  | some p =>
    rw [hget, Option.getD_some] at hpx
    simp [item_ne_iff.1 hpx]

/-- Hanging the children of a discarded element below the successor splices it out. -/
theorem of_children (order : Iteration α) (hkeys : Distinct sets.elements)
    (hparent : rest.parent = ((sets.discard x).hangAll (sets.childrenOf order x) t).parent)
    (hrank : ∀ y, rest.rank.contains y = (!(y == x) && sets.rank.contains y))
    (hrepresentative : ∀ y, rest.representative.contains y =
      (y == t || (!(y == x) && sets.representative.contains y))) : Spliced sets rest x t := by
  refine ⟨fun y => ?_, hrank, hrepresentative⟩
  rw [hparent, get?_hangAll, discard, Table.get?_erase]
  by_cases hyx : (y == x) = true
  · have hnot : ¬(sets.childrenOf order x).contains y = true := fun hchild =>
      ((contains_childrenOf order hkeys).1 hchild).1 (item_eq_iff.2 hyx)
    rw [if_neg hnot, if_pos hyx, if_pos hyx]
  · have hne : item y ≠ item x := fun hitem => hyx (item_eq_iff.1 hitem)
    rw [if_neg hyx, if_neg hyx]
    cases hget : sets.parent.get? y with
    | none =>
      have hnot : ¬(sets.childrenOf order x).contains y = true := fun hchild => by
        obtain ⟨-, p, hp, -⟩ := (contains_childrenOf order hkeys).1 hchild
        rw [hget] at hp
        cases hp
      rw [if_neg hnot, Option.map_none]
    | some p =>
      have hchild : (sets.childrenOf order x).contains y = true ↔ (p == x) = true := by
        rw [contains_childrenOf order hkeys, hget, ← item_eq_iff]
        simp [hne]
      rw [Option.map_some]
      by_cases hpx : (p == x) = true
      · rw [if_pos (hchild.2 hpx), if_pos hpx]
      · rw [if_neg (fun hhas => hpx (hchild.1 hhas)), if_neg hpx]

end Spliced

omit [EquivBEq α] in
theorem elements_discard (sets : UnionFind α) (element : α) :
    (sets.discard element).elements = sets.elements.filter fun y => !(element == y) :=
  sets.parent.keys_erase element

/-- The children of an element are left when it is discarded. -/
theorem contains_discard_of_child (order : Iteration α) (hkeys : Distinct sets.elements) {x : α} :
    ∀ c ∈ sets.childrenOf order x, (sets.discard x).contains c = true := by
  intro c hc
  obtain ⟨hne, p, hp, -⟩ := (contains_childrenOf order hkeys).1
    (List.contains_iff_exists_mem_beq.2 ⟨c, hc, BEq.refl c⟩)
  rw [contains, discard, Table.contains_erase, item_ne_iff.1 hne, Table.contains, hp]
  rfl

namespace Forest

variable {top : Item α → Item α} {height : Item α → Nat}

/-! ## The roots that are left -/

/-- What was below the removed element hangs below another element of its set, the root or, when
the root is removed, one of its children. The other element is the root of the set from then on. -/
theorem splice (h : Forest sets top height) {rest : UnionFind α} {x t : α}
    (hspliced : Spliced sets rest x t) (ht : sets.contains t = true) (hne : item t ≠ item x)
    (hwhere : item t = top (item x) ∨
      top (item x) = item x ∧ item (sets.parentOf t) = item x) :
    ∃ top' height', Forest rest top' height' ∧ ∀ y, item y ≠ item x →
      (top (item y) = top (item x) → top' (item y) = item t) ∧
        (top (item y) ≠ top (item x) → top' (item y) = top (item y)) := by
  classical
  have htop : top (item t) = top (item x) := by
    rcases hwhere with hroot | ⟨-, hbelow⟩
    · rw [hroot, h.top_top]
    · rw [← h.top_parent t, hbelow]
  -- The successor is a root from then on, whether it was one before or not.
  have hsuccessor : item (rest.parentOf t) = item t := by
    rcases hwhere with hroot | ⟨-, hbelow⟩
    · have hself : item (sets.parentOf t) = item t := (h.top_eq_iff t).1 (by rw [htop, hroot])
      rw [hspliced.same t hne (by rwa [hself]), hself]
    · exact hspliced.child t hne hbelow
  have hroot : ∀ y, item y ≠ item x → item y = top (item x) → item y = item t := by
    intro y hyx hy
    rcases hwhere with hroot | ⟨hxroot, -⟩
    · rw [hy, hroot]
    · exact (hyx (hy.trans hxroot)).elim
  have hapart : ∀ y, top (item y) ≠ top (item x) → top (item y) ≠ item x := by
    intro y hy heq
    have hself := h.top_top y
    rw [heq] at hself
    exact hy (heq.trans hself.symm)
  obtain ⟨top', hself, hjoined, hkept⟩ : ∃ top' : Item α → Item α, top' (item x) = item x ∧
      (∀ y, item y ≠ item x → top (item y) = top (item x) → top' (item y) = item t) ∧
        ∀ y, item y ≠ item x → top (item y) ≠ top (item x) → top' (item y) = top (item y) := by
    refine ⟨fun i => if i = item x then item x else if top i = top (item x) then item t
      else top i, if_pos rfl, fun y hy htopy => ?_, fun y hy htopy => ?_⟩
    · simp [hy, htopy]
    · simp [hy, htopy]
  obtain ⟨height', hzero, hsucc⟩ : ∃ height' : Item α → Nat, height' (item t) = 0 ∧
      ∀ y, item y ≠ item t → height' (item y) = height (item y) + 1 :=
    ⟨fun i => if i = item t then 0 else height i + 1, if_pos rfl, fun y hy => if_neg hy⟩
  refine ⟨top', height', ⟨fun y hy => ?_, fun y => ?_, fun y hy => ?_, fun y hy => ?_,
    fun y => ?_, fun y => ?_⟩, fun y hy => ⟨hjoined y hy, hkept y hy⟩⟩
  · rw [hspliced.known, Bool.and_eq_true, Bool.not_eq_true', ← item_ne_iff] at hy
    by_cases hpx : item (sets.parentOf y) = item x
    · rw [contains_congr (hspliced.child y hy.1 hpx), hspliced.known, item_ne_iff.1 hne, ht]
      rfl
    · rw [contains_congr (hspliced.same y hy.1 hpx), hspliced.known, item_ne_iff.1 hpx,
          h.known_parent y hy.2]
      rfl
  · by_cases hyx : item y = item x
    · rw [hspliced.gone y hyx, hyx]
    · by_cases hpx : item (sets.parentOf y) = item x
      · have htopy : top (item y) = top (item x) := by rw [← h.top_parent y, hpx]
        rw [hspliced.child y hyx hpx, hjoined t hne htop, hjoined y hyx htopy]
      · rw [hspliced.same y hyx hpx]
        have hp := h.top_parent y
        by_cases htopy : top (item y) = top (item x)
        · rw [hjoined y hyx htopy, hjoined _ hpx (hp.trans htopy)]
        · rw [hkept y hyx htopy, hkept _ hpx (by rwa [hp]), hp]
  · by_cases hyx : item y = item x
    · rw [hyx, hself]
    · by_cases hpx : item (sets.parentOf y) = item x
      · rw [hjoined y hyx (by rw [← h.top_parent y, hpx]), ← hspliced.child y hyx hpx, hy]
      · have hyroot := h.top_root y ((hspliced.same y hyx hpx).symm.trans hy)
        by_cases htopy : top (item y) = top (item x)
        · rw [hjoined y hyx htopy, hroot y hyx (hyroot.symm.trans htopy)]
        · rw [hkept y hyx htopy, hyroot]
  · by_cases hyx : item y = item x
    · exact (hy ((hspliced.gone y hyx).trans hyx.symm)).elim
    · have hyt : item y ≠ item t := by
        intro heq
        rw [item_parentOf_congr heq, heq] at hy
        exact hy hsuccessor
      rw [hsucc y hyt]
      by_cases hpx : item (sets.parentOf y) = item x
      · rw [hspliced.child y hyx hpx, hzero]
        omega
      · rw [hspliced.same y hyx hpx] at hy ⊢
        have hlt := h.height_parent y hy
        by_cases hpt : item (sets.parentOf y) = item t
        · rw [hpt, hzero]
          omega
        · rw [hsucc _ hpt]
          omega
  · rw [hspliced.rank, hspliced.known, h.ranked]
  · rw [hspliced.representative, hspliced.known]
    by_cases hyt : item y = item t
    · have hyx : item y ≠ item x := hyt ▸ hne
      rw [item_eq_iff.1 hyt, item_ne_iff.1 hyx, contains_congr hyt, ht, item_parentOf_congr hyt,
        hyt]
      simp [hsuccessor]
    · rw [item_ne_iff.1 hyt]
      by_cases hyx : item y = item x
      · simp [item_eq_iff.1 hyx]
      · rw [item_ne_iff.1 hyx]
        simp only [Bool.false_or, Bool.not_false, Bool.true_and]
        refine (h.represented y).trans (and_congr_right fun _ => ?_)
        by_cases hpx : item (sets.parentOf y) = item x
        · rw [hspliced.child y hyx hpx, hpx]
          exact iff_of_false (fun heq => hyx heq.symm) (fun heq => hyt heq.symm)
        · rw [hspliced.same y hyx hpx]

/-! ## Visiting all elements -/

/-- The elements below a root, found in the order in which all elements are visited. -/
theorem members?_eq (h : Forest sets top height) (order : Iteration α) {r : α}
    {test : α → Bool} (htest : ∀ x, test x = true ↔ top (item x) = item r) :
    sets.members? order r = some ((order.keys sets.elements).filter test) := by
  choose root hroot htop _ _ using h.root?_eq
  have hmap : ((order.keys sets.elements).mapM fun x => do return (x, ← sets.root? x)) =
      some ((order.keys sets.elements).map fun x => (x, root x)) :=
    mapM_eq_some fun x _ => by simp [hroot]
  rw [members?, hmap]
  have hsame : ∀ x, (root x == r) = test x := fun x => by
    rw [Bool.eq_iff_iff, htest, ← htop, item_eq_iff]
  simp [List.filter_map, Function.comp_def, hsame]

theorem representatives?_eq (h : Forest sets top height) (order : Iteration α) :
    ∃ root : α → α, (∀ x, item (root x) = top (item x)) ∧ sets.representatives? order =
      some (((order.keys sets.elements).map fun x =>
          sets.representativeOf (root x)).eraseDups) := by
  choose root hroot htop _ _ using h.root?_eq
  refine ⟨root, htop, ?_⟩
  rw [representatives?, mapM_eq_some fun x _ => hroot x]
  simp [Function.comp_def]

/-! ## The representative that is left -/

/-- A root may be given any representative. -/
theorem represent (h : Forest sets top height) {r : α} (hr : sets.contains r = true)
    (hroot : item (sets.parentOf r) = item r) (representative : α) :
    Forest { sets with representative := sets.representative.insert r representative }
      top height := by
  refine ⟨h.known_parent, h.top_parent, h.top_root, h.height_parent, h.ranked, fun y => ?_⟩
  rw [Table.contains_insert, Bool.or_eq_true]
  refine ⟨fun hy => ?_, fun hy => .inr ((h.represented y).2 hy)⟩
  rcases hy with hyr | hy
  · have hitem := item_eq_iff.2 hyr
    exact ⟨(contains_congr hitem).trans hr, (item_parentOf_congr hitem).trans
      (hroot.trans hitem.symm)⟩
  · exact (h.represented y).1 hy

/-- A representative stays unless it was removed; then another one is picked from the elements
below the root, in the order in which they are visited. -/
theorem replace?_eq (h : Forest sets top height) (order : Iteration α) (pick : α → α → α)
    (removed : α) {r old : α} (hr : sets.contains r = true)
    (hroot : item (sets.parentOf r) = item r) (hold : sets.representative.get? r = some old) :
    ∃ after, sets.replace? order pick removed r = some after ∧
      after.elements = sets.elements ∧ Forest after top height ∧
      (∀ y, item y ≠ item r → after.representative.get? y = sets.representative.get? y) ∧
      ((old == removed) = false ∧ after.representative.get? r = some old ∨
        (old == removed) = true ∧ ∀ test : α → Bool,
          (∀ y, test y = true ↔ top (item y) = item r) → ∃ first rest,
            (order.keys after.elements).filter test = first :: rest ∧
              after.representative.get? r = some (rest.foldl pick first)) := by
  classical
  cases hgone : old == removed with
  | false =>
    exact ⟨sets, by simp [replace?, hold, hgone], rfl, h, fun _ _ => rfl, .inl ⟨rfl, hold⟩⟩
  | true =>
    have hmembers : sets.members? order r = some ((order.keys sets.elements).filter
        fun y => decide (top (item y) = item r)) :=
      h.members?_eq order fun y => decide_eq_true_iff
    -- The root is one of the elements, so the list of them is not empty.
    obtain ⟨first, rest, hlist⟩ : ∃ first rest, (order.keys sets.elements).filter
        (fun y => decide (top (item y) = item r)) = first :: rest := by
      rw [contains_eq] at hr
      obtain ⟨key, hkey, hbeq⟩ := exists_of_contains hr
      have hmem : key ∈ (order.keys sets.elements).filter
          (fun y => decide (top (item y) = item r)) := by
        refine List.mem_filter.2 ⟨(order.keys_perm _).mem_iff.2 hkey, decide_eq_true ?_⟩
        rw [← item_eq_iff.2 hbeq, h.top_root r hroot]
      exact List.exists_cons_of_ne_nil (List.ne_nil_of_mem hmem)
    refine ⟨{ sets with representative := sets.representative.insert r (rest.foldl pick first) },
      by simp [replace?, hold, hgone, hmembers, hlist], rfl, h.represent hr hroot _,
      fun y hy => ?_, .inr ⟨rfl, fun test htest => ⟨first, rest, ?_, ?_⟩⟩⟩
    · exact (Table.get?_insert _ _ _ _).trans (if_neg (by simp [item_ne_iff.1 hy]))
    · rw [← hlist]
      refine congrArg (fun test => (order.keys sets.elements).filter test) (funext fun y => ?_)
      rw [Bool.eq_iff_iff, htest, decide_eq_true_iff]
    · exact (Table.get?_insert _ _ _ _).trans (if_pos (BEq.refl r))

/-! ## The removal -/

/-- Another element of the set of a root is below a child of it. -/
theorem exists_child (h : Forest sets top height) {x y : α} (htop : top (item y) = item x)
    (hne : item y ≠ item x) :
    ∃ z, sets.contains z = true ∧ item z ≠ item x ∧ item (sets.parentOf z) = item x := by
  induction hsize : height (item y) using Nat.strongRecOn generalizing y with
  | ind size ih =>
    have hnotRoot : item (sets.parentOf y) ≠ item y := fun hself =>
      hne ((h.top_root y hself).symm.trans htop)
    by_cases hpx : item (sets.parentOf y) = item x
    · refine ⟨y, ?_, hne, hpx⟩
      rw [← Bool.not_eq_false]
      exact fun hunknown => hnotRoot (by rw [parentOf_of_unknown hunknown])
    · exact ih _ (hsize ▸ h.height_parent y hnotRoot) ((h.top_parent y).trans htop) hpx rfl

end Forest

/-- What a removal leaves of the set of an element: nothing when the element was alone, and else
the rest of it below a successor. -/
inductive Leaves (order : Iteration α) (pick : α → α → α) (sets after : UnionFind α) (x : α)
    (top top' : Item α → Item α) : Prop
  | nothing
      (alone : ∀ y, sets.contains y = true → top (item y) = top (item x) → item y = item x)
      (kept : ∀ y, item y ≠ item x → top' (item y) = top (item y))
      (others : ∀ r, item r ≠ item x →
        after.representative.get? r = sets.representative.get? r)
  | successor (t old : α) (known : sets.contains t = true) (ne : item t ≠ item x)
      (within : top (item t) = top (item x))
      (joined : ∀ y, item y ≠ item x → top (item y) = top (item x) → top' (item y) = item t)
      (kept : ∀ y, item y ≠ item x → top (item y) ≠ top (item x) →
        top' (item y) = top (item y))
      (others : ∀ r, item r ≠ item x → item r ≠ item t →
        after.representative.get? r = sets.representative.get? r)
      (before : ∀ r, item r = top (item x) → sets.representative.get? r = some old)
      (representative : (old == x) = false ∧ after.representative.get? t = some old ∨
        (old == x) = true ∧ ∀ test : α → Bool,
          (∀ y, test y = true ↔ top' (item y) = item t) → ∃ first rest,
            (order.keys after.elements).filter test = first :: rest ∧
              after.representative.get? t = some (rest.foldl pick first))

namespace Forest

variable {top : Item α → Item α} {height : Item α → Nat}

/-- A root without children can be taken out of all tables. -/
theorem drop (h : Forest sets top height) {x : α} (hxroot : top (item x) = item x)
    (hchildless : ∀ y, sets.contains y = true → item y ≠ item x →
      item (sets.parentOf y) ≠ item x) :
    Forest { sets.discard x with representative := sets.representative.erase x }
      top height := by
  have hknown : ∀ y, ({ sets.discard x with
      representative := sets.representative.erase x } : UnionFind α).contains y =
        (!(y == x) && sets.contains y) := sets.parent.contains_erase x
  have hparentOf : ∀ y, item (({ sets.discard x with
      representative := sets.representative.erase x } : UnionFind α).parentOf y) =
        item (sets.parentOf y) := by
    intro y
    rw [parentOf, discard, Table.get?_erase]
    split
    · rename_i hyx
      have hitem := item_eq_iff.2 hyx
      rw [item_parentOf_congr hitem, (h.top_eq_iff x).1 hxroot, ← hitem]
      rfl
    · rfl
  refine ⟨fun y hy => ?_, fun y => ?_, fun y => ?_, fun y => ?_, fun y => ?_, fun y => ?_⟩
  · rw [hknown, Bool.and_eq_true, Bool.not_eq_true', ← item_ne_iff] at hy
    rw [contains_congr (hparentOf y), hknown, h.known_parent y hy.2,
      item_ne_iff.1 (hchildless y hy.2 hy.1)]
    rfl
  · rw [hparentOf, h.top_parent]
  · rw [hparentOf]
    exact h.top_root y
  · rw [hparentOf]
    exact h.height_parent y
  · rw [hknown, ← h.ranked]
    exact sets.rank.contains_erase x y
  · rw [hknown, hparentOf, Table.contains_erase]
    cases y == x with
    | true => simp
    | false => simpa using h.represented y

/-- Once the children of an element hang below its successor, a representative is found. -/
theorem replace?_spliced (h : Forest sets top height) (order : Iteration α)
    (pick : α → α → α) {rest : UnionFind α} {x t old : α} (hspliced : Spliced sets rest x t)
    (ht : sets.contains t = true) (hne : item t ≠ item x)
    (hwhere : item t = top (item x) ∨
      top (item x) = item x ∧ item (sets.parentOf t) = item x)
    (hbefore : ∀ s, item s = top (item x) → sets.representative.get? s = some old)
    (hold : rest.representative.get? t = some old)
    (hothers : ∀ s, item s ≠ item x → item s ≠ item t →
      rest.representative.get? s = sets.representative.get? s) :
    ∃ after, rest.replace? order pick x t = some after ∧ after.elements = rest.elements ∧
      ∃ top' height', Forest after top' height' ∧
        Leaves order pick sets after x top top' := by
  obtain ⟨top', height', hforest, hroots⟩ := h.splice hspliced ht hne hwhere
  have hwithin : top (item t) = top (item x) := by
    rcases hwhere with hroot | ⟨-, hbelow⟩
    · rw [hroot, h.top_top]
    · rw [← h.top_parent t, hbelow]
  have hself := (hforest.top_eq_iff t).1 ((hroots t hne).1 hwithin)
  have hknown : rest.contains t = true := by
    rw [hspliced.known, ht, item_ne_iff.1 hne]
    rfl
  obtain ⟨after, hafter, helements, hagain, hsame, hnew⟩ :=
    hforest.replace?_eq order pick x hknown hself hold
  refine ⟨after, hafter, helements, top', height', hagain,
    .successor t old ht hne hwithin (fun y hy => (hroots y hy).1) (fun y hy => (hroots y hy).2)
      (fun s hsx hst => (hsame s hst).trans (hothers s hsx hst)) hbefore hnew⟩

/-- Removing an element always has a result, which is a forest again. -/
theorem remove?_eq (h : Forest sets top height) (order : Iteration α)
    (hkeys : Distinct sets.elements) (pick : α → α → α) {x : α} (hx : sets.contains x = true) :
    ∃ after, sets.remove? order x pick = some after ∧
      after.elements = sets.elements.filter (fun y => !(x == y)) ∧
      ∃ top' height', Forest after top' height' ∧
        Leaves order pick sets after x top top' := by
  obtain ⟨r, hr, htop, hroot, hknown⟩ := h.root?_eq x
  rw [hx] at hknown
  have hchildren := contains_discard_of_child order hkeys (x := x)
  obtain ⟨old, hold⟩ := Option.isSome_iff_exists.1 ((h.represented r).2 ⟨hknown, hroot⟩)
  have hbefore : ∀ s, item s = top (item x) → sets.representative.get? s = some old :=
    fun s hs => (Table.get?_congr (hs.trans htop.symm)).trans hold
  have hranks : ∀ y, (sets.discard x).rank.contains y =
      (!(y == x) && sets.rank.contains y) := sets.rank.contains_erase x
  by_cases hrx : (r == x) = true
  · have hxroot : top (item x) = item x := htop.symm.trans (item_eq_iff.2 hrx)
    cases hheaviest : (sets.discard x).heaviest? (sets.childrenOf order x) with
    | none =>
      have hnone := heaviest?_none hheaviest
      have hchildless : ∀ y, sets.contains y = true → item y ≠ item x →
          item (sets.parentOf y) ≠ item x := by
        intro y hy hyx hpx
        obtain ⟨p, hp⟩ := Option.isSome_iff_exists.1 hy
        have hchild := (contains_childrenOf order hkeys).2 ⟨hyx, p, hp, by
          rwa [parentOf, hp] at hpx⟩
        rw [hnone] at hchild
        cases hchild
      refine ⟨{ sets.discard x with representative := sets.representative.erase x }, ?_,
        elements_discard sets x, top, height, h.drop hxroot hchildless, .nothing ?_ ?_ ?_⟩
      · simp [remove?, hx, hr, hrx, hheaviest]
        rfl
      · intro y hy htopy
        by_contra hyx
        obtain ⟨z, hz, hzx, hpx⟩ := h.exists_child (htopy.trans hxroot) hyx
        exact hchildless z hz hzx hpx
      · exact fun _ _ => rfl
      · intro s hs
        exact (Table.get?_erase _ _ _).trans (if_neg (by simp [item_ne_iff.1 hs]))
    | some t =>
      have hmem := heaviest?_mem hheaviest
      obtain ⟨hne, p, hp, hpx⟩ := (contains_childrenOf order hkeys).1
        (List.contains_iff_exists_mem_beq.2 ⟨t, hmem, BEq.refl t⟩)
      have ht : sets.contains t = true := Option.isSome_iff_exists.2 ⟨p, hp⟩
      have hbelow : item (sets.parentOf t) = item x := by rw [parentOf, hp]; exact hpx
      obtain ⟨hparent, hrepresentative⟩ :=
        promote_parent (sets.discard x) (sets.childrenOf order x) t
      have hinherit : ((sets.discard x).promote (sets.childrenOf order x) t).inherit x t = _ :=
        inherit_eq (hrepresentative ▸ hbefore x hxroot.symm)
      rw [hrepresentative] at hinherit
      have hspliced : Spliced sets (((sets.discard x).promote
          (sets.childrenOf order x) t).inherit x t) x t := by
        rw [hinherit]
        refine .of_children order hkeys hparent (fun y => ?_) (fun y => ?_)
        · refine (contains_rank_promote ?_ y).trans (hranks y)
          rw [hranks, h.ranked, ht, item_ne_iff.1 hne]
          rfl
        · exact (Table.contains_insert _ t y old).trans
            (congrArg (y == t || ·) (sets.representative.contains_erase x y))
      obtain ⟨after, hafter, helements, hrest⟩ := h.replace?_spliced order pick hspliced ht hne
        (.inr ⟨hxroot, hbelow⟩) hbefore
        (by rw [hinherit]; exact (Table.get?_insert _ _ _ _).trans (if_pos (BEq.refl t)))
        (fun s hsx hst => by
          rw [hinherit]
          refine (Table.get?_insert _ _ _ _).trans ((if_neg (by simp [item_ne_iff.1 hst])).trans ?_)
          exact (Table.get?_erase _ _ _).trans (if_neg (by simp [item_ne_iff.1 hsx])))
      refine ⟨after, ?_, ?_, hrest⟩
      · simp [remove?, hx, hr, hrx, hheaviest, hafter]
      · rw [helements, hinherit, elements, hparent, ← elements, elements_hangAll hchildren,
          elements_discard]
  · have hne : item r ≠ item x := fun heq => hrx (item_eq_iff.1 heq)
    obtain ⟨hrank, hrepresentative⟩ :=
      hangAll_others (sets.discard x) (sets.childrenOf order x) r
    have hnotRoot : ¬sets.representative.contains x = true := fun hhas =>
      hne (htop.trans (h.top_root x ((h.represented x).1 hhas).2))
    have hspliced : Spliced sets ((sets.discard x).hangAll (sets.childrenOf order x) r) x r := by
      refine .of_children order hkeys rfl (fun y => by rw [hrank, hranks]) (fun y => ?_)
      rw [hrepresentative]
      change sets.representative.contains y = _
      cases hyr : y == r with
      | true =>
        rw [Table.contains_congr (item_eq_iff.2 hyr), (h.represented r).2 ⟨hknown, hroot⟩]
        rfl
      | false =>
        cases hyx : y == x with
        | true => simpa [Table.contains_congr (item_eq_iff.2 hyx)] using hnotRoot
        | false => rfl
    obtain ⟨after, hafter, helements, hrest⟩ := h.replace?_spliced order pick hspliced hknown hne
      (.inl htop) hbefore (by rw [hrepresentative]; exact hold)
      (fun s _ _ => by rw [hrepresentative]; rfl)
    refine ⟨after, ?_, ?_, hrest⟩
    · simp [remove?, hx, hr, hrx, hafter]
    · rw [helements, elements_hangAll hchildren, elements_discard]

end Forest

end UnionFind

end PolyFront
