import Mathlib.Data.List.Nodup
import Mathlib.Data.List.Perm.Basic
import PolyFront.Naming.Graph

/-!
# Declarations are taken out of their slots

Each step of the grouping moves declarations from the slots to the groups, so that nothing is
lost or taken twice, whatever components the groups are made from.  When no name is in two
components, the table of positions also finds all declarations of a name: the slots are empty
at the names that were asked for and full at all others, which every step keeps.
-/

namespace PolyFront

open scoped List

namespace DeclarationGraph

/-- A declaration of the given name. -/
def declares (name : DeclarationName) (d : Declaration Name) : Bool :=
  d.here.info.declaration? = some name

theorem declares_inj {name other : DeclarationName} {d : Declaration Name}
    (h : declares name d) (h' : declares other d) : name = other := by
  simp only [declares, decide_eq_true_eq] at h h'
  exact Option.some.inj (h.symm.trans h')

end DeclarationGraph

namespace Ungrouped

open DeclarationGraph (declares declares_inj)

variable {n : Nat}

/-- What stands in a list of slots stays the same when one slot is emptied, but for what stood
in it. -/
theorem filterMap_set_none_perm {α : Type} (slots : List (Option α)) (i : Nat)
    (hi : i < slots.length) :
    slots[i].toList ++ (slots.set i none).filterMap id ~ slots.filterMap id := by
  induction slots generalizing i with
  | nil => exact (Nat.not_lt_zero _ hi).elim
  | cons slot slots ih =>
    cases i with
    | zero => cases slot <;> simp
    | succ i =>
      have hrest := ih i (Nat.lt_of_succ_lt_succ hi)
      cases slot with
      | none => simpa using hrest
      | some a =>
        simp only [List.getElem_cons_succ, List.set_cons_succ, List.filterMap_cons, id_eq]
        exact List.perm_middle.trans (hrest.cons a)

@[simp]
theorem remaining_ofList (declarations : List (Declaration Name)) :
    (ofList declarations).remaining = declarations := by
  have hslots : (ofList declarations).declarations.toList = declarations.map some := by
    refine List.ext_getElem (by simp) fun i hi hj => ?_
    simp [ofList]
  rw [remaining, hslots, List.filterMap_map]
  exact List.filterMap_some

theorem take_perm (rest : Ungrouped n) (position : Fin n) :
    (rest.take position).1.toList ++ (rest.take position).2.remaining ~ rest.remaining := by
  have hslot := filterMap_set_none_perm rest.declarations.toList position (by simp)
  rw [Vector.getElem_toList] at hslot
  simp only [take, remaining, Vector.toList_set]
  exact hslot

theorem takeEach_perm (rest : Ungrouped n) (positions : List (Fin n)) :
    (rest.takeEach positions).1 ++ (rest.takeEach positions).2.remaining ~ rest.remaining := by
  induction positions generalizing rest with
  | nil => exact .refl _
  | cons position more ih =>
    simp only [takeEach, List.append_assoc]
    exact ((ih _).append_left _).trans (rest.take_perm position)

theorem takeNamed_perm (rest : Ungrouped n) (name : DeclarationName) :
    (rest.takeNamed name).1 ++ (rest.takeNamed name).2.remaining ~ rest.remaining :=
  takeEach_perm _ _

theorem takeComponent_perm (rest : Ungrouped n) (component : List DeclarationName) :
    (rest.takeComponent component).1 ++ (rest.takeComponent component).2.remaining ~
      rest.remaining := by
  induction component generalizing rest with
  | nil => exact .refl _
  | cons name more ih =>
    simp only [takeComponent, List.append_assoc]
    exact ((ih _).append_left _).trans (rest.takeNamed_perm name)

/-- The groups hold what was not taken before. -/
theorem split_perm (rest : Ungrouped n) (components : List (List DeclarationName)) :
    (rest.split components).flatten ~ rest.remaining := by
  induction components generalizing rest with
  | nil => simp [split]
  | cons component more ih =>
    simp only [split, List.flatten_cons]
    refine ((List.mergeSort_perm _ _).append (ih _)).trans ?_
    exact rest.takeComponent_perm component

@[simp]
theorem positions_takeEach (rest : Ungrouped n) (positions : List (Fin n)) :
    (rest.takeEach positions).2.positions = rest.positions := by
  induction positions generalizing rest with
  | nil => rfl
  | cons position more ih => exact ih _

theorem get_take (rest : Ungrouped n) (position other : Fin n) :
    (rest.take position).2.declarations.get other =
      if other = position then none else rest.declarations.get other := by
  refine (Vector.getElem_set position.isLt other.isLt).trans ?_
  exact if_congr (by rw [Fin.ext_iff, eq_comm]) rfl rfl

theorem get_takeEach_of_not_mem (rest : Ungrouped n) {positions : List (Fin n)} {other : Fin n}
    (h : other ∉ positions) :
    (rest.takeEach positions).2.declarations.get other = rest.declarations.get other := by
  induction positions generalizing rest with
  | nil => rfl
  | cons position more ih =>
    obtain ⟨hposition, hmore⟩ := not_or.1 (mt List.mem_cons.2 h)
    exact (ih _ hmore).trans ((get_take _ _ _).trans (if_neg hposition))

theorem get_takeEach_of_mem (rest : Ungrouped n) {positions : List (Fin n)} {other : Fin n}
    (h : other ∈ positions) : (rest.takeEach positions).2.declarations.get other = none := by
  induction positions generalizing rest with
  | nil => exact (List.not_mem_nil h).elim
  | cons position more ih =>
    by_cases hmore : other ∈ more
    · exact ih _ hmore
    · have hposition := (List.mem_cons.1 h).resolve_right hmore
      exact (get_takeEach_of_not_mem _ hmore).trans ((get_take _ _ _).trans (if_pos hposition))

/-- What is taken stood at the positions, if they are different ones. -/
theorem takeEach_eq (rest : Ungrouped n) {positions : List (Fin n)} (h : positions.Nodup) :
    (rest.takeEach positions).1 = positions.filterMap rest.declarations.get := by
  induction positions generalizing rest with
  | nil => rfl
  | cons position more ih =>
    obtain ⟨hposition, hmore⟩ := List.nodup_cons.1 h
    have hothers : more.filterMap (rest.take position).2.declarations.get =
        more.filterMap rest.declarations.get := by
      refine List.filterMap_congr fun other hother => ?_
      have hne : other ≠ position := fun heq => hposition (heq ▸ hother)
      rw [get_take, if_neg hne]
    simp only [takeEach]
    rw [ih _ hmore, hothers]
    simp only [take, List.filterMap_cons]
    cases rest.declarations.get position <;> rfl

variable {declarations : List (Declaration Name)}

/-- The positions of the declarations of a name. -/
def named (declarations : List (Declaration Name)) (name : DeclarationName) :
    List (Fin declarations.length) :=
  (List.finRange declarations.length).filter fun position =>
    declares name (declarations.get position)

theorem named_nodup (name : DeclarationName) : (named declarations name).Nodup :=
  (List.nodup_finRange _).filter _

theorem mem_named {name : DeclarationName} {position : Fin declarations.length} :
    position ∈ named declarations name ↔ declares name (declarations.get position) := by
  simp [named]

theorem named_map (name : DeclarationName) :
    (named declarations name).map declarations.get = declarations.filter (declares name) := by
  have hall : (List.finRange declarations.length).map declarations.get = declarations :=
    List.map_get_finRange declarations
  conv_rhs => rw [← hall]
  rw [List.filter_map]
  rfl

/-- What is left of a list of declarations when those of some names were taken. -/
structure Left (declarations : List (Declaration Name)) (taken : List DeclarationName)
    (rest : Ungrouped declarations.length) : Prop where
  slots : ∀ position, rest.declarations.get position =
    if taken.any (declares · (declarations.get position)) then none
    else some (declarations.get position)
  positions : ∀ name ∉ taken, (rest.positions.get? name).getD [] = named declarations name

theorem getD_addPosition (positions : Table DeclarationName (List (Fin n)))
    (declaration : Declaration Name) (position : Fin n) (name : DeclarationName) :
    ((addPosition positions declaration position).get? name).getD [] =
      (positions.get? name).getD [] ++ if declares name declaration then [position] else [] := by
  unfold addPosition declares
  cases hname : declaration.here.info.declaration? with
  | none => simp
  | some own =>
    rw [Table.get?_insert]
    by_cases heq : name = own
    · simp [heq]
    · simp [heq, Ne.symm heq]

theorem left_ofList (declarations : List (Declaration Name)) :
    Left declarations [] (ofList declarations) := by
  refine ⟨fun position => Vector.getElem_ofFn position.isLt, fun name _ => ?_⟩
  have hrun : ∀ (more : List (Fin declarations.length))
      (positions : Table DeclarationName (List (Fin declarations.length))),
      ((more.foldl (fun positions position =>
        addPosition positions (declarations.get position) position) positions).get? name).getD [] =
          (positions.get? name).getD [] ++
            more.filter fun position => declares name (declarations.get position) := by
    intro more
    induction more with
    | nil => simp
    | cons position more ih =>
      intro positions
      rw [List.foldl_cons, ih, getD_addPosition, List.filter_cons, List.append_assoc]
      split <;> rfl
  exact hrun _ _

variable {taken : List DeclarationName} {rest : Ungrouped declarations.length}

/-- A name that was not asked for before gives all its declarations. -/
theorem Left.takeNamed (h : Left declarations taken rest) {name : DeclarationName}
    (hname : name ∉ taken) :
    (rest.takeNamed name).1 = declarations.filter (declares name) ∧
      Left declarations (taken ++ [name]) (rest.takeNamed name).2 := by
  unfold Ungrouped.takeNamed
  rw [h.positions name hname]
  refine ⟨?_, fun position => ?_, fun other hother => ?_⟩
  · rw [takeEach_eq _ (named_nodup name), ← named_map]
    rw [← List.filterMap_eq_map]
    refine List.filterMap_congr fun position hposition => ?_
    refine (h.slots position).trans (if_neg ?_)
    rw [List.any_eq_true]
    rintro ⟨other, hother, hdeclares⟩
    exact hname (declares_inj (mem_named.1 hposition) hdeclares ▸ hother)
  · rw [List.any_append, List.any_cons, List.any_nil, Bool.or_false]
    by_cases hposition : declares name (declarations.get position)
    · rw [get_takeEach_of_mem _ (mem_named.2 hposition), hposition, Bool.or_true, if_pos rfl]
    · rw [get_takeEach_of_not_mem _ (mt mem_named.1 hposition), h.slots,
        Bool.eq_false_iff.2 hposition, Bool.or_false]
  · obtain ⟨hother, hne⟩ := not_or.1 (mt List.mem_append.2 hother)
    rw [positions_takeEach, Table.get?_erase, ← h.positions other hother]
    simp [mt List.mem_singleton.2 hne]

/-- The declarations of a component are taken name by name. -/
theorem Left.takeComponent (h : Left declarations taken rest) {component : List DeclarationName}
    (hnodup : (taken ++ component).Nodup) :
    (rest.takeComponent component).1 =
        component.flatMap (fun name => declarations.filter (declares name)) ∧
      Left declarations (taken ++ component) (rest.takeComponent component).2 := by
  induction component generalizing taken rest with
  | nil => simpa using ⟨rfl, h⟩
  | cons name more ih =>
    have hname : name ∉ taken := fun hmem =>
      (List.nodup_append.1 hnodup).2.2 name hmem name List.mem_cons_self rfl
    obtain ⟨hnamed, hleft⟩ := h.takeNamed hname
    rw [List.append_cons] at hnodup ⊢
    obtain ⟨hothers, hend⟩ := ih hleft hnodup
    exact ⟨congrArg₂ (· ++ ·) hnamed hothers, hend⟩

/-- Components that share no name are split into the declarations of each, and those of none. -/
theorem Left.split (h : Left declarations taken rest) {components : List (List DeclarationName)}
    (hnodup : (taken ++ components.flatten).Nodup) :
    rest.split components = components.map (fun component =>
        bySource (component.flatMap fun name => declarations.filter (declares name))) ++
      [declarations.filter fun d => !(taken ++ components.flatten).any (declares · d)] := by
  induction components generalizing taken rest with
  | nil =>
    have hslots : rest.declarations.toList = declarations.map fun d =>
        if taken.any (declares · d) then none else some d := by
      refine List.ext_getElem (by simp) fun i hi _ => ?_
      rw [Vector.length_toList] at hi
      rw [Vector.getElem_toList, List.getElem_map]
      exact h.slots ⟨i, hi⟩
    rw [Ungrouped.split, remaining, hslots, List.filterMap_map]
    simp only [List.map_nil, List.nil_append, List.flatten_nil, List.append_nil]
    rw [← List.filterMap_eq_filter]
    congr 2
    funext d
    rw [Option.guard, Function.comp_apply, id_eq]
    cases taken.any (declares · d) <;> rfl
  | cons component more ih =>
    rw [List.flatten_cons, ← List.append_assoc] at hnodup ⊢
    obtain ⟨hcomponent, hleft⟩ := h.takeComponent (List.nodup_append.1 hnodup).1
    simp only [Ungrouped.split]
    rw [hcomponent, ih hleft hnodup, List.map_cons, List.cons_append]

end Ungrouped

end PolyFront
