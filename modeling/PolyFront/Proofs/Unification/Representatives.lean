import Mathlib.Data.Prod.Lex
import Mathlib.Data.Sym.Sym2
import PolyFront.Proofs.Unification.Merging

/-!
# Representatives of connected variables

Pairs of variables are solved one after the other.  As long as nothing else is solved, the
solutions are a partition of the variables into the components that the pairs connect, and closing
them changes nothing.  A merge picks the variable that is registered further out or, in one frame,
has the lower id, which is the least of two in a linear order of places.  So a component is
represented by the least of all its members, and neither the order of the pairs nor which variable
of a pair comes first has a part in it.
-/

namespace PolyFront

/-! ## Components -/

section Components

variable {β : Type} [LinearOrder β] {place : Nat → β} {pairs steps : List (Nat × Nat)}

/-- Two variables are in one component of the graph whose edges are the pairs. -/
def Connected (pairs : List (Nat × Nat)) : Nat → Nat → Prop :=
  Relation.EqvGen fun a b => (a, b) ∈ pairs

/-- The same pairs in any order and either orientation. -/
def Rearranged {α : Type} (pairs steps : List (α × α)) : Prop :=
  (steps.map fun pair => s(pair.1, pair.2)).Perm (pairs.map fun pair => s(pair.1, pair.2))

/-- The member of the component of a variable that has the least place. -/
def Foremost (place : Nat → β) (pairs : List (Nat × Nat)) (id first : Nat) : Prop :=
  Connected pairs id first ∧ ∀ other, Connected pairs id other → place first ≤ place other

theorem Connected.mono (h : ∀ pair ∈ pairs, pair ∈ steps) {a b : Nat} (hab : Connected pairs a b) :
    Connected steps a b :=
  Relation.EqvGen.mono (fun a b hpair => h (a, b) hpair) a b hab

theorem Rearranged.symm {α : Type} {pairs steps : List (α × α)} (h : Rearranged pairs steps) :
    Rearranged steps pairs :=
  List.Perm.symm h

theorem Rearranged.mem {α : Type} {pairs steps : List (α × α)} (h : Rearranged pairs steps)
    {a b : α} (hpair : (a, b) ∈ pairs) : (a, b) ∈ steps ∨ (b, a) ∈ steps := by
  have hmem : s(a, b) ∈ steps.map fun pair => s(pair.1, pair.2) :=
    h.mem_iff.2 (List.mem_map.2 ⟨(a, b), hpair, rfl⟩)
  obtain ⟨⟨c, d⟩, hstep, heq⟩ := List.mem_map.1 hmem
  rcases Sym2.eq_iff.1 heq with ⟨rfl, rfl⟩ | ⟨rfl, rfl⟩
  · exact .inl hstep
  · exact .inr hstep

theorem Rearranged.map {α γ : Type} {pairs steps : List (α × α)} (h : Rearranged pairs steps)
    (f : α → γ) : Rearranged (pairs.map fun pair => (f pair.1, f pair.2))
      (steps.map fun pair => (f pair.1, f pair.2)) := by
  have hmap := List.Perm.map (Sym2.map f) h
  rw [List.map_map, List.map_map] at hmap
  rw [Rearranged, List.map_map, List.map_map]
  exact hmap

/-- What the members of every pair share is shared by a component. -/
theorem Connected.value {γ : Type} {f : Nat → γ} (h : ∀ pair ∈ pairs, f pair.1 = f pair.2)
    {a b : Nat} (hab : Connected pairs a b) : f a = f b := by
  induction hab with
  | rel a b hpair => exact h (a, b) hpair
  | refl a => rfl
  | symm a b _ ih => exact ih.symm
  | trans a b c _ _ ih ih' => exact ih.trans ih'

/-- Rearranged pairs connect the same variables. -/
theorem Rearranged.connected (h : Rearranged pairs steps) {a b : Nat} (hab : Connected pairs a b) :
    Connected steps a b := by
  induction hab with
  | rel a b hpair =>
    rcases h.mem hpair with hstep | hstep
    · exact .rel a b hstep
    · exact .symm b a (.rel b a hstep)
  | refl a => exact .refl a
  | symm a b _ ih => exact .symm a b ih
  | trans a b c _ _ ih ih' => exact .trans a b c ih ih'

theorem Rearranged.foremost (h : Rearranged pairs steps) {id first : Nat}
    (hfirst : Foremost place steps id first) : Foremost place pairs id first :=
  ⟨h.symm.connected hfirst.1, fun other hother => hfirst.2 other (h.connected hother)⟩

/-- No two members of a component are placed first. -/
theorem Foremost.unique (hplace : Function.Injective place) {id first first' : Nat}
    (h : Foremost place pairs id first) (h' : Foremost place pairs id first') : first = first' :=
  hplace (le_antisymm (h.2 first' h'.1) (h'.2 first h.1))

/-- The one of two variables that has the lesser place. -/
def sooner (place : Nat → β) (a b : Nat) : Nat := if place a ≤ place b then a else b

theorem sooner_cases (place : Nat → β) (a b : Nat) :
    sooner place a b = a ∨ sooner place a b = b := by
  unfold sooner
  split
  · exact .inl rfl
  · exact .inr rfl

theorem place_sooner_le_left (place : Nat → β) (a b : Nat) : place
    (sooner place a b) ≤ place a := by
  unfold sooner
  split
  · exact le_refl _
  · rename_i hnot
    exact le_of_not_ge hnot

theorem place_sooner_le_right (place : Nat → β) (a b : Nat) :
    place (sooner place a b) ≤ place b := by
  unfold sooner
  split
  · assumption
  · exact le_refl _

/-- The leaders once the components of two variables are joined. -/
def joined (place : Nat → β) (leader : Nat → Nat) (a b id : Nat) : Nat :=
  if leader id = leader a ∨ leader id = leader b then sooner place (leader a) (leader b)
  else leader id

/-- Every variable knows the member of its component that is placed first. -/
structure Leads (place : Nat → β) (pairs : List (Nat × Nat)) (leader : Nat → Nat) : Prop where
  eq_iff : ∀ {a b}, leader a = leader b ↔ Connected pairs a b
  foremost : ∀ id, Foremost place pairs id (leader id)

theorem leads_nil (place : Nat → β) : Leads place [] id := by
  have hconnected : ∀ {a b}, Connected [] a b → a = b := fun hab =>
    Connected.value (f := id) (fun _ hpair => (List.not_mem_nil hpair).elim) hab
  refine ⟨⟨fun heq => ?_, hconnected⟩, fun a => ⟨.refl a, fun b hab => ?_⟩⟩
  · rw [id, id] at heq
    rw [heq]
    exact .refl _
  · rw [id, hconnected hab]

/-- The leaders stay right when a pair is added. -/
theorem Leads.join {leader : Nat → Nat} (h : Leads place pairs leader) (a b : Nat) :
    Leads place (pairs ++ [(a, b)]) (joined place leader a b) := by
  have hold : ∀ {i j}, Connected pairs i j → Connected (pairs ++ [(a, b)]) i j :=
    Connected.mono fun pair => List.mem_append_left _
  have hpair : Connected (pairs ++ [(a, b)]) a b :=
    .rel a b (List.mem_append_right _ List.mem_cons_self)
  have hleader : ∀ i, Connected (pairs ++ [(a, b)]) i (leader i) := fun i => hold (h.foremost i).1
  -- The new leader is reached through the pair, if the component is one of the two.
  have hreached : ∀ i, Connected (pairs ++ [(a, b)]) i (joined place leader a b i) := by
    intro i
    unfold joined
    split
    · rename_i hi
      have hia : Connected (pairs ++ [(a, b)]) i a := by
        rcases hi with hi | hi
        · exact hold (h.eq_iff.1 hi)
        · exact .trans i b a (hold (h.eq_iff.1 hi)) (.symm a b hpair)
      rcases sooner_cases place (leader a) (leader b) with heq | heq
      · rw [heq]
        exact .trans i a _ hia (hleader a)
      · rw [heq]
        exact .trans i a _ hia (.trans a b _ hpair (hleader b))
    · exact hleader i
  have hsame : ∀ {i j}, Connected (pairs ++ [(a, b)]) i j →
      joined place leader a b i = joined place leader a b j := by
    intro i j hij
    refine hij.value fun pair hmem => ?_
    rcases List.mem_append.1 hmem with hmem | hmem
    · have heq : leader pair.1 = leader pair.2 := h.eq_iff.2 (.rel _ _ hmem)
      simp only [joined, heq]
    · obtain rfl := List.mem_singleton.1 hmem
      simp only [joined, true_or, or_true, if_true]
  have hle : ∀ i, place (joined place leader a b i) ≤ place (leader i) := by
    intro i
    unfold joined
    split
    · rename_i hi
      rcases hi with hi | hi
      · rw [hi]
        exact place_sooner_le_left place _ _
      · rw [hi]
        exact place_sooner_le_right place _ _
    · exact le_refl _
  refine ⟨⟨fun heq => ?_, hsame⟩, fun i => ⟨hreached i, fun j hij => ?_⟩⟩
  · exact .trans _ _ _ (hreached _) (heq ▸ .symm _ _ (hreached _))
  · rw [hsame hij]
    exact le_trans (hle j) ((h.foremost j).2 j (.refl j))

end Components

/-! ## Partitions of variables -/

/-- Variables are told apart by their ids. -/
structure TermShape.Ids {α : Type} [BEq α] (shape : TermShape α) where
  var : Nat → α
  id : α → Nat
  unknown_var : ∀ i, shape.unknown (var i) = true
  id_var : ∀ i, id (var i) = i
  beq_iff : ∀ {a b : α}, shape.unknown a = true → shape.unknown b = true →
    ((a == b) = true ↔ id a = id b)

namespace Partition

variable {α : Type} [BEq α] {shape : TermShape α} {good : α → Prop} {partition : Partition α}

/-- The id of the representative of a variable. -/
def leader (partition : Partition α) (ids : shape.Ids) (i : Nat) : Nat :=
  ids.id (partition.find (ids.var i))

/-- Every class is that of one variable. -/
def Unsolved (shape : TermShape α) (partition : Partition α) : Prop :=
  Distinct partition.elements ∧ ∀ c ∈ partition.classes,
    shape.unknown c.representative = true ∧ c.cluster.members = [c.representative]

omit [BEq α] in
/-- New representatives that are the old ones change nothing. -/
theorem mapRepresentatives_eq_self {f : α → α → α}
    (h : ∀ c ∈ partition.classes, f c.cluster.root c.representative = c.representative) :
    partition.mapRepresentatives f = partition := by
  have hclasses : (partition.classes.map fun c =>
      { c with representative := f c.cluster.root c.representative }) = partition.classes := by
    rw [List.map_congr_left fun c hc => by rw [h c hc]]
    exact List.map_id _
  rw [mapRepresentatives, hclasses]

variable [EquivBEq α]

omit [EquivBEq α] in
theorem unsolved_empty : (empty : Partition α).Unsolved shape :=
  ⟨List.Pairwise.nil, fun _ hc => (List.not_mem_nil hc).elim⟩

/-- A fresh variable solves nothing. -/
theorem Unsolved.add (h : partition.Unsolved shape) {element : α}
    (helement : shape.unknown element = true) : (partition.add element).Unsolved shape := by
  refine ⟨distinct_add h.1 element, fun c hc => ?_⟩
  rcases mem_classes_add hc with hc | rfl
  · exact h.2 c hc
  · exact ⟨helement, rfl⟩

theorem Unsolved.sound (h : partition.Unsolved shape) (hgood : ∀ a ∈ partition.elements, good a) :
    Sound shape good partition where
  distinct := h.1
  ofUnknown c hc hrep := by
    obtain ⟨-, hmembers⟩ := h.2 c hc
    refine ⟨fun a ha => ?_, Class.has_of_mem ?_⟩
    · rw [hmembers, List.mem_singleton] at ha
      rwa [ha]
    · rw [hmembers]
      exact List.mem_cons_self
  ofLeaf c hc a ha hleaf := by
    obtain ⟨-, hmembers⟩ := h.2 c hc
    rw [hmembers, List.mem_singleton] at ha
    rwa [← ha]
  good c hc := by
    obtain ⟨-, hmembers⟩ := h.2 c hc
    have hall : ∀ a ∈ c.cluster.members, good a := fun a ha =>
      hgood a (List.mem_flatMap.2 ⟨c, hc, ha⟩)
    exact ⟨hall, hall _ (by rw [hmembers]; exact List.mem_cons_self)⟩

omit [EquivBEq α] in
theorem Unsolved.unknown_of_mem (h : partition.Unsolved shape) (a : α)
    (ha : a ∈ partition.elements) : shape.unknown a = true := by
  obtain ⟨c, hc, hmem⟩ := List.mem_flatMap.1 ha
  obtain ⟨hunknown, hmembers⟩ := h.2 c hc
  rw [hmembers, List.mem_singleton] at hmem
  rwa [hmem]

/-- A variable stands for itself while nothing is solved. -/
theorem Unsolved.final (h : partition.Unsolved shape) (a : α) : partition.Final a := by
  cases hclass : partition.classOf? a with
  | none =>
    rw [Final, find_of_absent hclass]
    exact BEq.refl a
  | some c =>
    obtain ⟨hc, hhas⟩ := mem_of_classOf? hclass
    obtain ⟨m, hm, ham⟩ := Class.has_iff.1 hhas
    rw [(h.2 c hc).2, List.mem_singleton] at hm
    rw [Final, find_of_classOf? hclass, ← hm]
    exact BEq.symm ham

theorem Unsolved.leader (h : partition.Unsolved shape) (ids : shape.Ids) (i : Nat) :
    partition.leader ids i = i := by
  have hfinal := h.final (ids.var i)
  have hunknown : shape.unknown (partition.find (ids.var i)) = true := by
    rw [shape.unknown_congr hfinal]
    exact ids.unknown_var i
  rw [Partition.leader, (ids.beq_iff hunknown (ids.unknown_var i)).1 hfinal, ids.id_var]

section Variables

variable {left right : α} {pick : α → α → α}

/-- The members of a class are those that its representative represents. -/
theorem Sound.has_iff_find (h : Sound shape good partition)
    (hgood : ∀ a, good a → shape.unknown a = true) {c : Class α} (hc : c ∈ partition.classes)
    (a : α) : c.Has a ↔ (partition.find a == c.representative) = true := by
  have hunknown := hgood _ (h.good c hc).2
  have hrep : partition.classOf? c.representative = some c :=
    classOf?_eq_some h.distinct hc (h.ofUnknown c hc hunknown).2
  constructor
  · intro hca
    rw [find_of_classOf? (classOf?_eq_some h.distinct hc hca)]
    exact BEq.refl _
  · exact h.has_of_find hrep (BEq.refl _) hunknown

/-- Merging two variables: what either stood for is now represented by the pick of the two
representatives, and all else as before. -/
theorem Sound.find_union_variables (h : Sound shape good partition) (hpick : shape.Picks pick)
    (hgood : ∀ a, good a → shape.unknown a = true) (hleft : good left) (hright : good right)
    (a : α) :
    ((partition.find a == partition.find left) = true ∨
        (partition.find a == partition.find right) = true) ∧
      (∃ l r, (l == partition.find left) = true ∧ (r == partition.find right) = true ∧
        ((partition.union left right pick).find a == pick l r) = true) ∨
    ¬((partition.find a == partition.find left) = true ∨
        (partition.find a == partition.find right) = true) ∧
      ((partition.union left right pick).find a == partition.find a) = true := by
  have hprepared := h.prepared hleft hright
  obtain ⟨⟨l, hl⟩, r, hr⟩ := exists_classOf?_prepared partition left right
  obtain ⟨hlmem, hlhas⟩ := mem_of_classOf? hl
  obtain ⟨hrmem, hrhas⟩ := mem_of_classOf? hr
  have hfind : ∀ {c b}, c ∈ (partition.prepared left right).classes → c.Has b →
      (c.representative == partition.find b) = true := by
    intro c b hc hcb
    exact BEq.trans (BEq.symm ((hprepared.has_iff_find hgood hc b).1 hcb))
      (find_prepared_beq partition left right b)
  have hhas : ∀ {c b}, c ∈ (partition.prepared left right).classes → c.Has b →
      (c.Has a ↔ (partition.find a == partition.find b) = true) := by
    intro c b hc hcb
    rw [hprepared.has_iff_find hgood hc a]
    have hsame := find_prepared_beq partition left right a
    constructor
    · intro heq
      exact BEq.trans (BEq.symm hsame) (BEq.trans heq (hfind hc hcb))
    · intro heq
      exact BEq.trans hsame (BEq.trans heq (BEq.symm (hfind hc hcb)))
  rw [← hhas hlmem hlhas, ← hhas hrmem hrhas]
  by_cases hlr : l = r
  · subst hlr
    have hunion : partition.union left right pick = partition.prepared left right :=
      (union_cases pick h.distinct hl hr).elim And.right fun hne => (hne.1 rfl).elim
    have hsame := find_prepared_beq partition left right a
    rw [hunion]
    by_cases hla : l.Has a
    · have hunknown : shape.unknown l.representative = true := hgood _ (hprepared.good l hlmem).2
      have hpicked : pick l.representative l.representative = l.representative :=
        (hpick.chosen hunknown hunknown).elim id id
      refine .inl ⟨.inl hla, l.representative, l.representative, hfind hlmem hlhas,
        hfind hlmem hrhas, ?_⟩
      rw [hpicked]
      exact (hprepared.has_iff_find hgood hlmem a).1 hla
    · exact .inr ⟨fun hin => hla (hin.elim id id), hsame⟩
  · rcases classOf?_union pick h.distinct hl hr hlr a with ⟨hin, hsome⟩ | ⟨hout, heq⟩
    · refine .inl ⟨hin, l.representative, r.representative, hfind hlmem hlhas,
        hfind hrmem hrhas, ?_⟩
      rw [find_of_classOf? hsome]
      exact BEq.refl _
    · refine .inr ⟨hout, ?_⟩
      rw [find, heq]
      exact find_prepared_beq partition left right a

omit [EquivBEq α] in
theorem Sound.unknown_find (h : Sound shape good partition)
    (hgood : ∀ a, good a → shape.unknown a = true) {a : α} (ha : shape.unknown a = true) :
    shape.unknown (partition.find a) = true := by
  cases hclass : partition.classOf? a with
  | none => rwa [find_of_absent hclass]
  | some c =>
    rw [find_of_classOf? hclass]
    exact hgood _ (h.good c (mem_of_classOf? hclass).1).2

/-- Variables with one id have representatives with one id. -/
theorem Sound.id_find (ids : shape.Ids) (h : Sound shape good partition)
    (hgood : ∀ a, good a → shape.unknown a = true) {a : α} (ha : shape.unknown a = true) :
    ids.id (partition.find a) = partition.leader ids (ids.id a) := by
  have hvar := ids.unknown_var (ids.id a)
  have hsame : (a == ids.var (ids.id a)) = true := (ids.beq_iff ha hvar).2 (ids.id_var _).symm
  exact (ids.beq_iff (h.unknown_find hgood ha) (h.unknown_find hgood hvar)).1 (find_congr hsame)

/-- A merge joins the components of the two variables, if the variable with the lesser place is
picked. -/
theorem Sound.leader_union {β : Type} [LinearOrder β] {place : Nat → β} (ids : shape.Ids)
    (h : Sound shape good partition) (hpick : shape.Picks pick)
    (hgood : ∀ a, good a → shape.unknown a = true) (hleft : good left) (hright : good right)
    (hplace : ∀ {a b}, shape.unknown a = true → shape.unknown b = true →
      ids.id (pick a b) = sooner place (ids.id a) (ids.id b)) :
    (partition.union left right pick).leader ids =
      joined place (partition.leader ids) (ids.id left) (ids.id right) := by
  funext i
  have hfound : ∀ {a}, shape.unknown a = true → shape.unknown (partition.find a) = true :=
    h.unknown_find hgood
  have hid : ∀ {a}, shape.unknown a = true →
      ids.id (partition.find a) = partition.leader ids (ids.id a) := h.id_find ids hgood
  have hvar := ids.unknown_var
  have hiff : ∀ {a}, shape.unknown a = true →
      ((partition.find (ids.var i) == partition.find a) = true ↔
      partition.leader ids i = partition.leader ids (ids.id a)) := by
    intro a ha
    rw [ids.beq_iff (hfound (hvar i)) (hfound ha), hid ha]
    rfl
  have hl := hgood left hleft
  have hr := hgood right hright
  rcases h.find_union_variables hpick hgood hleft hright (ids.var i) with
    ⟨hin, l, r, hleader, hleader', hfind⟩ | ⟨hout, hfind⟩
  · have hlu : shape.unknown l = true := by rw [shape.unknown_congr hleader, hfound hl]
    have hru : shape.unknown r = true := by rw [shape.unknown_congr hleader', hfound hr]
    have hpu : shape.unknown (pick l r) = true := by
      rcases hpick.chosen hlu hru with heq | heq
      · rwa [heq]
      · rwa [heq]
    have hunknown : shape.unknown ((partition.union left right pick).find (ids.var i)) = true := by
      rw [shape.unknown_congr hfind, hpu]
    rw [hiff hl, hiff hr] at hin
    rw [joined, if_pos hin, leader, (ids.beq_iff hunknown hpu).1 hfind, hplace hlu hru,
      (ids.beq_iff hlu (hfound hl)).1 hleader, (ids.beq_iff hru (hfound hr)).1 hleader', hid hl,
      hid hr]
  · have hunknown : shape.unknown ((partition.union left right pick).find (ids.var i)) = true := by
      rw [shape.unknown_congr hfind, hfound (hvar i)]
    rw [hiff hl, hiff hr] at hout
    rw [joined, if_neg hout, leader, (ids.beq_iff hunknown (hfound (hvar i))).1 hfind]
    rfl

/-- The variables are in the components that the pairs connect, and each component is represented
by the variable of the least place. -/
structure Led {β : Type} [LinearOrder β] (ids : shape.Ids) (good : α → Prop) (place : Nat → β)
    (pairs : List (Nat × Nat)) (partition : Partition α) : Prop where
  sound : Sound shape good partition
  leads : Leads place pairs (partition.leader ids)

section Led

variable {β : Type} [LinearOrder β] {place : Nat → β} {pairs : List (Nat × Nat)} {ids : shape.Ids}

theorem Unsolved.led (h : partition.Unsolved shape) (hgood : ∀ a ∈ partition.elements, good a) :
    Led ids good place [] partition where
  sound := h.sound hgood
  leads := by
    rw [funext (h.leader ids)]
    exact leads_nil place

theorem Led.union (h : Led ids good place pairs partition) (left right : α)
    (hpick : shape.Picks pick) (hgood : ∀ a, good a → shape.unknown a = true) (hleft : good left)
    (hright : good right)
    (hplace : ∀ {a b}, shape.unknown a = true → shape.unknown b = true →
      ids.id (pick a b) = sooner place (ids.id a) (ids.id b)) :
    Led ids good place (pairs ++ [(ids.id left, ids.id right)])
      (partition.union left right pick) where
  sound := h.sound.union hpick hleft hright (hgood _ (h.sound.find_good hleft))
  leads := by
    rw [h.sound.leader_union ids hpick hgood hleft hright hplace]
    exact h.leads.join _ _

end Led

end Variables

end Partition

/-! ## Places -/

section Places

variable {α : Type}

/-- The place of a variable: the index of the outermost frame that registers it, or the number of
frames if none does, and then its id. -/
def placeIn (registered : Frame α → List Nat) (frames : List (Frame α)) (id : Nat) : Nat ×ₗ Nat :=
  toLex (frames.findIdx fun frame => (registered frame).contains id, id)

theorem placeIn_injective (registered : Frame α → List Nat) (frames : List (Frame α)) :
    Function.Injective (placeIn registered frames) := fun _ _ h =>
  (Prod.mk.inj (toLex.injective h)).2

theorem placeIn_le_iff {registered : Frame α → List Nat} {frames : List (Frame α)} {a b : Nat} :
    placeIn registered frames a ≤ placeIn registered frames b ↔
      (decide ((frames.findIdx fun frame => (registered frame).contains a) <
          frames.findIdx fun frame => (registered frame).contains b) ||
        (((frames.findIdx fun frame => (registered frame).contains a) ==
          frames.findIdx fun frame => (registered frame).contains b) && decide (a ≤ b))) = true :=
              by
  rw [placeIn, placeIn, Prod.Lex.toLex_le_toLex]
  simp only [Bool.or_eq_true, Bool.and_eq_true, decide_eq_true_eq, beq_iff_eq]

end Places

namespace Kind

variable {kinds : Partition Kind} {good : Kind → Prop}

def ids : shape.Ids where
  var := .unsolved
  id
    | .unsolved id => id
    | _ => 0
  unknown_var _ := rfl
  id_var _ := rfl
  beq_iff ha hb := by
    obtain ⟨a, rfl⟩ := unknown_iff.1 ha
    obtain ⟨b, rfl⟩ := unknown_iff.1 hb
    rw [beq_iff_eq, unsolved.injEq]

theorem id_pickKind {α : Type} (frames : List (Frame α)) {a b : Kind}
    (ha : shape.unknown a = true) (hb : shape.unknown b = true) :
    ids.id (pickKind frames a b) =
      sooner (placeIn Frame.unsolvedKinds frames) (ids.id a) (ids.id b) := by
  obtain ⟨a, rfl⟩ := unknown_iff.1 ha
  obtain ⟨b, rfl⟩ := unknown_iff.1 hb
  simp only [pickKind, sooner, placeIn_le_iff]
  exact apply_ite ids.id _ _ _

theorem substitute_of_find {id : Nat} (h : kinds.find (.unsolved id) = .unsolved id) :
    substitute kinds (.unsolved id) = .unsolved id := by
  rw [substitute, bind_unsolved]
  cases kinds.size with
  | zero => rfl
  | succ fuel => simp [expand, h]

/-- Closing changes nothing while only variables represent classes. -/
theorem closed_eq_self (h : kinds.Sound shape good) (hgood : ∀ a, good a → shape.unknown a = true) :
    closed kinds = kinds := by
  refine Partition.mapRepresentatives_eq_self fun c hc => ?_
  have hunknown := hgood _ (h.good c hc).2
  have hfind := Partition.find_of_classOf?
    (Partition.classOf?_eq_some h.distinct hc (h.ofUnknown c hc hunknown).2)
  obtain ⟨id, hid⟩ := unknown_iff.1 hunknown
  rw [hid] at hfind ⊢
  exact substitute_of_find hfind

theorem substitute_of_unsolved (h : kinds.Unsolved shape) (kind : Kind) :
    kind.substitute kinds = kind := by
  refine bind_self fun id _ => ?_
  have hsubstitute := substitute_of_find (final_iff.1 (h.final (.unsolved id)))
  rwa [substitute, bind_unsolved] at hsubstitute

end Kind

namespace Ty

variable {types : Partition Ty} {kinds : Partition Kind} {good : Ty → Prop}

def ids : shape.Ids where
  var id := .unsolved id .type
  id
    | .unsolved id _ => id
    | _ => 0
  unknown_var _ := rfl
  id_var _ := rfl
  beq_iff ha hb := by
    obtain ⟨a, kind, rfl⟩ := unknown_iff.1 ha
    obtain ⟨b, kind', rfl⟩ := unknown_iff.1 hb
    exact unsolved_beq

theorem id_pickType {α : Type} (frames : List (Frame α)) {a b : Ty}
    (ha : shape.unknown a = true) (hb : shape.unknown b = true) :
    ids.id (pickType frames a b) =
      sooner (placeIn Frame.unsolvedTypes frames) (ids.id a) (ids.id b) := by
  obtain ⟨a, kind, rfl⟩ := unknown_iff.1 ha
  obtain ⟨b, kind', rfl⟩ := unknown_iff.1 hb
  simp only [pickType, sooner, placeIn_le_iff]
  exact apply_ite ids.id _ _ _

/-- A variable that stands for itself is substituted by itself, and nothing happens to its kind
while no kind is solved. -/
theorem substitute_of_find (hkinds : kinds.Unsolved Kind.shape) {id : Nat} {kind : Kind}
    (h : types.find (.unsolved id kind) = .unsolved id kind) :
    substitute types kinds (.unsolved id kind) = .unsolved id kind := by
  rw [substitute, bind_unsolved]
  cases types.size with
  | zero => rw [expand, Kind.substitute_of_unsolved hkinds]
  | succ fuel =>
    rw [expand, if_neg List.not_mem_nil, h]
    dsimp only
    rw [Kind.substitute_of_unsolved hkinds]

theorem closed_eq_self (h : types.Sound shape good) (hgood : ∀ a, good a → shape.unknown a = true)
    (hkinds : kinds.Unsolved Kind.shape) :
    types.mapRepresentatives (fun _ solution => solution.substitute types kinds) = types := by
  refine Partition.mapRepresentatives_eq_self fun c hc => ?_
  have hunknown := hgood _ (h.good c hc).2
  have hfind := Partition.find_of_classOf?
    (Partition.classOf?_eq_some h.distinct hc (h.ofUnknown c hc hunknown).2)
  obtain ⟨id, kind, hid⟩ := unknown_iff.1 hunknown
  rw [hid] at hfind ⊢
  exact substitute_of_find hkinds hfind

end Ty

/-! ## Solving pairs of variables -/

namespace Store

variable {s : Store}

/-- Nothing is solved: every variable that has a class is alone in it. -/
structure Unsolved (s : Store) : Prop where
  kinds : s.kinds.Unsolved Kind.shape
  types : s.types.Unsolved Ty.shape

def kindPlace (s : Store) : Nat → Nat ×ₗ Nat :=
  placeIn Frame.unsolvedKinds s.stack.outermostFirst

def typePlace (s : Store) : Nat → Nat ×ₗ Nat :=
  placeIn Frame.unsolvedTypes s.stack.outermostFirst

/-- Solve the first variable of every pair by the second. -/
def solveKinds (s : Store) (steps : List (Nat × Nat)) : Store :=
  steps.foldl (fun s step => s.solveKind step.1 (.unsolved step.2)) s

/-- Solve the first type variable of every pair by the second. -/
def solveTypes (s : Store) (steps : List ((Nat × Kind) × (Nat × Kind))) : Store :=
  steps.foldl
    (fun s step => s.solveType step.1.1 step.1.2 (.unsolved step.2.1 step.2.2)) s

/-- A type variable has a class or is one of a pair. -/
def Given (s : Store) (pairs : List ((Nat × Kind) × (Nat × Kind))) (v : Nat × Kind) : Prop :=
  .unsolved v.1 v.2 ∈ s.types.elements ∨ ∃ pair ∈ pairs, v = pair.1 ∨ v = pair.2

theorem kinds_solveKind {a b : Nat} {place : Nat → Nat ×ₗ Nat} {pairs : List (Nat × Nat)}
    (h : s.kinds.Led Kind.ids (Kind.shape.unknown · = true) place pairs) :
    (s.solveKind a (.unsolved b)).kinds =
      s.kinds.union (.unsolved a) (.unsolved b) s.pickKind := by
  have hpick := Kind.picks_pickKind (α := Located Attributes) s.stack.outermostFirst
  exact Kind.closed_eq_self
    (h.sound.union hpick rfl rfl (h.sound.find_good (a := .unsolved a) rfl)) fun _ => id

/-- The invariant along a run that solves pairs of kind variables. -/
theorem solveKinds_led (steps : List (Nat × Nat)) : ∀ {s : Store} {pairs : List (Nat × Nat)},
    s.kinds.Led Kind.ids (Kind.shape.unknown · = true) s.kindPlace pairs →
    (s.solveKinds steps).kinds.Led Kind.ids (Kind.shape.unknown · = true) s.kindPlace
      (pairs ++ steps) := by
  induction steps with
  | nil =>
    intro s pairs h
    rwa [List.append_nil]
  | cons step steps ih =>
    intro s pairs h
    have hpick := Kind.picks_pickKind (α := Located Attributes) s.stack.outermostFirst
    have hstep : (s.solveKind step.1 (.unsolved step.2)).kinds.Led Kind.ids
        (Kind.shape.unknown · = true) s.kindPlace (pairs ++ [step]) := by
      rw [kinds_solveKind h]
      exact h.union (.unsolved step.1) (.unsolved step.2) hpick (fun _ => id) rfl rfl
        (Kind.id_pickKind _)
    rw [List.append_cons]
    exact ih (s := s.solveKind step.1 (.unsolved step.2)) hstep

/-- Kind variables solved by each other are represented by the first of their component. -/
theorem find_solveKinds (h : s.Unsolved) (steps : List (Nat × Nat)) (id : Nat) :
    ∃ first, Foremost s.kindPlace steps id first ∧
      (s.solveKinds steps).kinds.find (.unsolved id) = .unsolved first := by
  have hled := solveKinds_led steps (h.kinds.led h.kinds.unknown_of_mem)
  obtain ⟨first, hfirst⟩ := Kind.unknown_iff.1 (hled.sound.find_good (a := .unsolved id) rfl)
  have hleader : (s.solveKinds steps).kinds.leader Kind.ids id = first :=
    congrArg Kind.ids.id hfirst
  exact ⟨first, hleader ▸ hled.leads.foremost id, hfirst⟩

/-- Solving one type variable by another merges their classes and does nothing else. -/
theorem solveType_eq {good : Ty → Prop} {a b : Nat} {kind kind' : Kind}
    (hkinds : s.kinds.Unsolved Kind.shape) (htypes : s.types.Sound Ty.shape good)
    (hgood : ∀ type, good type → Ty.shape.unknown type = true) (ha : good (.unsolved a kind))
    (hb : good (.unsolved b kind')) :
    s.solveType a kind (.unsolved b kind') =
      { s with types := s.types.union (.unsolved a kind) (.unsolved b kind') s.pickType } := by
  have hpick := Ty.picks_pickType (α := Located Attributes) s.stack.outermostFirst
  have hsound := htypes.union hpick ha hb (hgood _ (htypes.find_good ha))
  have hclosed : Kind.closed s.kinds = s.kinds :=
    Kind.closed_eq_self (hkinds.sound hkinds.unknown_of_mem) fun _ => id
  have hkept := Ty.closed_eq_self hsound hgood hkinds
  have hsolve : s.solveType a kind (.unsolved b kind') =
      { s with
        kinds := Kind.closed s.kinds
        types := (s.types.union (.unsolved a kind)
            (.unsolved b kind') s.pickType).mapRepresentatives
          fun _ solution => solution.substitute
            (s.types.union (.unsolved a kind) (.unsolved b kind') s.pickType)
            (Kind.closed s.kinds) } := rfl
  rw [hsolve, hclosed]
  exact congrArg (fun types => { s with types := types }) hkept

/-- The invariant along a run that solves pairs of type variables. -/
theorem solveTypes_led {good : Ty → Prop} (hgood : ∀ type, good type → Ty.shape.unknown type = true)
    (steps : List ((Nat × Kind) × (Nat × Kind)))
    (hsteps : ∀ step ∈ steps, good (.unsolved step.1.1 step.1.2) ∧
      good (.unsolved step.2.1 step.2.2)) : ∀ {s : Store} {pairs : List (Nat × Nat)},
    s.kinds.Unsolved Kind.shape → s.types.Led Ty.ids good s.typePlace pairs →
    (s.solveTypes steps).types.Led Ty.ids good s.typePlace
      (pairs ++ steps.map fun step => (step.1.1, step.2.1)) := by
  induction steps with
  | nil =>
    intro s pairs hkinds h
    rwa [List.map_nil, List.append_nil]
  | cons step steps ih =>
    intro s pairs hkinds h
    obtain ⟨ha, hb⟩ := hsteps step List.mem_cons_self
    have hpick := Ty.picks_pickType (α := Located Attributes) s.stack.outermostFirst
    have heq := solveType_eq hkinds h.sound hgood ha hb
    have hstep : (s.solveType step.1.1 step.1.2 (.unsolved step.2.1 step.2.2)).types.Led Ty.ids good
        s.typePlace (pairs ++ [(step.1.1, step.2.1)]) := by
      rw [heq]
      exact h.union _ _ hpick hgood ha hb (Ty.id_pickType _)
    have hkinds' : (s.solveType step.1.1 step.1.2 (.unsolved step.2.1 step.2.2)).kinds.Unsolved
        Kind.shape := by rwa [heq]
    rw [List.map_cons, List.append_cons]
    exact ih (fun step hstep => hsteps step (List.mem_cons_of_mem _ hstep))
      (s := s.solveType step.1.1 step.1.2 (.unsolved step.2.1 step.2.2)) hkinds' hstep

/-- Type variables solved by each other are represented by the first of their component. -/
theorem find_solveTypes (h : s.Unsolved) (steps : List ((Nat × Kind) × (Nat × Kind))) (id : Nat)
    (kind : Kind) : ∃ first carried,
      Foremost s.typePlace (steps.map fun step => (step.1.1, step.2.1)) id first ∧
      (s.solveTypes steps).types.find (.unsolved id kind) = .unsolved first carried ∧
      ((first, carried) = (id, kind) ∨ s.Given steps (first, carried)) := by
  let good (type : Ty) : Prop := ∃ v, s.Given steps v ∧ type = .unsolved v.1 v.2
  have hunknown : ∀ type, good type → Ty.shape.unknown type = true := by
    rintro type ⟨v, -, rfl⟩
    rfl
  have hsteps : ∀ step ∈ steps, good (.unsolved step.1.1 step.1.2) ∧
      good (.unsolved step.2.1 step.2.2) := fun step hstep =>
    ⟨⟨step.1, .inr ⟨step, hstep, .inl rfl⟩, rfl⟩, ⟨step.2, .inr ⟨step, hstep, .inr rfl⟩, rfl⟩⟩
  have helements : ∀ type ∈ s.types.elements, good type := by
    intro type htype
    obtain ⟨other, carried, rfl⟩ := Ty.unknown_iff.1 (h.types.unknown_of_mem type htype)
    exact ⟨(other, carried), .inl htype, rfl⟩
  have hled := solveTypes_led hunknown steps hsteps h.kinds (h.types.led helements)
  have hfound : (s.solveTypes steps).types.find (.unsolved id kind) = .unsolved id kind ∨
      good ((s.solveTypes steps).types.find (.unsolved id kind)) := by
    cases hclass : (s.solveTypes steps).types.classOf? (.unsolved id kind) with
    | none => exact .inl (Partition.find_of_absent hclass)
    | some c =>
      rw [Partition.find_of_classOf? hclass]
      exact .inr (hled.sound.good c (Partition.mem_of_classOf? hclass).1).2
  obtain ⟨first, carried, hfind, hcarried⟩ : ∃ first carried,
      (s.solveTypes steps).types.find (.unsolved id kind) = .unsolved first carried ∧
      ((first, carried) = (id, kind) ∨ s.Given steps (first, carried)) := by
    rcases hfound with heq | ⟨v, hv, heq⟩
    · exact ⟨id, kind, heq, .inl rfl⟩
    · exact ⟨v.1, v.2, heq, .inr hv⟩
  have hleader : (s.solveTypes steps).types.leader Ty.ids id = first := by
    have hid := hled.sound.id_find Ty.ids hunknown (a := .unsolved id kind) rfl
    rw [hfind] at hid
    exact hid.symm
  exact ⟨first, carried, hleader ▸ hled.leads.foremost id, hfind, hcarried⟩

theorem Given.rearranged {pairs steps : List ((Nat × Kind) × (Nat × Kind))}
    (h : Rearranged pairs steps) {v : Nat × Kind} (hv : s.Given steps v) : s.Given pairs v := by
  rcases hv with helement | ⟨step, hstep, hv⟩
  · exact .inl helement
  · rcases h.symm.mem hstep with hpair | hpair
    · exact .inr ⟨step, hpair, hv⟩
    · exact .inr ⟨_, hpair, hv.symm⟩

/-- Pairs of variables that are solved in any order and either orientation, with nothing solved
before, leave every variable represented by the member of its component that has the least place. -/
theorem representative_foremost (h : s.Unsolved) :
    (∀ {pairs steps : List (Nat × Nat)}, Rearranged pairs steps → ∀ id, ∃ first,
      Foremost s.kindPlace pairs id first ∧
      (s.solveKinds steps).kinds.find (.unsolved id) = .unsolved first) ∧
    (∀ {pairs steps : List ((Nat × Kind) × (Nat × Kind))}, Rearranged pairs steps → ∀ id kind,
      ∃ first carried,
        Foremost s.typePlace (pairs.map fun pair => (pair.1.1, pair.2.1)) id first ∧
        (s.solveTypes steps).types.find (.unsolved id kind) = .unsolved first carried ∧
        ((first, carried) = (id, kind) ∨ s.Given pairs (first, carried))) := by
  constructor
  · intro pairs steps hsteps id
    obtain ⟨first, hfirst, hfind⟩ := find_solveKinds h steps id
    exact ⟨first, hsteps.foremost hfirst, hfind⟩
  · intro pairs steps hsteps id kind
    obtain ⟨first, carried, hfirst, hfind, hcarried⟩ := find_solveTypes h steps id kind
    exact ⟨first, carried, (hsteps.map Prod.fst).foremost hfirst, hfind,
      hcarried.imp_right (Given.rearranged hsteps)⟩

/-- Two frames, of which the inner one registers the variable with the lower id. -/
def nested : Store where
  stack := ⟨[((Frame.empty .block).addKinds [1]).addTypes [1],
    ((Frame.empty .block).addKinds [5]).addTypes [5]], none⟩
  kinds := (Partition.empty.add (.unsolved 1)).add (.unsolved 5)
  types := (Partition.empty.add (.unsolved 1 .type)).add (.unsolved 5 .type)
  nextKind := 6
  nextType := 6

/-- The variable registered further out represents the others, although its id is the highest. -/
theorem representative_foremost_nested : nested.Unsolved ∧
    Rearranged [(0, 1), (1, 5)] [(5, 1), (1, 0)] ∧
    Foremost nested.kindPlace [(0, 1), (1, 5)] 0 5 ∧
    Foremost nested.typePlace [(0, 1), (1, 5)] 0 5 := by
  have hunsolved : nested.Unsolved :=
    ⟨(Partition.unsolved_empty.add rfl).add rfl, (Partition.unsolved_empty.add rfl).add rfl⟩
  have hkinds : Rearranged [(0, 1), (1, 5)] [(5, 1), (1, 0)] := by
    unfold Rearranged
    decide
  have htypes : Rearranged [((0, Kind.type), (1, Kind.type)), ((1, Kind.type), (5, Kind.type))]
      [((5, Kind.type), (1, Kind.type)), ((1, Kind.type), (0, Kind.type))] := by
    unfold Rearranged
    decide
  obtain ⟨first, hfirst, hfind⟩ := (representative_foremost hunsolved).1 hkinds 0
  obtain ⟨first', carried, hfirst', hfind', -⟩ :=
      (representative_foremost hunsolved).2 htypes 0 .type
  obtain rfl : first = 5 := Kind.unsolved.inj (hfind.symm.trans (by decide))
  obtain ⟨rfl, -⟩ : first' = 5 ∧ carried = .type := Ty.unsolved.inj (hfind'.symm.trans (by rfl))
  exact ⟨hunsolved, hkinds, hfirst, hfirst'⟩

/-- The order and the orientation of the pairs have no part in the representatives. -/
theorem find_rearranged (h : s.Unsolved) :
    (∀ {pairs steps : List (Nat × Nat)}, Rearranged pairs steps → ∀ id,
      (s.solveKinds steps).kinds.find (.unsolved id) =
        (s.solveKinds pairs).kinds.find (.unsolved id)) ∧
    (∀ {pairs steps : List ((Nat × Kind) × (Nat × Kind))}, Rearranged pairs steps → ∀ id kind,
      ((s.solveTypes steps).types.find (.unsolved id kind) ==
        (s.solveTypes pairs).types.find (.unsolved id kind)) = true) := by
  constructor
  · intro pairs steps hsteps id
    obtain ⟨first, hfirst, hfind⟩ := find_solveKinds h steps id
    obtain ⟨first', hfirst', hfind'⟩ := find_solveKinds h pairs id
    rw [hfind, hfind', (hsteps.foremost hfirst).unique (placeIn_injective _ _) hfirst']
  · intro pairs steps hsteps id kind
    obtain ⟨first, carried, hfirst, hfind, -⟩ := find_solveTypes h steps id kind
    obtain ⟨first', carried', hfirst', hfind', -⟩ := find_solveTypes h pairs id kind
    rw [hfind, hfind', Ty.unsolved_beq]
    exact ((hsteps.map Prod.fst).foremost hfirst).unique (placeIn_injective _ _) hfirst'

end Store

end PolyFront
