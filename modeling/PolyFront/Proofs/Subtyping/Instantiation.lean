import PolyFront.Proofs.Subtyping.Paths
import PolyFront.Proofs.Subtyping.Stores

/-!
# Solving a variable by a first-order type

A variable is solved by an application of fresh variables, one for each argument, and these are
solved by the arguments one after the other.  Once all are solved the variable has the value of the
whole type.  Solving one part may put a fresh variable in the place of an older one, but never the
fresh variable of a part that is still to be solved, so that the parts that follow mention none of
those either and are no deeper than before.
-/

namespace PolyFront

namespace Store

open Solve (Parts)

variable {s s' s'' : Store} {limit : Nat}

/-- A variable that was created and stands for itself. -/
def IsOpen (s : Store) (id : Nat) : Prop := id < s.nextType ∧ s.solution id = .unsolved id .type

theorem Settled.isOpen_of_mentions (hs : s.Settled) {v : Nat} (hv : v < s.nextType) {id : Nat}
    (hmem : (s.solution v).Mentions id) : s.IsOpen id :=
  ⟨Ty.Settled.lt hs hv hmem, hs.mentioned hmem⟩

theorem Settled.isOpen_of_mentions_subst (hs : s.Settled) {type : Ty}
    (htype : type.Simple s.nextType) {id : Nat}
    (hmem : (type.bare.subst s.solution).Mentions id) : s.IsOpen id := by
  obtain ⟨v, hv, hmem⟩ := Ty.mentions_subst.1 hmem
  exact hs.isOpen_of_mentions (htype.lt (Ty.mentions_bare_iff.1 hv)) hmem

theorem Settled.firstOrder_subst (hs : s.Settled) {type : Ty} (htype : type.FirstOrder) :
    (type.bare.subst s.solution).FirstOrder :=
  htype.bare.subst fun _ _ => Ty.Settled.firstOrder hs _

theorem Settled.subst_subst (hs : s.Settled) (type : Ty) :
    (type.subst s.solution).subst s.solution = type.subst s.solution :=
  Ty.Settled.subst_subst hs type

/-- The variable is to be solved by one of the parts or stands in one of them. -/
def Affects (s : Store) (parts : Parts) (id : Nat) : Prop :=
  ∃ part ∈ parts, id = part.1.1 ∨ (part.2.bare.subst s.solution).Mentions id

/-- Variables that stand for themselves, to be solved by types that mention none of them and are
not deeper than the limit. -/
structure Prepared (limit : Nat) (s : Store) (parts : Parts) : Prop where
  settled : s.Settled
  hole : ∀ part ∈ parts, s.IsOpen part.1.1
  simple : ∀ part ∈ parts, part.2.Simple s.nextType
  shallow : ∀ part ∈ parts, (part.2.bare.subst s.solution).Shallow limit
  distinct : parts.Pairwise fun part part' => part.1.1 ≠ part'.1.1
  apart : ∀ part ∈ parts, ∀ part' ∈ parts, ¬(part'.2.bare.subst s.solution).Mentions part.1.1

/-- The variables of the parts have the values of their types.  Others that stood for themselves are
variables still, and those that the parts do not affect stand in no new place. -/
structure Fills (s s' : Store) (parts : Parts) : Prop where
  refines : RefinesTypes s s'
  solves : ∀ part ∈ parts, s'.solution part.1.1 = part.2.bare.subst s'.solution
  keeps : ∀ v, s.IsOpen v → (∀ part ∈ parts, v ≠ part.1.1) → (s'.solution v).isUnsolved = true
  apart : ∀ u, s.IsOpen u → ¬s.Affects parts u → s'.solution u = .unsolved u .type ∧
    ∀ v, s.IsOpen v → (s'.solution v).Mentions u → v = u

variable {front rest parts : Parts}

theorem Affects.append_left {id : Nat} (h : s.Affects front id) : s.Affects (front ++ rest) id := by
  obtain ⟨part, hpart, h⟩ := h
  exact ⟨part, List.mem_append_left _ hpart, h⟩

theorem Prepared.left (h : Prepared limit s (front ++ rest)) : Prepared limit s front where
  settled := h.settled
  hole part hpart := h.hole part (List.mem_append_left _ hpart)
  simple part hpart := h.simple part (List.mem_append_left _ hpart)
  shallow part hpart := h.shallow part (List.mem_append_left _ hpart)
  distinct := (List.pairwise_append.1 h.distinct).1
  apart part hpart part' hpart' :=
    h.apart part (List.mem_append_left _ hpart) part' (List.mem_append_left _ hpart')

/-- The parts do not affect the variables of those that follow. -/
theorem Prepared.not_affects (h : Prepared limit s (front ++ rest)) :
    ∀ part ∈ rest, ¬s.Affects front part.1.1 := by
  rintro part hpart ⟨other, hother, heq | hmem⟩
  · exact (List.pairwise_append.1 h.distinct).2.2 other hother part hpart heq.symm
  · exact h.apart part (List.mem_append_right _ hpart) other (List.mem_append_left _ hother) hmem

theorem Fills.mentions_subst (h : Fills s s' front) (hs : s.Settled) {u : Nat} (hu : s.IsOpen u)
    (hnot : ¬s.Affects front u) {type : Ty} (htype : type.Simple s.nextType)
    (hmem : (type.bare.subst s'.solution).Mentions u) :
    (type.bare.subst s.solution).Mentions u := by
  rw [← h.refines.subst, Ty.mentions_subst] at hmem
  obtain ⟨v, hv, hmem⟩ := hmem
  obtain rfl := (h.apart u hu hnot).2 v (hs.isOpen_of_mentions_subst htype hv) hmem
  exact hv

/-- Once some parts are solved the others are still prepared. -/
theorem Prepared.after (h : Prepared limit s (front ++ rest)) (hfills : Fills s s' front) :
    Prepared limit s' rest := by
  have hnot := h.not_affects
  have hright : ∀ {part}, part ∈ rest → part ∈ front ++ rest := fun hpart =>
    List.mem_append_right _ hpart
  refine ⟨hfills.refines.settled, ?_, ?_, ?_, (List.pairwise_append.1 h.distinct).2.1, ?_⟩
  · intro part hpart
    have hopen := h.hole part (hright hpart)
    exact ⟨Nat.lt_of_lt_of_le hopen.1 hfills.refines.next,
      (hfills.apart _ hopen (hnot part hpart)).1⟩
  · intro part hpart
    exact (h.simple part (hright hpart)).mono hfills.refines.next
  · intro part hpart
    have hsimple := h.simple part (hright hpart)
    rw [← hfills.refines.subst]
    refine (h.shallow part (hright hpart)).subst (h.settled.firstOrder_subst hsimple.firstOrder) ?_
    intro v hv
    refine hfills.keeps v (h.settled.isOpen_of_mentions_subst hsimple hv) ?_
    rintro other hother rfl
    exact h.apart other (List.mem_append_left _ hother) part (hright hpart) hv
  · intro part hpart part' hpart' hmem
    refine h.apart part (hright hpart) part' (hright hpart') ?_
    exact hfills.mentions_subst h.settled (h.hole part (hright hpart)) (hnot part hpart)
      (h.simple part' (hright hpart')) hmem

theorem Fills.append (h : Prepared limit s (front ++ rest)) (hleft : Fills s s' front)
    (hright : Fills s' s'' rest) : Fills s s'' (front ++ rest) := by
  have hs' := hleft.refines.settled
  have hopen : ∀ {v w}, s.IsOpen v → (s'.solution v).Mentions w → s'.IsOpen w := fun hv hmem =>
    hs'.isOpen_of_mentions (Nat.lt_of_lt_of_le hv.1 hleft.refines.next) hmem
  refine ⟨hleft.refines.trans hright.refines, ?_, ?_, ?_⟩
  · intro part hpart
    rcases List.mem_append.1 hpart with hpart | hpart
    · rw [hright.refines.absorbs, hleft.solves part hpart, hright.refines.subst]
    · exact hright.solves part hpart
  · intro v hv hother
    have hunsolved := hleft.keeps v hv fun part hpart =>
      hother part (List.mem_append_left _ hpart)
    obtain ⟨w, kind, hw⟩ := Ty.unknown_iff.1 hunsolved
    have hmem : (s'.solution v).Mentions w := by
      rw [hw]
      exact Ty.mentions_unsolved.2 rfl
    rw [hright.refines.absorbs, hw, Ty.subst_unsolved]
    refine hright.keeps w (hopen hv hmem) ?_
    rintro part hpart rfl
    refine hother part (List.mem_append_right _ hpart) ?_
    exact (hleft.apart _ (h.hole part (List.mem_append_right _ hpart))
      (h.not_affects part hpart)).2 v hv hmem
  · intro u hu hnot
    have hnotLeft : ¬s.Affects front u := fun haffects => hnot haffects.append_left
    obtain ⟨hself, hplaces⟩ := hleft.apart u hu hnotLeft
    have hnotRight : ¬s'.Affects rest u := by
      rintro ⟨part, hpart, heq | hmem⟩
      · exact hnot ⟨part, List.mem_append_right _ hpart, .inl heq⟩
      · refine hnot ⟨part, List.mem_append_right _ hpart, .inr ?_⟩
        exact hleft.mentions_subst h.settled hu hnotLeft
          (h.simple part (List.mem_append_right _ hpart)) hmem
    obtain ⟨hself', hplaces'⟩ :=
      hright.apart u ⟨Nat.lt_of_lt_of_le hu.1 hleft.refines.next, hself⟩ hnotRight
    refine ⟨hself', fun v hv hmem => ?_⟩
    rw [hright.refines.absorbs, Ty.mentions_subst] at hmem
    obtain ⟨w, hw, hmem⟩ := hmem
    obtain rfl := hplaces' w (hopen hv hw) hmem
    exact hplaces v hv hw

theorem Settled.fills_nil (hs : s.Settled) : Fills s s [] where
  refines := hs.refines
  solves _ hpart := (List.not_mem_nil hpart).elim
  keeps v hv _ := by
    rw [hv.2]
    rfl
  apart u hu _ := by
    refine ⟨hu.2, fun v hv hmem => ?_⟩
    rw [hv.2, Ty.mentions_unsolved] at hmem
    exact hmem.symm

/-- Solving by the substituted type is solving by the type. -/
theorem Fills.of_substituted (hs : s.Settled) {hole : Nat × Kind} {type : Ty}
    (htype : type.FirstOrder) (h : Fills s s' [(hole, s.substituteType type)]) :
    Fills s s' [(hole, type)] := by
  have hbare := hs.bare_substituteType htype
  refine ⟨h.refines, ?_, ?_, ?_⟩
  · intro part hpart
    obtain rfl := List.mem_singleton.1 hpart
    have hsolves := h.solves _ List.mem_cons_self
    rwa [hbare, h.refines.subst] at hsolves
  · intro v hv hother
    refine h.keeps v hv fun part hpart => ?_
    obtain rfl := List.mem_singleton.1 hpart
    exact hother (hole, type) List.mem_cons_self
  · intro u hu hnot
    refine h.apart u hu ?_
    rintro ⟨part, hpart, haffects⟩
    obtain rfl := List.mem_singleton.1 hpart
    rw [hbare, hs.subst_subst] at haffects
    exact hnot ⟨(hole, type), List.mem_cons_self, haffects⟩

/-! ## Solving one variable -/

/-- A variable that stands for itself and a type of limited depth that mentions other such variables
only. -/
structure Solvable (limit : Nat) (s : Store) (id : Nat) (type : Ty) : Prop where
  settled : s.Settled
  isOpen : s.IsOpen id
  simple : type.Simple s.nextType
  mentions : ∀ v, type.Mentions v → v ≠ id ∧ s.solution v = .unsolved v .type
  shallow : type.bare.Shallow limit

theorem Solvable.bare_subst {id : Nat} {type : Ty} (h : Solvable limit s id type) :
    type.bare.subst s.solution = type.bare :=
  Ty.bare_subst_self fun v hv => (h.mentions v hv).2

/-- The first of several parts is solved by what its type is now. -/
theorem Prepared.solvable {hole : Nat × Kind} {type : Ty}
    (h : Prepared limit s ((hole, type) :: rest)) :
    Solvable limit s hole.1 (s.substituteType type) := by
  have hsimple := h.simple _ List.mem_cons_self
  have hbare := h.settled.bare_substituteType hsimple.firstOrder
  refine ⟨h.settled, h.hole _ List.mem_cons_self, h.settled.substituteType hsimple,
    fun v hv => ⟨?_, h.settled.of_mentions hsimple.firstOrder hv⟩, ?_⟩
  · rintro rfl
    refine h.apart _ List.mem_cons_self _ List.mem_cons_self ?_
    rwa [← hbare, Ty.mentions_bare_iff]
  · rw [hbare]
    exact h.shallow _ List.mem_cons_self

section Solve

variable {id : Nat} {kind : Kind} {type : Ty}

/-- Solving a variable replaces it, or the variable that is its solution, in all solutions. -/
theorem Settled.solveType (hs : s.Settled) (hid : s.IsOpen id) (htype : type.Simple s.nextType)
    (hmentions : ∀ v, type.Mentions v → v ≠ id ∧ s.solution v = .unsolved v .type) :
    ∃ loser winner, Ty.Replaces id kind type loser winner ∧
      (s.solveType id kind type).Settled ∧ ∀ v, (s.solveType id kind type).solution v =
        (s.solution v).subst (Ty.single loser winner.bare) := by
  have hpick := Ty.picks_pickType s.stack.outermostFirst
  exact Ty.Settled.solve hs hpick hid.1 hid.2 htype hmentions

theorem Solvable.fills (h : Solvable limit s id type) :
    Fills s (s.solveType id kind type) [((id, kind), type)] := by
  obtain ⟨hs, hid, htype, hmentions, -⟩ := h
  obtain ⟨loser, winner, hreplaces, hsettled, hsolution⟩ := hs.solveType hid htype hmentions
  obtain ⟨hthis, hthat⟩ := hreplaces.subst_single fun hmem => (hmentions id hmem).1 rfl
  have hnext : s.nextType ≤ (s.solveType id kind type).nextType := Nat.le_refl _
  generalize s.solveType id kind type = s' at hsettled hsolution hnext ⊢
  have hsingle : ∀ {v}, s.solution v = .unsolved v .type →
      s'.solution v = Ty.single loser winner.bare v := by
    intro v hv
    rw [hsolution, hv, Ty.subst_unsolved]
  refine ⟨⟨hsettled, hnext, fun v => ?_⟩, ?_, ?_, ?_⟩
  · rw [hsolution]
    exact Ty.subst_congr fun w hw => (hsingle (hs.mentioned hw)).symm
  · intro part hpart
    obtain rfl := List.mem_singleton.1 hpart
    have hbare : type.bare.subst s'.solution = winner.bare := by
      rw [← hthat]
      exact Ty.subst_congr fun v hv => hsingle (hmentions v (Ty.mentions_bare_iff.1 hv)).2
    rw [hbare, hsolution, hid.2, hthis]
  · intro v hv hother
    have hne : v ≠ id := hother ((id, kind), type) List.mem_cons_self
    rw [hsingle hv.2]
    by_cases heq : v = loser
    · rw [heq, Ty.single_self]
      cases hreplaces with
      | solved => exact (hne heq).elim
      | represents =>
        rw [Ty.bare_unsolved]
        rfl
    · rw [Ty.single_of_ne heq]
      rfl
  · intro u hu hnot
    have hne : u ≠ id := fun heq => hnot ⟨_, List.mem_cons_self, .inl heq⟩
    have hfree : ¬type.Mentions u := by
      intro hmem
      refine hnot ⟨_, List.mem_cons_self, .inr ?_⟩
      rw [Ty.bare_subst_self fun v hv => (hmentions v hv).2, Ty.mentions_bare_iff]
      exact hmem
    have hloser : u ≠ loser ∧ ¬winner.Mentions u := by
      cases hreplaces with
      | solved => exact ⟨hne, hfree⟩
      | @represents other otherKind htype =>
        rw [htype, Ty.mentions_unsolved] at hfree
        exact ⟨hfree, fun hmem => hne (Ty.mentions_unsolved.1 hmem)⟩
    refine ⟨by rw [hsingle hu.2, Ty.single_of_ne hloser.1], fun v hv hmem => ?_⟩
    rw [hsingle hv.2] at hmem
    by_cases heq : v = loser
    · rw [heq, Ty.single_self, Ty.mentions_bare_iff] at hmem
      exact (hloser.2 hmem).elim
    · rw [Ty.single_of_ne heq, Ty.mentions_unsolved] at hmem
      exact hmem.symm

/-- It does not matter which of two variables is solved by the other. -/
theorem Fills.swap {other : Nat} {otherKind : Kind} (hid : s.IsOpen id) (hother : s.IsOpen other)
    (hne : other ≠ id) (h : Fills s s' [((other, otherKind), .unsolved id kind)]) :
    Fills s s' [((id, kind), .unsolved other otherKind)] := by
  have hsame : s'.solution other = s'.solution id := by
    have hsolves := h.solves _ List.mem_cons_self
    rwa [Ty.bare_unsolved, Ty.subst_unsolved] at hsolves
  have hkept : ∀ v, s.IsOpen v → v ≠ other → (s'.solution v).isUnsolved = true := by
    intro v hv hvOther
    refine h.keeps v hv fun part hpart => ?_
    obtain rfl := List.mem_singleton.1 hpart
    exact hvOther
  refine ⟨h.refines, ?_, ?_, ?_⟩
  · intro part hpart
    obtain rfl := List.mem_singleton.1 hpart
    rw [Ty.bare_unsolved, Ty.subst_unsolved]
    exact hsame.symm
  · intro v hv _
    by_cases heq : v = other
    · rw [heq, hsame]
      exact hkept id hid hne.symm
    · exact hkept v hv heq
  · intro u hu hnot
    refine h.apart u hu ?_
    rintro ⟨part, hpart, haffects⟩
    obtain rfl := List.mem_singleton.1 hpart
    rw [Ty.bare_unsolved, Ty.subst_unsolved, hid.2, Ty.mentions_unsolved] at haffects
    refine hnot ⟨_, List.mem_cons_self, ?_⟩
    rw [Ty.bare_unsolved, Ty.subst_unsolved, hother.2, Ty.mentions_unsolved]
    exact haffects.symm

end Solve

/-! ## Solving a variable part by part -/

/-- Variables are created, and all others keep their solutions. -/
structure FreshTypes (s s' : Store) (holes : List (Nat × Kind)) : Prop where
  settled : s'.Settled
  next : s.nextType ≤ s'.nextType
  solution : s'.solution = s.solution
  hole : ∀ hole ∈ holes, s.nextType ≤ hole.1 ∧ hole.1 < s'.nextType
  distinct : holes.Pairwise fun hole hole' => hole.1 ≠ hole'.1

theorem FreshTypes.append {holes holes' : List (Nat × Kind)} (h : FreshTypes s s' holes)
    (h' : FreshTypes s' s'' holes') : FreshTypes s s'' (holes ++ holes') where
  settled := h'.settled
  next := Nat.le_trans h.next h'.next
  solution := h'.solution.trans h.solution
  hole hole hmem := by
    have hnext := h.next
    have hnext' := h'.next
    rcases List.mem_append.1 hmem with hmem | hmem
    · obtain ⟨hle, hlt⟩ := h.hole hole hmem
      omega
    · obtain ⟨hle, hlt⟩ := h'.hole hole hmem
      omega
  distinct := by
    refine List.pairwise_append.2 ⟨h.distinct, h'.distinct, fun hole hmem hole' hmem' => ?_⟩
    obtain ⟨-, hlt⟩ := h.hole hole hmem
    obtain ⟨hle, -⟩ := h'.hole hole' hmem'
    omega

/-- The type of fresh variables, one for each argument, by which a variable is solved. -/
def shell (head : Ty) (holes : List (Nat × Kind)) (kind : Kind) : Ty :=
  .apply head (holes.map fun hole => .unsolved hole.1 hole.2) kind

theorem map_eq_map_of_zip {α β γ : Type} {f : α → γ} {g : β → γ} {items : List α}
    {items' : List β} (hlength : items.length = items'.length)
    (h : ∀ pair ∈ items.zip items', f pair.1 = g pair.2) : items.map f = items'.map g := by
  induction items generalizing items' with
  | nil =>
    rw [List.length_nil] at hlength
    rw [List.eq_nil_of_length_eq_zero hlength.symm]
    rfl
  | cons item rest ih =>
    cases items' with
    | nil => cases hlength
    | cons item' rest' =>
      have hfirst : f item = g item' := h (item, item') List.mem_cons_self
      rw [List.map_cons, List.map_cons, hfirst,
        ih (Nat.succ.inj hlength) fun pair hpair => h pair (List.mem_cons_of_mem _ hpair)]

/-- A variable was solved by a shell of fresh variables. -/
structure Shelled (s s' : Store) (id : Nat) (head : Ty) (holes : List (Nat × Kind)) : Prop where
  settled : s'.Settled
  next : s.nextType ≤ s'.nextType
  solution : ∀ v, s'.solution v =
    (s.solution v).subst (Ty.single id (shell head holes .type).bare)
  hole : ∀ hole ∈ holes, s.nextType ≤ hole.1 ∧ hole.1 < s'.nextType
  distinct : holes.Pairwise fun hole hole' => hole.1 ≠ hole'.1

section Shell

variable {id : Nat} {kind : Kind} {head head' : Ty} {args : List Ty} {applied : Kind}
  {holes : List (Nat × Kind)}

theorem bare_shell (head : Ty) (holes : List (Nat × Kind)) (kind : Kind) :
    (shell head holes kind).bare = .apply (Ty.arrow holes.length head.bare)
      (holes.map fun hole => .unsolved hole.1 .type) .type := by
  simp [shell, Function.comp_def]

theorem FreshTypes.shelled (h : FreshTypes s s' holes) (hs : s.Settled) (hid : s.IsOpen id)
    (hhead : head.isUnsolved = false) (hsimple : head.Simple s.nextType)
    (hmentions : ∀ v, head.Mentions v → v ≠ id ∧ s.solution v = .unsolved v .type) :
    Shelled s (s'.solveType id kind (shell head holes applied)) id head holes := by
  have hwhole : (shell head holes applied).Simple s'.nextType := by
    refine Ty.simple_apply.2 ⟨hhead, hsimple.mono h.next, fun arg harg => ?_⟩
    obtain ⟨hole, hhole, rfl⟩ := List.mem_map.1 harg
    exact Ty.simple_unsolved.2 (h.hole hole hhole).2
  have hwholeMentions : ∀ v, (shell head holes applied).Mentions v →
      v ≠ id ∧ s'.solution v = .unsolved v .type := by
    intro v hv
    rw [h.solution]
    rcases Ty.mentions_apply.1 hv with hv | ⟨arg, harg, hv⟩
    · exact hmentions v hv
    · obtain ⟨hole, hhole, rfl⟩ := List.mem_map.1 harg
      have hle := (h.hole hole hhole).1
      have hlt := hid.1
      rw [Ty.mentions_unsolved.1 hv]
      exact ⟨by omega, hs.of_uncreated hle⟩
  have hid' : s'.IsOpen id := ⟨Nat.lt_of_lt_of_le hid.1 h.next, by rw [h.solution, hid.2]⟩
  obtain ⟨loser, winner, hreplaces, hsettled, hsolution⟩ :=
    h.settled.solveType hid' hwhole hwholeMentions
  cases hreplaces with
  | represents heq => cases heq
  | solved =>
    refine ⟨hsettled, h.next, fun v => ?_, h.hole, h.distinct⟩
    rw [hsolution, h.solution, bare_shell, bare_shell]

/-- The fresh variables are prepared to be solved by the arguments of the type that the variable is
to match. -/
theorem Shelled.prepared (h : Shelled s s' id head' holes)
    (htype : Solvable (limit + 1) s id (.apply head args applied))
    (hlength : holes.length = args.length) : Prepared limit s' (holes.zip args) := by
  obtain ⟨hs, hid, hsimple, hmentions, hshallow⟩ := htype
  rw [Ty.bare_apply] at hshallow
  have hpart : ∀ {part}, part ∈ holes.zip args → part.1 ∈ holes ∧ part.2 ∈ args :=
    fun hpart => List.of_mem_zip hpart
  have harg : ∀ {arg v}, arg ∈ args → Ty.Mentions v arg →
      v < s.nextType ∧ v ≠ id ∧ s.solution v = .unsolved v .type := by
    intro arg v harg hv
    have hmem : (Ty.apply head args applied).Mentions v :=
        Ty.mentions_apply.2 (.inr ⟨arg, harg, hv⟩)
    exact ⟨hsimple.lt hmem, hmentions v hmem⟩
  have hself : ∀ {arg}, arg ∈ args → arg.bare.subst s'.solution = arg.bare := by
    intro arg hmem
    refine Ty.bare_subst_self fun v hv => ?_
    obtain ⟨-, hne, hfinal⟩ := harg hmem hv
    rw [h.solution, hfinal, Ty.subst_unsolved, Ty.single_of_ne hne]
  refine ⟨h.settled, fun part hmem => ?_, fun part hmem => ?_, fun part hmem => ?_, ?_,
    fun part hmem part' hmem' hmentioned => ?_⟩
  · obtain ⟨hle, hlt⟩ := h.hole part.1 (hpart hmem).1
    refine ⟨hlt, ?_⟩
    have hne : part.1.1 ≠ id := by
      have hidLt := hid.1
      omega
    rw [h.solution, hs.of_uncreated hle, Ty.subst_unsolved, Ty.single_of_ne hne]
  · exact ((Ty.simple_apply.1 hsimple).2.2 _ (hpart hmem).2).mono h.next
  · rw [hself (hpart hmem).2]
    exact hshallow.arg _ (List.mem_map_of_mem (hpart hmem).2)
  · have hdistinct := h.distinct
    rw [← List.map_fst_zip (Nat.le_of_eq hlength), List.pairwise_map] at hdistinct
    exact hdistinct
  · rw [hself (hpart hmem').2, Ty.mentions_bare_iff] at hmentioned
    obtain ⟨hlt, -, -⟩ := harg (hpart hmem').2 hmentioned
    have hle := (h.hole part.1 (hpart hmem).1).1
    omega

/-- A shell whose variables are solved by the arguments is the type that was to be matched. -/
theorem Shelled.fills (h : Shelled s s' id head' holes)
    (htype : Solvable (limit + 1) s id (.apply head args applied))
    (harrow : Ty.arrow args.length head'.bare = Ty.arrow args.length head.bare)
    (hlength : holes.length = args.length) (hfills : Fills s' s'' (holes.zip args)) :
    Fills s s'' [((id, kind), .apply head args applied)] := by
  have hself := htype.bare_subst
  obtain ⟨hs, hid, hsimple, hmentions, -⟩ := htype
  have hshell : s'.solution id = (shell head' holes .type).bare := by
    rw [h.solution, hid.2, Ty.subst_unsolved, Ty.single_self]
  have hopen : ∀ {v}, s.IsOpen v → v ≠ id → s'.IsOpen v := fun hv hne =>
    ⟨Nat.lt_of_lt_of_le hv.1 h.next,
      by rw [h.solution, hv.2, Ty.subst_unsolved, Ty.single_of_ne hne]⟩
  have hrefines : RefinesTypes s s' := by
    refine ⟨h.settled, h.next, fun v => ?_⟩
    rw [h.solution]
    refine Ty.subst_congr fun w hw => ?_
    rw [h.solution, hs.mentioned hw, Ty.subst_unsolved]
  have hargs : (holes.map fun hole => s''.solution hole.1) =
      args.map fun arg => arg.bare.subst s''.solution :=
    map_eq_map_of_zip hlength hfills.solves
  have hsolves : s''.solution id = (Ty.apply head args applied).bare.subst s''.solution := by
    rw [hfills.refines.absorbs, hshell, bare_shell, Ty.bare_apply, Ty.subst_apply, Ty.subst_apply,
      hlength, harrow, List.map_map, List.map_map]
    simp only [Function.comp_def, Ty.subst_unsolved]
    rw [hargs]
  have hnotHole : ∀ {v}, v < s.nextType → ∀ part ∈ holes.zip args, v ≠ part.1.1 := by
    rintro v hv part hpart rfl
    have hle := (h.hole part.1 (List.of_mem_zip hpart).1).1
    omega
  refine ⟨hrefines.trans hfills.refines, ?_, ?_, ?_⟩
  · intro part hpart
    obtain rfl := List.mem_singleton.1 hpart
    exact hsolves
  · intro v hv hother
    exact hfills.keeps v (hopen hv (hother _ List.mem_cons_self)) (hnotHole hv.1)
  · intro u hu hnot
    have hne : u ≠ id := fun heq => hnot ⟨_, List.mem_cons_self, .inl heq⟩
    have hfree : ¬(Ty.apply head args applied).Mentions u := by
      intro hmem
      refine hnot ⟨_, List.mem_cons_self, .inr ?_⟩
      dsimp only
      rwa [hself, Ty.mentions_bare_iff]
    have hmentioned : ∀ {arg}, arg ∈ args → ¬(arg.bare.subst s'.solution).Mentions u := by
      intro arg harg hmem
      obtain ⟨v, hv, hmem⟩ := Ty.mentions_subst.1 hmem
      have hin : (Ty.apply head args applied).Mentions v :=
        Ty.mentions_apply.2 (.inr ⟨arg, harg, Ty.mentions_bare_iff.1 hv⟩)
      obtain ⟨hvne, hfinal⟩ := hmentions v hin
      rw [(hopen ⟨hsimple.lt hin, hfinal⟩ hvne).2, Ty.mentions_unsolved] at hmem
      exact hfree (hmem ▸ hin)
    obtain ⟨hu', hplaces⟩ := hfills.apart u (hopen hu hne) fun haffects => by
      obtain ⟨part, hpart, heq | hmem⟩ := haffects
      · exact hnotHole hu.1 part hpart heq
      · exact hmentioned (List.of_mem_zip hpart).2 hmem
    refine ⟨hu', fun v hv hmem => ?_⟩
    by_cases heq : v = id
    · -- The solved variable mentions only what the parts do.
      rw [heq, hsolves, Ty.mentions_subst] at hmem
      obtain ⟨w, hw, hmem⟩ := hmem
      rw [Ty.mentions_bare_iff] at hw
      obtain ⟨hwne, hfinal⟩ := hmentions w hw
      obtain rfl := hplaces w (hopen ⟨hsimple.lt hw, hfinal⟩ hwne) hmem
      exact (hfree hw).elim
    · exact hplaces v (hopen hv heq) hmem

end Shell

end Store

namespace Solve

open Run Store

variable {s s' : Store} {limit : Nat}

/-- A fresh variable stands for itself, and all others keep their solutions. -/
theorem freshVariable_fresh (hs : s.Settled) (kind : Kind) :
    Ends (freshVariable kind) s fun hole s' => FreshTypes s s' [hole] := by
  refine Ends.bind (Ends.get (Ends.bind (Ends.modify ?_)))
  refine Ends.bind (Ends.bind (Ends.modify ?_))
  refine onStack_ends fun _ stack => Ends.pure ?_
  obtain ⟨hsettled, hsolution⟩ := Ty.Settled.add hs kind
  refine ⟨hsettled, Nat.le_succ _, hsolution, fun hole hmem => ?_, List.pairwise_singleton _ _⟩
  obtain rfl := List.mem_singleton.1 hmem
  exact ⟨Nat.le_refl _, Nat.lt_succ_self _⟩

theorem freshVariables_fresh (types : List Ty) : ∀ {s : Store}, s.Settled →
    Ends (types.mapM fun type => freshVariable type.kind) s fun holes s' =>
      FreshTypes s s' holes ∧ holes.length = types.length := by
  induction types with
  | nil =>
    intro s hs
    exact Ends.pure ⟨⟨hs, Nat.le_refl _, rfl, fun _ hmem => (List.not_mem_nil hmem).elim,
      List.Pairwise.nil⟩, rfl⟩
  | cons type rest ih =>
    intro s hs
    rw [List.mapM_cons]
    refine Ends.bind ((freshVariable_fresh hs _).mono fun hole s₁ hfresh => ?_)
    refine Ends.bind ((ih hfresh.settled).mono fun holes s₂ hrest => ?_)
    exact Ends.pure ⟨hfresh.append hrest.1, by simp [hrest.2]⟩

/-- A variable gets the value of every type of limited depth. -/
def FillsWithin (limit : Nat) (instantiate : Nat × Kind → Ty → Solve Unit) : Prop :=
  ∀ {s : Store} (hole : Nat × Kind) (type : Ty), Solvable limit s hole.1 type →
    Ends (instantiate hole type) s fun _ s' => Fills s s' [(hole, type)]

/-- Parts that are prepared are solved one after the other. -/
theorem FillsWithin.parts {instantiate : Nat × Kind → Ty → Solve Unit}
    (h : FillsWithin limit instantiate) (parts : Parts) : ∀ {s : Store}, Prepared limit s parts →
    Ends (parts.forM fun (hole, type) => do instantiate hole (← substituteType type)) s
      fun _ s' => Fills s s' parts := by
  induction parts with
  | nil =>
    intro s hprepared
    exact Ends.pure hprepared.settled.fills_nil
  | cons part rest ih =>
    intro s hprepared
    obtain ⟨hole, type⟩ := part
    have htype := (hprepared.simple _ List.mem_cons_self).firstOrder
    refine Ends.bind (Ends.bind (Ends.bind (Ends.get (Ends.pure ?_))))
    refine (h hole _ hprepared.solvable).mono fun _ s₁ hfirst => ?_
    have hfirst : Fills s s₁ [(hole, type)] := hfirst.of_substituted hprepared.settled htype
    have hsplit : Prepared limit s ([(hole, type)] ++ rest) := hprepared
    exact (ih (hsplit.after hfirst)).mono fun _ s₂ hrest => Fills.append hsplit hfirst hrest

/-- What is no application is solved at once. -/
theorem fillsWithin_of_apply {side : Side} (happly : ∀ {s : Store} {id : Nat} {kind : Kind}
      {head : Ty} {args : List Ty} {applied : Kind},
          Solvable limit s id (.apply head args applied) →
      Ends (instantiateTypeWithin (limit + 1) side (id, kind) (.apply head args applied)) s
        fun _ s' => Fills s s' [((id, kind), .apply head args applied)]) :
    FillsWithin limit (instantiateTypeWithin (limit + 1) side) := by
  intro s ⟨id, kind⟩ type h
  cases type with
  | var quantifier name varKind => exact Ends.modify h.fills
  | constructor name constructorKind => exact Ends.modify h.fills
  | builtIn type => exact Ends.modify h.fills
  | apply head args applied => exact happly h
  | quantified binders body quantifiedKind =>
    exact (Ty.not_firstOrder_quantified _ _ _ h.simple.firstOrder).elim
  | unsolved other otherKind =>
    obtain ⟨hne, hfinal⟩ := h.mentions other (Ty.mentions_unsolved.2 rfl)
    have hother : s.IsOpen other := ⟨Ty.simple_unsolved.1 h.simple, hfinal⟩
    have hflipped : Solvable limit s other (.unsolved id kind) := by
      refine ⟨h.settled, hother, Ty.simple_unsolved.2 h.isOpen.1, fun v hv => ?_, ?_⟩
      · rw [Ty.mentions_unsolved.1 hv]
        exact ⟨hne.symm, h.isOpen.2⟩
      · intro depth part hat
        rw [Ty.bare_unsolved] at hat
        cases hat
        exact Nat.zero_le _
    exact Ends.modify (Fills.swap h.isOpen hother hne hflipped.fills)

/-- A function type is matched by an arrow of its arity. -/
theorem arrow_of_function? {head result : Ty} {params : List Ty} {applied : Kind}
    (h : (Ty.apply head (params ++ [result]) applied).function? = some (params, result)) :
    Ty.arrow (params ++ [result]).length (Ty.builtIn (.function params.length)).bare =
      Ty.arrow (params ++ [result]).length head.bare := by
  have hfunction : (Ty.apply head (params ++ [result]) applied).isFunction = true := by
    rw [Ty.isFunction, h]
    rfl
  obtain ⟨⟨arity, rfl⟩, -⟩ := Ty.isFunction_apply.1 hfunction
  simp [Ty.arrow]

/-- Applications are solved part by part. -/
theorem instantiateApply_fills
    (ih : ∀ side, FillsWithin limit (instantiateTypeWithin (limit + 1) side)) (side : Side)
        {id : Nat} {kind : Kind} {head : Ty} {args : List Ty} {applied : Kind}
    (h : Solvable (limit + 1) s id (.apply head args applied)) :
    Ends (instantiateTypeWithin (limit + 1 + 1) side (id, kind) (.apply head args applied)) s
      fun _ s' => Fills s s' [((id, kind), .apply head args applied)] := by
  obtain ⟨hhead, hheadSimple, -⟩ := Ty.simple_apply.1 h.simple
  rw [instantiateTypeWithin]
  dsimp only
  cases hfunction : (Ty.apply head args applied).function? with
  | some function =>
    obtain ⟨params, result⟩ := function
    obtain rfl := function?_eq_some hfunction
    refine Ends.bind ((freshVariables_fresh params h.settled).mono ?_)
    rintro holes s₁ ⟨hfresh₁, hlength⟩
    refine Ends.bind ((freshVariable_fresh hfresh₁.settled _).mono fun hole s₂ hfresh₂ => ?_)
    have hbuiltIn : (Ty.builtIn (.function holes.length)).Simple s.nextType :=
      Ty.simple_iff.2 ⟨Ty.firstOrder_builtIn _, fun v hv =>
          by simp [Ty.Mentions, Ty.mentions] at hv⟩
    have hshelled : Shelled s (s₂.solveType id kind (shell (.builtIn (.function holes.length))
        (holes ++ [hole]) .type)) id (.builtIn (.function holes.length)) (holes ++ [hole]) :=
      (hfresh₁.append hfresh₂).shelled h.settled h.isOpen rfl hbuiltIn
        fun v hv => by simp [Ty.Mentions, Ty.mentions] at hv
    have harrow : Ty.arrow (params ++ [result]).length (Ty.builtIn (.function holes.length)).bare =
        Ty.arrow (params ++ [result]).length head.bare := by
      rw [hlength]
      exact arrow_of_function? hfunction
    have hwhole : Ty.function (holes.map fun hole => .unsolved hole.1 hole.2)
        (.unsolved hole.1 hole.2) = shell (.builtIn (.function holes.length)) (holes ++ [hole])
          .type := by simp [Ty.function, shell]
    have hlengths : (holes ++ [hole]).length = (params ++ [result]).length := by simp [hlength]
    refine Ends.bind (Ends.modify ?_)
    rw [hwhole]
    have hprepared := hshelled.prepared h hlengths
    rw [List.zip_append hlength] at hprepared
    refine Ends.bind ((FillsWithin.parts (ih side.flip) _ hprepared.left).mono
        fun _ s₃ hparams => ?_)
    refine (FillsWithin.parts (ih side) _ (hprepared.after hparams)).mono fun _ s₄ hresult => ?_
    refine hshelled.fills h harrow hlengths ?_
    rw [List.zip_append hlength]
    exact Fills.append hprepared hparams hresult
  | none =>
    refine Ends.bind ((freshVariables_fresh args h.settled).mono ?_)
    rintro holes s₁ ⟨hfresh, hlength⟩
    have hshelled : Shelled s (s₁.solveType id kind (shell head holes applied)) id head holes :=
      hfresh.shelled h.settled h.isOpen hhead hheadSimple
        fun v hv => h.mentions v (Ty.mentions_apply.2 (.inl hv))
    refine Ends.bind (Ends.modify ?_)
    refine (FillsWithin.parts (ih side) _ (hshelled.prepared h hlength)).mono fun _ s₂ hargs => ?_
    exact hshelled.fills h rfl hlength hargs

/-- Instantiation to a depth gives a variable the value of every type that is less deep. -/
theorem instantiateTypeWithin_fills (limit : Nat) :
    ∀ side, FillsWithin limit (instantiateTypeWithin (limit + 1) side) := by
  induction limit with
  | zero =>
    refine fun side => fillsWithin_of_apply fun h => ?_
    have hshallow := h.shallow
    rw [Ty.bare_apply] at hshallow
    exact (Ty.not_shallow_zero _ _ _ hshallow).elim
  | succ limit ih => exact fun side => fillsWithin_of_apply (instantiateApply_fills ih side)

end Solve

end PolyFront
