import PolyFront.Proofs.Solutions.KindTerms

/-!
# Solutions of kinds

A partition of kinds holds acyclic solutions when no variable is reached again from its own
solution.  Then a substituted kind mentions only variables that stand for themselves, so that
substituting it again changes nothing.  Solving a variable that stands for itself, closing the
solutions and removing variables keep the solutions acyclic, since whatever they put below a
variable has nothing below it.
-/

namespace PolyFront

/-- A relation stays well founded when all that is new below something has nothing below it. -/
theorem wellFounded_of_minimal {r r' : Nat → Nat → Prop} (h : WellFounded r)
    (hnew : ∀ w v, r' w v → r w v ∨ ∀ u, ¬r' u w) : WellFounded r' := by
  refine ⟨fun v => ?_⟩
  induction v using h.induction with
  | h v ih =>
    refine Acc.intro v fun w hw => ?_
    rcases hnew w v hw with hold | hminimal
    · exact ih w hold
    · exact Acc.intro w fun u hu => (hminimal u hu).elim

theorem WellFounded.not_transGen {r : Nat → Nat → Prop} (h : WellFounded r) (v : Nat) :
    ¬Relation.TransGen r v v := by
  induction v using h.transGen.induction with
  | h v ih =>
    intro hself
    exact ih v hself hself

namespace Partition

theorem exists_mem_elements {α : Type} [BEq α] {partition : Partition α} {a : α} {c : Class α}
    (h : partition.classOf? a = some c) : ∃ b ∈ partition.elements, (a == b) = true := by
  obtain ⟨hc, hca⟩ := mem_of_classOf? h
  obtain ⟨b, hb, hab⟩ := Class.has_iff.1 hca
  exact ⟨b, List.mem_flatMap.2 ⟨c, hc, hb⟩, hab⟩

/-- A variable is in no class when as many other variables are as the partition has elements. -/
theorem absent_of_size_le {α : Type} [BEq α] {partition : Partition α} (term : Nat → α)
    (idOf : α → Option Nat) (hterm : ∀ {id a}, (term id == a) = true → idOf a = some id)
    {id : Nat} {seen : List Nat} (hnodup : seen.Nodup) (hid : id ∉ seen)
    (hseen : ∀ s ∈ seen, ∃ c, partition.classOf? (term s) = some c)
    (hsize : partition.size ≤ seen.length) : partition.classOf? (term id) = none := by
  rw [← Option.not_isSome_iff_eq_none]
  intro hsome
  have hsubset : id :: seen ⊆ partition.elements.filterMap idOf := by
    intro s hs
    have hpresent : ∃ c, partition.classOf? (term s) = some c := by
      rcases List.mem_cons.1 hs with rfl | hs
      · exact Option.isSome_iff_exists.1 hsome
      · exact hseen s hs
    obtain ⟨c, hc⟩ := hpresent
    obtain ⟨b, hb, heq⟩ := exists_mem_elements hc
    exact List.mem_filterMap.2 ⟨b, hb, hterm heq⟩
  have hlength : (id :: seen).length ≤ partition.elements.length :=
    Nat.le_trans ((List.nodup_cons.2 ⟨hid, hnodup⟩).length_le_of_subset hsubset)
      (List.length_filterMap_le ..)
  rw [List.length_cons] at hlength
  rw [size] at hsize
  omega

end Partition

namespace Kind

def unknown? : Kind → Option Nat
  | .unsolved id => some id
  | _ => none

/-- The variable `inner` stands in the solution of `outer`. -/
def Within (kinds : Partition Kind) (inner outer : Nat) : Prop :=
  ¬kinds.Final (.unsolved outer) ∧ inner ∈ (kinds.find (.unsolved outer)).unknowns

/-- Sound solutions of which none is reached from itself. -/
structure Acyclic (created : Nat) (kinds : Partition Kind) : Prop where
  sound : kinds.Sound shape (Proper created)
  wellFounded : WellFounded (Within kinds)

theorem final_iff {kinds : Partition Kind} {kind : Kind} :
    kinds.Final kind ↔ kinds.find kind = kind := by
  rw [Partition.Final, beq_iff_eq]

variable {created : Nat} {kinds : Partition Kind}

/-! ## Substitution -/

/-- With fuel for every element that is not being expanded, an expansion is that of the solution
of the variable. -/
theorem expand_eq (h : WellFounded (Within kinds)) (id : Nat) : ∀ (fuel : Nat) (seen : List Nat),
    seen.Nodup → (∀ s ∈ seen, (∃ c, kinds.classOf? (.unsolved s) = some c) ∧
      Relation.TransGen (Within kinds) id s) →
    kinds.size ≤ fuel + seen.length →
    expand kinds fuel seen id = if kinds.find (.unsolved id) = .unsolved id then .unsolved id
      else (kinds.find (.unsolved id)).substitute kinds := by
  induction id using h.induction with
  | h id ih =>
    intro fuel seen hnodup hseen hsize
    have hid : id ∉ seen := fun hmem => WellFounded.not_transGen h id (hseen id hmem).2
    cases fuel with
    | zero =>
      have habsent : kinds.classOf? (.unsolved id) = none := by
        refine Partition.absent_of_size_le .unsolved unknown? ?_ hnodup hid
          (fun s hs => (hseen s hs).1) (by omega)
        intro other kind heq
        rw [← eq_of_beq heq, unknown?]
      rw [expand, if_pos (Partition.find_of_absent habsent)]
    | succ fuel =>
      rw [expand, if_neg hid]
      dsimp only
      by_cases hne : kinds.find (.unsolved id) = .unsolved id
      · rw [if_pos hne, if_pos hne, hne]
      · rw [if_neg hne, if_neg hne]
        refine bind_congr fun inner hinner => ?_
        have hwithin : Within kinds inner id := ⟨fun hfinal => hne (final_iff.1 hfinal), hinner⟩
        have hpresent : ∃ c, kinds.classOf? (.unsolved id) = some c := by
          cases hclass : kinds.classOf? (.unsolved id) with
          | none => exact (hne (Partition.find_of_absent hclass)).elim
          | some c => exact ⟨c, rfl⟩
        rw [ih inner hwithin fuel (id :: seen), ih inner hwithin kinds.size []]
        · exact List.nodup_nil
        · intro s hs
          exact (List.not_mem_nil hs).elim
        · exact Nat.le_refl _
        · exact List.nodup_cons.2 ⟨hid, hnodup⟩
        · intro s hs
          rcases List.mem_cons.1 hs with rfl | hs
          · exact ⟨hpresent, .single hwithin⟩
          · exact ⟨(hseen s hs).1, .trans (.single hwithin) (hseen s hs).2⟩
        · rw [List.length_cons]
          omega

/-- The substitution of a variable is that of its solution. -/
theorem substitute_unsolved (h : WellFounded (Within kinds)) (id : Nat) :
    substitute kinds (.unsolved id) = if kinds.find (.unsolved id) = .unsolved id then .unsolved id
      else (kinds.find (.unsolved id)).substitute kinds := by
  rw [substitute, bind_unsolved]
  refine expand_eq h id kinds.size [] List.nodup_nil ?_ (Nat.le_refl _)
  intro s hs
  exact (List.not_mem_nil hs).elim

theorem mem_unknowns_substitute {kind : Kind} {id : Nat} :
    id ∈ (kind.substitute kinds).unknowns ↔
      ∃ other ∈ kind.unknowns, id ∈ (substitute kinds (.unsolved other)).unknowns := by
  rw [substitute, mem_unknowns_bind]
  simp only [substitute, bind_unsolved]

/-- A substituted kind mentions only variables that stand for themselves. -/
theorem final_of_mem_substitute (h : WellFounded (Within kinds)) {kind : Kind} {id : Nat}
    (hid : id ∈ (kind.substitute kinds).unknowns) : kinds.Final (.unsolved id) := by
  obtain ⟨other, -, hid⟩ := mem_unknowns_substitute.1 hid
  induction other using h.induction with
  | h other ih =>
    rw [substitute_unsolved h] at hid
    split at hid
    · rename_i heq
      obtain rfl : id = other := by simpa using hid
      exact final_iff.2 heq
    · rename_i hne
      obtain ⟨inner, hinner, hid⟩ := mem_unknowns_substitute.1 hid
      exact ih inner ⟨fun hfinal => hne (final_iff.1 hfinal), hinner⟩ hid

theorem substitute_of_final (h : WellFounded (Within kinds)) {kind : Kind}
    (hfinal : ∀ id ∈ kind.unknowns, kinds.Final (.unsolved id)) : kind.substitute kinds = kind := by
  refine bind_self fun id hid => ?_
  have hsubstitute := substitute_unsolved h id
  rw [if_pos (final_iff.1 (hfinal id hid)), substitute, bind_unsolved] at hsubstitute
  exact hsubstitute

/-- Substituting a second time changes nothing. -/
theorem substitute_substitute (h : WellFounded (Within kinds)) (kind : Kind) :
    (kind.substitute kinds).substitute kinds = kind.substitute kinds :=
  substitute_of_final h fun _ hid => final_of_mem_substitute h hid

/-- A variable that is solved is not part of its own substitution. -/
theorem not_mem_substitute_self (h : WellFounded (Within kinds)) {id : Nat}
    (hsolved : ¬kinds.Final (.unsolved id)) :
    id ∉ (substitute kinds (.unsolved id)).unknowns :=
  fun hid => hsolved (final_of_mem_substitute h hid)

theorem Acyclic.substitute_proper (h : Acyclic created kinds) {kind : Kind}
    (hkind : kind.Proper created) : (kind.substitute kinds).Proper created := by
  intro id hid
  obtain ⟨other, hother, hid⟩ := mem_unknowns_substitute.1 hid
  have hcreated := hkind other hother
  clear hother
  induction other using h.wellFounded.induction with
  | h other ih =>
    rw [substitute_unsolved h.wellFounded] at hid
    split at hid
    · obtain rfl : id = other := by simpa using hid
      exact hcreated
    · rename_i hne
      obtain ⟨inner, hinner, hid⟩ := mem_unknowns_substitute.1 hid
      have hproper := h.sound.find_good (proper_unsolved.2 hcreated)
      exact ih inner ⟨fun hfinal => hne (final_iff.1 hfinal), hinner⟩ hid (hproper inner hinner)

/-! ## Changing the solutions -/

theorem within_of_find_eq {kinds' : Partition Kind} {inner outer : Nat}
    (heq : kinds'.find (.unsolved outer) = kinds.find (.unsolved outer))
    (h : Within kinds' inner outer) : Within kinds inner outer := by
  rw [Within, Partition.Final, heq] at h
  exact h

/-- Nothing stands in the solution of a variable that stands for itself. -/
theorem not_within_of_final {inner outer : Nat} (h : kinds.Final (.unsolved outer)) :
    ¬Within kinds inner outer :=
  fun hwithin => hwithin.1 h

theorem wellFounded_empty : WellFounded (Within Partition.empty) := by
  refine ⟨fun v => Acc.intro v fun w hw => (hw.1 ?_).elim⟩
  exact BEq.refl _

theorem Acyclic.empty : Acyclic created Partition.empty := ⟨.empty, wellFounded_empty⟩

theorem Acyclic.mono {created' : Nat} (h : Acyclic created kinds) (hle : created ≤ created') :
    Acyclic created' kinds :=
  ⟨h.sound.mono fun _ hkind => hkind.mono hle, h.wellFounded⟩

theorem Acyclic.add (h : Acyclic created kinds) {kind : Kind} (hkind : kind.Proper created) :
    Acyclic created (kinds.add kind) := by
  refine ⟨h.sound.add hkind, wellFounded_of_minimal h.wellFounded fun w v hwithin => .inl ?_⟩
  exact within_of_find_eq (eq_of_beq (Partition.find_add_beq kinds kind _)) hwithin

/-- What a variable can be unified with: `*`, another variable that stands for itself, or a new
kind that mentions other such variables only. -/
inductive Solution (kinds : Partition Kind) (id : Nat) : Kind → Prop where
  | type : Solution kinds id .type
  | unknown {other : Nat} (hne : other ≠ id) (hfinal : kinds.Final (.unsolved other)) :
    Solution kinds id (.unsolved other)
  | compound {kind : Kind} (hcompound : kind.isUnsolved = false)
    (hnew : kinds.classOf? kind = none)
    (hfinal : ∀ other ∈ kind.unknowns, other ≠ id ∧ kinds.Final (.unsolved other)) :
    Solution kinds id kind

theorem Acyclic.solve (h : Acyclic created kinds) {id : Nat} {kind : Kind}
    {pick : Kind → Kind → Kind} (hpick : shape.Picks pick) (hid : id < created)
    (hfinal : kinds.Final (.unsolved id)) (hkind : kind.Proper created)
    (hsolution : Solution kinds id kind) :
    Acyclic created (kinds.union (.unsolved id) kind pick) := by
  have hproper : Proper created (.unsolved id) := proper_unsolved.2 hid
  have hunknown : shape.unknown (kinds.find (.unsolved id)) = true := by
    rw [final_iff.1 hfinal]
    rfl
  have hsound := h.sound.union hpick hproper hkind hunknown
  have hne : ((.unsolved id : Kind) == kind) = false := by
    rw [beq_eq_false_iff_ne]
    rintro rfl
    cases hsolution with
    | unknown hne _ => exact hne rfl
    | compound hcompound _ _ => cases hcompound
  have hcase : kinds.classOf? kind = none ∨ shape.leaf kind = true ∨
      shape.unknown kind = true ∧ kinds.Final kind := by
    cases hsolution with
    | type => exact .inr (.inl rfl)
    | unknown _ hother => exact .inr (.inr ⟨rfl, hother⟩)
    | compound _ hnew _ => exact .inl hnew
  obtain ⟨loser, winner, hmerges, hcases⟩ :=
    h.sound.merges hpick hproper hkind rfl hfinal hne hcase
  -- Everything the winner mentions stands for itself afterwards.
  have hwinner : ∀ w ∈ winner.unknowns,
      (kinds.union (.unsolved id) kind pick).Final (.unsolved w) := by
    intro w hw
    rcases hcases with ⟨rfl, hfind, -⟩ | ⟨rfl, -, heq⟩
    · obtain rfl := eq_of_beq hfind
      have hstays : w ≠ id ∧ kinds.Final (.unsolved w) := by
        cases hsolution with
        | type =>
          have hleaf : shape.leaf (kinds.find .type) = true := h.sound.leaf_find rfl
          rw [eq_of_beq hleaf] at hw
          simp at hw
        | unknown hother hfinal =>
          rw [final_iff.1 hfinal] at hw
          obtain rfl : w = _ := by simpa using hw
          exact ⟨hother, hfinal⟩
        | compound _ hnew hmentions =>
          rw [Partition.find_of_absent hnew] at hw
          exact hmentions w hw
      exact hmerges.final rfl hstays.2 (by simpa using hstays.1)
    · obtain rfl := eq_of_beq heq
      obtain rfl : w = id := by simpa using hw
      exact hmerges.final rfl hfinal hne
  refine ⟨hsound, wellFounded_of_minimal h.wellFounded fun w v hwithin => ?_⟩
  rcases hmerges.find (.unsolved v) with heq | heq
  · exact .inl (within_of_find_eq (eq_of_beq heq) hwithin)
  · refine .inr fun u => not_within_of_final (hwinner w ?_)
    rw [← heq]
    exact hwithin.2

theorem Acyclic.remove (h : Acyclic created kinds) {id : Nat} {pick : Kind → Kind → Kind}
    (hpick : shape.Picks pick) : Acyclic created (kinds.remove (.unsolved id) pick) := by
  have hsound : (kinds.remove (.unsolved id) pick).Sound shape (Proper created) :=
    h.sound.remove hpick rfl
  refine ⟨hsound, wellFounded_of_minimal h.wellFounded fun w v hwithin => ?_⟩
  have hvariable : shape.unknown (.unsolved id) = true := rfl
  rcases h.sound.find_remove hpick hvariable (.unsolved v) with
    heq | ⟨-, heq⟩ | ⟨-, hunknown, -, -⟩
  · exact .inl (within_of_find_eq heq hwithin)
  · exact (hwithin.1 (final_iff.2 heq)).elim
  · obtain ⟨other, hother⟩ := unknown_iff.1 hunknown
    obtain rfl : w = other := by
      have hw := hwithin.2
      rw [hother] at hw
      simpa using hw
    refine .inr fun u => not_within_of_final ?_
    rw [← hother]
    exact hsound.final_find hunknown

/-- Every solution is replaced by its substitution. -/
def closed (kinds : Partition Kind) : Partition Kind :=
  kinds.mapRepresentatives fun _ solution => solution.substitute kinds

theorem substitute_find (h : WellFounded (Within kinds)) (id : Nat) :
    (kinds.find (.unsolved id)).substitute kinds = substitute kinds (.unsolved id) := by
  rw [substitute_unsolved h]
  split
  · rename_i heq
    rw [heq, substitute_unsolved h, if_pos heq]
  · rfl

theorem find_closed (h : WellFounded (Within kinds)) (id : Nat) :
    (closed kinds).find (.unsolved id) = substitute kinds (.unsolved id) := by
  rw [closed, Partition.find_mapRepresentatives, ← substitute_find h]
  cases hclass : kinds.classOf? (.unsolved id) with
  | some c => rw [Partition.find_of_classOf? hclass]
  | none =>
    have habsent := Partition.find_of_absent hclass
    rw [substitute_find h, substitute_unsolved h, if_pos habsent]

theorem final_closed (h : WellFounded (Within kinds)) {id : Nat}
    (hfinal : kinds.Final (.unsolved id)) : (closed kinds).Final (.unsolved id) := by
  rw [final_iff, find_closed h, substitute_unsolved h, if_pos (final_iff.1 hfinal)]

theorem wellFounded_closed (h : WellFounded (Within kinds)) : WellFounded
    (Within (closed kinds)) := by
  refine wellFounded_of_minimal h fun w v hwithin => .inr fun u => ?_
  have hw := hwithin.2
  rw [find_closed h] at hw
  exact not_within_of_final (final_closed h (final_of_mem_substitute h hw))

theorem Acyclic.closed (h : Acyclic created kinds) : Acyclic created (Kind.closed kinds) := by
  refine ⟨?_, wellFounded_closed h.wellFounded⟩
  refine h.sound.mapRepresentatives ?_ ?_ ?_ h.substitute_proper
  · intro kind hunknown hfinal
    obtain ⟨id, rfl⟩ := unknown_iff.1 hunknown
    rw [substitute_unsolved h.wellFounded, if_pos (final_iff.1 hfinal)]
    exact BEq.refl _
  · intro kind hunknown
    cases kind with
    | type => rw [substitute, bind_type]; rfl
    | unsolved id => cases hunknown
    | higher args result => rw [substitute, bind_higher]; rfl
  · intro kind hleaf
    rw [eq_of_beq hleaf, substitute, bind_type]
    rfl

/-! ## Defaults -/

/-- A variable that stands for itself, or is in the class of `*` already. -/
def Defaultable (kinds : Partition Kind) (id : Nat) : Prop :=
  kinds.Final (.unsolved id) ∨
    ∃ c, kinds.classOf? (.unsolved id) = some c ∧ kinds.classOf? .type = some c

theorem Defaultable.add {id : Nat} (h : Defaultable kinds id) (kind : Kind) :
    Defaultable (kinds.add kind) id := by
  rcases h with hfinal | ⟨c, hid, htype⟩
  · refine .inl (BEq.trans ?_ hfinal)
    exact Partition.find_add_beq kinds kind (.unsolved id)
  · refine .inr ⟨c, ?_, ?_⟩
    · rw [Partition.classOf?_add, hid, Option.some_or]
    · rw [Partition.classOf?_add, htype, Option.some_or]

/-- Solving a variable by `*` leaves what can be solved by `*`. -/
theorem Acyclic.defaultVariable (h : Acyclic created kinds) {id : Nat} (hid : id < created)
    (hdefaultable : Defaultable kinds id) :
    Acyclic created (kinds.union (.unsolved id) .type preferSolved) ∧
      ∀ other, Defaultable kinds other →
        Defaultable (kinds.union (.unsolved id) .type preferSolved) other := by
  have hprepared : ∀ {other}, Defaultable kinds other →
      Defaultable (kinds.prepared (.unsolved id) .type) other := fun hother =>
    (hother.add _).add _
  obtain ⟨⟨l, hl⟩, r, hr⟩ := Partition.exists_classOf?_prepared kinds (.unsolved id) .type
  by_cases hlr : l = r
  · have hunion : kinds.union (.unsolved id) .type preferSolved =
        kinds.prepared (.unsolved id) .type := by
      rcases Partition.union_cases preferSolved h.sound.distinct hl hr with
        ⟨-, hunion⟩ | ⟨hne, -⟩
      · exact hunion
      · exact (hne hlr).elim
    rw [hunion]
    exact ⟨(h.add (proper_unsolved.2 hid)).add (proper_type created), fun _ => hprepared⟩
  · have hfinal : kinds.Final (.unsolved id) := by
      rcases hprepared hdefaultable with hfinal | ⟨c, hid', htype⟩
      · refine BEq.trans (BEq.symm ?_) hfinal
        exact Partition.find_prepared_beq kinds (.unsolved id) .type (.unsolved id)
      · rw [hl] at hid'
        rw [hr] at htype
        exact (hlr ((Option.some.inj hid').trans (Option.some.inj htype).symm)).elim
    refine ⟨h.solve picks_preferSolved hid hfinal (proper_type created) .type, ?_⟩
    intro other hother
    have hclass := Partition.classOf?_union preferSolved h.sound.distinct hl hr hlr
    have hrtype : r.Has .type := (Partition.mem_of_classOf? hr).2
    have htype : (kinds.union (.unsolved id) .type preferSolved).classOf? .type =
        some (Class.merged preferSolved l r) := by
      rcases hclass .type with ⟨-, hsome⟩ | ⟨hnot, -⟩
      · exact hsome
      · exact (hnot (.inr hrtype)).elim
    rcases hclass (.unsolved other) with ⟨-, hsome⟩ | ⟨hnot, heq⟩
    · exact .inr ⟨_, hsome, htype⟩
    · rcases hprepared hother with hfinal | ⟨c, hother', htype'⟩
      · refine .inl ?_
        rw [Partition.Final, Partition.find, heq]
        exact hfinal
      · rw [hr] at htype'
        obtain rfl := Option.some.inj htype'
        exact (hnot (.inr (Partition.mem_of_classOf? hother').2)).elim

theorem Acyclic.defaultVariables (h : Acyclic created kinds) {ids : List Nat}
    (hids : ∀ id ∈ ids, id < created ∧ Defaultable kinds id) :
    Acyclic created (Kind.defaultVariables kinds ids) := by
  induction ids generalizing kinds with
  | nil => exact h
  | cons id rest ih =>
    obtain ⟨hid, hdefaultable⟩ := hids id List.mem_cons_self
    obtain ⟨hacyclic, hothers⟩ := h.defaultVariable hid hdefaultable
    refine ih hacyclic fun other hother => ?_
    obtain ⟨hlt, hdefaultable⟩ := hids other (List.mem_cons_of_mem _ hother)
    exact ⟨hlt, hothers other hdefaultable⟩

end Kind

end PolyFront
