import Mathlib.Logic.Relation
import PolyFront.Proofs.Solutions.Histories
import PolyFront.Proofs.Subtyping.Checks

/-!
# Histories of first-order checks

A store that is reached by pushing frames, creating variables and checking kinds and first-order
types has settled solutions.  Whatever a check finds related is related once it is substituted, and
stays so after all further steps of this kind.  A type that mentions a variable which was not
created yet is not covered: the check may create that variable itself and then solve it by itself.
-/

namespace PolyFront

/-! ## Whole checks -/

namespace Store

variable {s s' : Store} {a b : Ty}

/-- The types that stand in a solution or in one of the given types. -/
def knownTypes (s : Store) (types : List Ty) : List Ty :=
  (s.types.representatives ++ types).flatMap fun type => type.bare.parts

theorem length_knownTypes_lt (s : Store) (types : List Ty) : (s.knownTypes types).length <
    total Ty.weight (s.types.elements ++ s.types.representatives ++ types) + 2 := by
  have hlength : ∀ types : List Ty,
      (types.flatMap fun type => type.bare.parts).length = total Ty.weight types := by
    intro types
    induction types with
    | nil => rfl
    | cons type rest ih =>
      rw [List.flatMap_cons, List.length_append, Ty.length_parts, Ty.weight_bare, ih, total_cons]
  rw [knownTypes, hlength, total_append, total_append, total_append]
  omega

/-- Settled solutions mention only variables that stand for themselves, so that their parts are
known. -/
theorem Settled.surveyed (h : s.Settled) (types : List Ty) :
    Surveyed (s.knownTypes types) s.nextType s := by
  refine ⟨h, Nat.le_refl _, fun id _ depth part hat hsolid => ?_⟩
  rcases Ty.Settled.solutionOf_cases s.types id with heq | ⟨c, hc, heq⟩
  · rw [solution, heq] at hat
    cases hat
    cases hsolid
  · have hself : part.subst s.solution = part := by
      rw [solution, heq] at hat
      refine Ty.subst_self fun v kind hmem => ?_
      have hv : (v, kind) ∈ c.representative.bare.mentions := hat.mentions_subset hmem
      obtain ⟨w, hw, hpair⟩ := List.mem_map.1 (Ty.mentions_bare _ ▸ hv)
      obtain ⟨rfl, rfl⟩ := Prod.mk.inj hpair
      exact h.final c hc w.1 ⟨w.2, hw⟩
    refine ⟨part, List.mem_flatMap.2 ⟨c.representative, ?_, ?_⟩, hself.symm⟩
    · exact List.mem_append_left _ (List.mem_map_of_mem hc)
    · rw [solution, heq] at hat
      exact hat.mem_parts

theorem fits_of_mem {types : List Ty} (hmem : a ∈ types) (ha : a.Simple s.nextType) :
    Fits (s.knownTypes types) s.nextType s 0 a := by
  refine ⟨ha, a.bare, ha.bare, fun below part hat => ?_, .root _⟩
  exact List.mem_flatMap.2 ⟨a, List.mem_append_right _ hmem, hat.mem_parts⟩

/-- Ordered types are related once they are substituted. -/
theorem Ordered.substituted (h : s.Ordered a b) (hs : s.Settled) (ha : a.FirstOrder)
    (hb : b.FirstOrder) : (s.substituteType a).SubtypeOf (s.substituteType b) := by
  refine Ty.subtypeOf_of_bare ?_
  rw [hs.bare_substituteType ha, hs.bare_substituteType hb]
  exact h s.solution hs.satisfied

end Store

namespace Solve

open Run Store

variable {s : Store} {a b : Ty}

/-- A check that succeeds leaves its types ordered. -/
theorem checkSubType_compares (hs : s.Settled) (ha : a.Simple s.nextType)
    (hb : b.Simple s.nextType) :
    Ends (checkSubType a b) s (Compares (s.knownTypes [a, b]) s.nextType [(a, b)] s) := by
  refine Ends.bind (Ends.bind (Ends.get (Ends.pure ?_)))
  have hfuel := s.length_knownTypes_lt [a, b]
  have htwo : 2 ≤ total Ty.weight (s.types.elements ++ s.types.representatives ++ [a, b]) + 2 :=
    Nat.le_add_left _ _
  generalize total Ty.weight _ + 2 = nodes at hfuel htwo ⊢
  have hsquare : 2 * nodes ≤ nodes * nodes := Nat.mul_le_mul_right nodes htwo
  exact checkSubTypeWithin_compares _ 0 (by omega) (hs.surveyed _) (fits_of_mem (by simp) ha)
    (fits_of_mem (by simp) hb)

end Solve

/-! ## Histories -/

/-- A frame is pushed, a variable is created, kinds are checked, or first-order types whose
variables were all created are checked. -/
def Operation.Compares (s : Store) : Operation → Prop
  | .pushScope _ | .freshKind | .freshType _ | .checkSubKind _ _ => True
  | .checkSubType sub sup => sub.Simple s.nextType ∧ sup.Simple s.nextType
  | _ => False

instance (s : Store) : (operation : Operation) → Decidable (operation.Compares s)
  | .pushScope _ | .freshKind | .freshType _ | .checkSubKind _ _ => .isTrue trivial
  | .checkSubType sub sup =>
    inferInstanceAs (Decidable (sub.Simple s.nextType ∧ sup.Simple s.nextType))
  | .popScope _ | .defaultKind _ | .defaultClassifier _ => .isFalse not_false

/-- One of the operations that satisfy a condition leads from one store to the other. -/
def Store.Step (allowed : Store → Operation → Prop) (s s' : Store) : Prop :=
  ∃ operation, allowed s operation ∧ operation.run s = .ok () s'

theorem Store.settled_start : Store.start.Settled := Ty.Settled.empty 0

open Run in
/-- An operation refines settled solutions. -/
theorem Operation.Compares.refines {s : Store} (hs : s.Settled) {operation : Operation}
    (h : operation.Compares s) : Ends operation.run s fun _ s' => s.RefinesTypes s' := by
  cases operation with
  | pushScope kind => exact Ends.modify ⟨hs, Nat.le_refl _, hs.refines.absorbs⟩
  | freshKind =>
    exact Ends.bind ((Solve.freshKind_keepsTypes s).mono fun _ _ hkeeps =>
      Ends.pure (hkeeps.refines hs))
  | freshType kind =>
    refine Ends.bind (Ends.bind ((Solve.freshVariable_fresh hs kind).mono fun hole s' hfresh => ?_))
    refine Ends.pure (Ends.pure ⟨hfresh.settled, hfresh.next, fun id => ?_⟩)
    rw [hfresh.solution]
    exact hs.refines.absorbs id
  | checkSubKind sub sup =>
    exact Ends.bind ((Solve.checkSubKind_keepsTypes sub sup s).mono fun _ _ hkeeps =>
      Ends.pure (hkeeps.refines hs))
  | checkSubType sub sup =>
    exact Ends.bind ((Solve.checkSubType_compares hs h.1 h.2).mono fun _ _ hcompares =>
      Ends.pure hcompares.refines)
  | _ => exact h.elim

theorem Reached.settled {s : Store} (h : Reached Operation.Compares s) : s.Settled := by
  induction h with
  | start => exact Store.settled_start
  | step _ hallowed hrun ih => exact (hallowed.refines ih () _ hrun).settled

theorem Store.Settled.refines_steps {s s' : Store} (hs : s.Settled)
    (h : Relation.ReflTransGen (Store.Step Operation.Compares) s s') : s.RefinesTypes s' := by
  induction h with
  | refl => exact hs.refines
  | tail _ hstep ih =>
    obtain ⟨operation, hallowed, hrun⟩ := hstep
    exact ih.trans (hallowed.refines ih.settled () _ hrun)

/-- While first-order types are checked whose variables were created, two types for which a check
succeeds are related once they are substituted, and stay related after all further steps. -/
theorem Reached.checkSubType_sound {s s' s'' : Store} (h : Reached Operation.Compares s) {a b : Ty}
    (ha : a.Simple s.nextType) (hb : b.Simple s.nextType)
    (hcheck : Solve.checkSubType a b s = .ok true s')
    (hsteps : Relation.ReflTransGen (Store.Step Operation.Compares) s' s'') :
    (s''.substituteType a).SubtypeOf (s''.substituteType b) := by
  have hcompares := Solve.checkSubType_compares h.settled ha hb true s' hcheck
  have hordered : s'.Ordered a b := hcompares.ordered rfl _ List.mem_cons_self
  have hrefines := hcompares.refines.settled.refines_steps hsteps
  exact (hordered.refines hrefines).substituted hrefines.settled ha.firstOrder hb.firstOrder

namespace Operation

/-- Two variables are created. -/
def created : List Operation := [.pushScope .block, .freshType .type, .freshType .type]

/-- The types are first-order, checking them succeeds, and a further operation can be carried
out. -/
def checksAndContinues (a b : Ty) (next : Operation) (s : Store) : Bool :=
  decide (a.Simple s.nextType ∧ b.Simple s.nextType) &&
    match Solve.checkSubType a b s with
    | .ok matched s' => matched && decide (next.Compares s') &&
      match next.run s' with
      | .ok _ _ => true
      | .error _ _ => false
    | .error _ _ => false

/-- The function type of one argument. -/
def functionOf (param result : Ty) : Ty := .function [param] result

/-- Function types from one variable and to another are checked, and then the second variable. -/
theorem exists_checked_functions : ∃ s s' s'', runAll created Store.start = .ok () s ∧
    Reached Operation.Compares s ∧
    Ty.Simple s.nextType (functionOf (.unsolved 0 .type) (.builtIn .int)) ∧
    Ty.Simple s.nextType (functionOf (.unsolved 1 .type) (.builtIn .long)) ∧
    Solve.checkSubType (functionOf (.unsolved 0 .type) (.builtIn .int))
      (functionOf (.unsolved 1 .type) (.builtIn .long)) s = .ok true s' ∧
    (checkSubType (.builtIn .int) (.unsolved 1 .type)).Compares s' ∧
    (checkSubType (.builtIn .int) (.unsolved 1 .type)).run s' = .ok () s'' := by
  have htest : test (fun s operation => decide (operation.Compares s))
      (checksAndContinues (functionOf (.unsolved 0 .type) (.builtIn .int))
        (functionOf (.unsolved 1 .type) (.builtIn .long))
        (.checkSubType (.builtIn .int) (.unsolved 1 .type))) created Store.start = true := by
    decide +kernel
  obtain ⟨s, hrun, hreached, hchecks⟩ := exists_of_test .start htest
  have hcompares : Reached Operation.Compares s :=
    reached_mono (fun _ _ hallowed => of_decide_eq_true hallowed) hreached
  rw [checksAndContinues, Bool.and_eq_true] at hchecks
  obtain ⟨ha, hb⟩ := of_decide_eq_true hchecks.1
  have hafter := hchecks.2
  cases hcheck : Solve.checkSubType (functionOf (.unsolved 0 .type) (.builtIn .int))
      (functionOf (.unsolved 1 .type) (.builtIn .long)) s with
  | error fault s' =>
    rw [hcheck] at hafter
    cases hafter
  | ok matched s' =>
    rw [hcheck] at hafter
    dsimp only at hafter
    cases hnext : (checkSubType (.builtIn .int) (.unsolved 1 .type)).run s' with
    | error fault s'' =>
      rw [hnext, Bool.and_false] at hafter
      cases hafter
    | ok _ s'' =>
      rw [hnext, Bool.and_true, Bool.and_eq_true] at hafter
      obtain ⟨rfl, hallowed⟩ := hafter
      exact ⟨s, s', s'', hrun, hcompares, ha, hb, hcheck, of_decide_eq_true hallowed, hnext⟩

theorem checkSubType_sound_functions : ∃ s s' s'', runAll created Store.start = .ok () s ∧
    Reached Operation.Compares s ∧
    Ty.Simple s.nextType (functionOf (.unsolved 0 .type) (.builtIn .int)) ∧
    Ty.Simple s.nextType (functionOf (.unsolved 1 .type) (.builtIn .long)) ∧
    Solve.checkSubType (functionOf (.unsolved 0 .type) (.builtIn .int))
      (functionOf (.unsolved 1 .type) (.builtIn .long)) s = .ok true s' ∧
    (checkSubType (.builtIn .int) (.unsolved 1 .type)).run s' = .ok () s'' ∧
    (s''.substituteType (functionOf (.unsolved 0 .type) (.builtIn .int))).SubtypeOf
      (s''.substituteType (functionOf (.unsolved 1 .type) (.builtIn .long))) := by
  obtain ⟨s, s', s'', hrun, hreached, ha, hb, hcheck, hallowed, hnext⟩ := exists_checked_functions
  exact ⟨s, s', s'', hrun, hreached, ha, hb, hcheck, hnext,
    hreached.checkSubType_sound ha hb hcheck (.single ⟨_, hallowed, hnext⟩)⟩

/-- Checking the types succeeds, and afterwards they are substituted to the given types. -/
def checksTo (a b a' b' : Ty) (s : Store) : Bool :=
  match Solve.checkSubType a b s with
  | .ok matched s' => matched && (s'.substituteType a == a' && s'.substituteType b == b')
  | .error _ _ => false

/-- A variable that was not created yet is solved by a list of itself. -/
theorem exists_matched_unrelated : ∃ s s', runAll [.pushScope .block] Store.start = .ok () s ∧
    Reached Operation.Compares s ∧ Ty.FirstOrder (.unsolved 0 .type) ∧
    (listOf (.builtIn .int)).FirstOrder ∧
    Solve.checkSubType (.unsolved 0 .type) (listOf (.builtIn .int)) s = .ok true s' ∧
    ¬(s'.substituteType (.unsolved 0 .type)).SubtypeOf
      (s'.substituteType (listOf (.builtIn .int))) := by
  have htest : test (fun s operation => decide (operation.Compares s))
      (checksTo (.unsolved 0 .type) (listOf (.builtIn .int))
        (listOf (listOf (listOf (listOf (.unsolved 0 .type)))))
        (listOf (.builtIn .int))) [.pushScope .block] Store.start = true := by
    decide +kernel
  obtain ⟨s, hrun, hreached, hchecks⟩ := exists_of_test .start htest
  have hcompares : Reached Operation.Compares s :=
    reached_mono (fun _ _ hallowed => of_decide_eq_true hallowed) hreached
  rw [checksTo] at hchecks
  cases hcheck : Solve.checkSubType (.unsolved 0 .type) (listOf (.builtIn .int)) s with
  | error fault s' =>
    rw [hcheck] at hchecks
    cases hchecks
  | ok matched s' =>
    rw [hcheck] at hchecks
    simp only [Bool.and_eq_true] at hchecks
    obtain ⟨rfl, ha, hb⟩ := hchecks
    refine ⟨s, s', hrun, hcompares, Ty.firstOrder_unsolved _ _, by decide, hcheck, fun hsub => ?_⟩
    have hbare := hsub.bare
    rw [Ty.bare_eq_of_beq ha, Ty.bare_eq_of_beq hb] at hbare
    obtain ⟨type, heq, -⟩ := (hbare.args rfl _ List.mem_cons_self).of_builtIn
    cases heq

end Operation

end PolyFront
