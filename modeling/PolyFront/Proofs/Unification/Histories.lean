import PolyFront.Proofs.Solutions.Histories
import PolyFront.Proofs.Unification.Checks

/-!
# Histories of unification

A store that is reached by pushing frames, creating variables and checking kinds that mention
registered variables only is tidy, so that every further check of such kinds unifies them.  The
depth that a check is given is never exhausted.  A kind that mentions a variable which no frame
registers is not covered: such a variable counts as innermost, and one that is dropped at the end
of the check may come to represent it.
-/

namespace PolyFront

/-! ## Whole checks -/

namespace Store

variable {s : Store}

/-- The kinds that stand in a solution or in one of the given kinds. -/
def knownKinds (s : Store) (kinds : List Kind) : List Kind :=
  (s.kinds.representatives ++ kinds).flatMap Kind.parts

theorem Sound.generated (h : s.Sound) (kinds : List Kind) : Generated (s.knownKinds kinds) s := by
  intro id
  have hwell := h.kinds.wellFounded
  induction id using hwell.induction with
  | h id ih =>
    intro depth part hat hsolid
    by_cases hfinal : s.kinds.find (.unsolved id) = .unsolved id
    · have hself := h.final_iff_expansion.1 (Kind.final_iff.2 hfinal)
      rw [hself] at hat
      cases hat
      cases hsolid
    · have hsubstitute : s.expansion id = (s.kinds.find (.unsolved id)).bind s.expansion := by
        rw [← substituteKind_eq_bind]
        exact (Kind.substitute_find hwell id).symm
      rw [hsubstitute] at hat
      rcases Kind.at_bind hat with ⟨origin, horigin, -, heq⟩ | ⟨v, hv, below, hbelow⟩
      · refine ⟨origin, List.mem_flatMap.2 ⟨_, ?_, horigin.mem_parts⟩, heq⟩
        cases hclass : s.kinds.classOf? (.unsolved id) with
        | none => exact (hfinal (Partition.find_of_absent hclass)).elim
        | some c =>
          rw [Partition.find_of_classOf? hclass]
          exact List.mem_append_left _ (List.mem_map_of_mem (Partition.mem_of_classOf? hclass).1)
      · exact ih v ⟨fun hself => hfinal (Kind.final_iff.1 hself), hv⟩ below part hbelow hsolid

theorem stands_of_mem (s : Store) {kinds : List Kind} {kind : Kind} (hkind : kind ∈ kinds) :
    Stands (s.knownKinds kinds) s 0 kind := by
  refine ⟨kind, fun below part hat => ?_, .root _⟩
  exact List.mem_flatMap.2 ⟨kind, List.mem_append_right _ hkind, hat.mem_parts⟩

theorem length_knownKinds_lt (s : Store) (kinds : List Kind) : (s.knownKinds kinds).length <
    total Kind.weight (s.kinds.elements ++ s.kinds.representatives ++ kinds) + 2 := by
  have hlength : ∀ kinds : List Kind,
      (kinds.flatMap Kind.parts).length = total Kind.weight kinds := by
    intro kinds
    induction kinds with
    | nil => rfl
    | cons kind rest ih =>
      rw [List.flatMap_cons, List.length_append, Kind.length_parts, ih, total_cons]
  rw [knownKinds, hlength, total_append, total_append, total_append]
  omega

end Store

namespace Solve

open Run Store

variable {s : Store}

/-- A check unifies its kinds, and it is not cut off. -/
theorem checkSubKind_uncut (hs : s.Tidy) {a b : Kind} (ha : s.Live a) (hb : s.Live b) :
    ∃ matched s', checkSubKind a b s = .ok matched s' ∧
      (∀ limit, (s.knownKinds [a, b]).length < limit →
        checkSubKindWithin limit a b s = .ok matched s') ∧
      Unifies (s.knownKinds [a, b]) [(a, b)] s matched s' := by
  have hmeets : ∀ limit limit', (s.knownKinds [a, b]).length < limit →
      (s.knownKinds [a, b]).length < limit' →
      Meets (checkSubKindWithin limit a b) (checkSubKindWithin limit' a b) s
        (Unifies (s.knownKinds [a, b]) [(a, b)] s) := fun limit limit' hlimit hlimit' =>
    checkSubKindWithin_meets limit limit' 0 hlimit hlimit' a b hs (hs.sound.generated _) ha hb
      (s.stands_of_mem (by simp)) (s.stands_of_mem (by simp))
  have hfuel := s.length_knownKinds_lt [a, b]
  generalize hnodes :
    total Kind.weight (s.kinds.elements ++ s.kinds.representatives ++ [a, b]) + 2 = nodes at hfuel
  have hdepth : (s.knownKinds [a, b]).length < nodes * nodes :=
    Nat.lt_of_lt_of_le hfuel (Nat.le_mul_self nodes)
  have hrun : checkSubKind a b s = checkSubKindWithin (nodes * nodes) a b s := by
    rw [← hnodes]
    rfl
  obtain ⟨matched, s', hok, -, hunifies⟩ := hmeets _ _ hdepth hdepth
  refine ⟨matched, s', hrun.trans hok, fun limit hlimit => ?_, hunifies⟩
  obtain ⟨matched', s'', hok', hlimited, -⟩ := hmeets _ _ hdepth hlimit
  rw [hok] at hok'
  cases hok'
  exact hlimited

end Solve

/-! ## Histories -/

/-- A frame is pushed, a variable is created, or two kinds are checked that mention registered
variables only. -/
def Operation.Unifies (s : Store) : Operation → Prop
  | .pushScope _ | .freshKind => True
  | .checkSubKind sub sup => s.Live sub ∧ s.Live sup
  | _ => False

instance (s : Store) : (operation : Operation) → Decidable (operation.Unifies s)
  | .pushScope _ | .freshKind => .isTrue trivial
  | .checkSubKind sub sup => inferInstanceAs (Decidable (s.Live sub ∧ s.Live sup))
  | .popScope _ | .freshType _ | .checkSubType _ _ | .defaultKind _ | .defaultClassifier _ =>
    .isFalse not_false

theorem Store.tidy_start : Store.start.Tidy := by
  have hnone : ∀ id, ¬Store.start.Registered id := by
    rintro id ⟨frame, hframe, -⟩
    cases hframe
  exact ⟨Store.sound_start, fun id hid => (hnone id hid).elim, fun _ _ => rfl,
    fun id hid => (hnone id hid).elim⟩

theorem Solve.freshKind_ne_ok {s s' : Store} {kind : Kind} (hframes : s.stack.frames = []) :
    Solve.freshKind s ≠ .ok kind s' := by
  obtain ⟨⟨frames, builtIns⟩, kinds, types, nextKind, nextType⟩ := s
  obtain rfl : frames = [] := hframes
  intro hfresh
  cases hfresh

/-- An operation leads from a tidy store to a tidy store. -/
theorem Operation.Unifies.tidy {s s' : Store} (hs : s.Tidy) {operation : Operation}
    (h : operation.Unifies s) (hrun : operation.run s = .ok () s') : s'.Tidy := by
  have hends : Run.Ends operation.run s fun _ s' => s'.Tidy := by
    cases operation with
    | pushScope kind => exact Run.Ends.modify (hs.pushed kind)
    | freshKind =>
      refine Run.Ends.bind fun kind s₁ hfresh => Run.Ends.pure ?_
      cases hframes : s.stack.frames with
      | nil => exact (Solve.freshKind_ne_ok hframes hfresh).elim
      | cons frame rest =>
        have hopened : s.Opened { s.stack with frames := rest } frame.tag frame.unsolvedKinds := by
          refine ⟨frame, ?_, rfl, fun _ => Iff.rfl⟩
          rw [Stack.push, ← hframes]
        obtain ⟨s₂, hok, hcreates⟩ := hs.freshKind hopened
        rw [hok] at hfresh
        cases hfresh
        exact hcreates.tidy
    | checkSubKind sub sup =>
      obtain ⟨matched, s₁, hok, -, hunifies⟩ := Solve.checkSubKind_uncut hs h.1 h.2
      refine Run.Ends.bind fun answer s₂ hcheck => Run.Ends.pure ?_
      rw [hok] at hcheck
      cases hcheck
      exact hunifies.refines.tidy
    | _ => exact h.elim
  exact hends () s' hrun

theorem Reached.tidy {s : Store} (h : Reached Operation.Unifies s) : s.Tidy := by
  induction h with
  | start => exact Store.tidy_start
  | step _ hallowed hrun ih => exact hallowed.tidy ih hrun

/-- While kinds are checked that mention registered variables only, a check ends, and no limit
cuts it off.  It succeeds exactly when some assignment satisfies the recorded solutions and makes
the two kinds equal.  Then the kinds are substituted to the same, and the assignments that satisfy
the solutions afterwards are those that satisfied them before and make the kinds equal.  The
frames are the same as before. -/
theorem Reached.checkSubKind_unifies {s : Store} (h : Reached Operation.Unifies s) {a b : Kind}
    (ha : s.Live a) (hb : s.Live b) : ∃ matched s',
    Solve.checkSubKind a b s = .ok matched s' ∧
    (∃ depth, ∀ limit, depth ≤ limit → Solve.checkSubKindWithin limit a b s = .ok matched s') ∧
    (matched = true ↔
      ∃ assignment, s.Satisfied assignment ∧ a.bind assignment = b.bind assignment) ∧
    (matched = true → s'.substituteKind a = s'.substituteKind b ∧ ∀ assignment,
      s'.Satisfied assignment ↔ s.Satisfied assignment ∧ a.bind assignment = b.bind assignment) ∧
    s'.stack = s.stack := by
  have hs := h.tidy
  obtain ⟨matched, s', hrun, hlimits, hunifies⟩ := Solve.checkSubKind_uncut hs ha hb
  have hrefines := hunifies.refines
  have hequal : matched = true → a.bind s'.expansion = b.bind s'.expansion := fun hmatched =>
    hunifies.sound hmatched _ List.mem_cons_self
  refine ⟨matched, s', hrun, ⟨_, fun limit hlimit => hlimits limit (Nat.lt_of_succ_le hlimit)⟩,
    ⟨fun hmatched => ?_, ?_⟩, fun hmatched => ⟨?_, fun assignment => ⟨fun hafter => ⟨?_, ?_⟩, ?_⟩⟩,
    hrefines.stack⟩
  · exact ⟨s'.expansion, hrefines.satisfied hs hrefines.tidy.sound.satisfied_expansion,
      hequal hmatched⟩
  · rintro ⟨assignment, hsatisfied, heq⟩
    refine (hunifies.complete assignment hsatisfied fun pair hpair => ?_).1
    rw [List.mem_singleton.1 hpair]
    exact heq
  · rw [Store.substituteKind_eq_bind, Store.substituteKind_eq_bind]
    exact hequal hmatched
  · exact hrefines.satisfied hs hafter
  · rw [← hafter.bind_substituteKind hrefines.tidy.sound, Store.substituteKind_eq_bind,
      hequal hmatched, ← Store.substituteKind_eq_bind,
      hafter.bind_substituteKind hrefines.tidy.sound]
  · rintro ⟨hsatisfied, heq⟩
    refine (hunifies.complete assignment hsatisfied fun pair hpair => ?_).2
    rw [List.mem_singleton.1 hpair]
    exact heq

namespace Operation

/-- A variable is solved by a kind that mentions another one. -/
def nested : List Operation :=
  [.pushScope .block, .freshKind, .freshKind,
    .checkSubKind (.unsolved 0) (.higher [.unsolved 1] .type)]

/-- The kinds are live, and checking them succeeds. -/
def checks (a b : Kind) (s : Store) : Bool :=
  decide (s.Live a ∧ s.Live b) &&
    match Solve.checkSubKind a b s with
    | .ok matched _ => matched
    | .error _ _ => false

theorem unifies_nested : ∃ s s', runAll nested Store.start = .ok () s ∧
    Reached Operation.Unifies s ∧ s.Live (.unsolved 0) ∧ s.Live (.higher [.type] .type) ∧
    Solve.checkSubKind (.unsolved 0) (.higher [.type] .type) s = .ok true s' ∧
    s'.substituteKind (.unsolved 0) = s'.substituteKind (.higher [.type] .type) ∧
    (∀ assignment, s'.Satisfied assignment ↔ s.Satisfied assignment ∧
      Kind.bind assignment (.unsolved 0) = Kind.bind assignment (.higher [.type] .type)) ∧
    s'.stack = s.stack := by
  have htest : test (fun s operation => decide (operation.Unifies s))
      (checks (.unsolved 0) (.higher [.type] .type)) nested Store.start = true := by
    decide +kernel
  obtain ⟨s, hrun, hreached, hchecks⟩ := exists_of_test .start htest
  have hunifies : Reached Operation.Unifies s :=
    reached_mono (fun _ _ hallowed => of_decide_eq_true hallowed) hreached
  rw [checks, Bool.and_eq_true] at hchecks
  obtain ⟨ha, hb⟩ := of_decide_eq_true hchecks.1
  obtain ⟨matched, s', hcheck, -, -, hmatched, hstack⟩ := hunifies.checkSubKind_unifies ha hb
  have htrue := hchecks.2
  rw [hcheck] at htrue
  obtain rfl : matched = true := htrue
  obtain ⟨hsame, hassignments⟩ := hmatched rfl
  exact ⟨s, s', hrun, hunifies, ha, hb, hcheck, hsame, hassignments, hstack⟩

/-- A check solves a variable through others, which are dropped. -/
def dropping : List Operation :=
  [.pushScope .block, .freshKind, .checkSubKind (.unsolved 0) (.higher [.type] .type), .freshKind]

/-- Checking the kinds succeeds, and they are not substituted to the same afterwards. -/
def checksApart (a b : Kind) (s : Store) : Bool :=
  decide (a.Proper s.nextKind ∧ b.Proper s.nextKind) &&
    match Solve.checkSubKind a b s with
    | .ok matched s' => matched && !decide (s'.substituteKind a = s'.substituteKind b)
    | .error _ _ => false

/-- A kind that mentions a dropped variable is not made equal to what it solves. -/
theorem exists_matched_apart : ∃ s s', runAll dropping Store.start = .ok () s ∧
    Reached Operation.Proper s ∧ Kind.Proper s.nextKind (.unsolved 3) ∧
    Kind.Proper s.nextKind (.higher [.unsolved 1] .type) ∧
    Solve.checkSubKind (.unsolved 3) (.higher [.unsolved 1] .type) s = .ok true s' ∧
    s'.substituteKind (.unsolved 3) ≠ s'.substituteKind (.higher [.unsolved 1] .type) := by
  have htest : test (fun s operation => decide (operation.Proper s))
      (checksApart (.unsolved 3) (.higher [.unsolved 1] .type)) dropping Store.start = true := by
    decide +kernel
  obtain ⟨s, hrun, hreached, hchecks⟩ := exists_of_test .start htest
  have hproper : Reached Operation.Proper s :=
    reached_mono (fun _ _ hallowed => of_decide_eq_true hallowed) hreached
  rw [checksApart, Bool.and_eq_true] at hchecks
  obtain ⟨ha, hb⟩ := of_decide_eq_true hchecks.1
  have hafter := hchecks.2
  cases hcheck : Solve.checkSubKind (.unsolved 3) (.higher [.unsolved 1] .type) s with
  | error fault s' =>
    rw [hcheck] at hafter
    cases hafter
  | ok matched s' =>
    rw [hcheck] at hafter
    obtain ⟨rfl, hapart⟩ := Bool.and_eq_true_iff.1 hafter
    rw [Bool.not_eq_true', decide_eq_false_iff_not] at hapart
    exact ⟨s, s', hrun, hproper, ha, hb, hcheck, hapart⟩

end Operation

end PolyFront
