import PolyFront.Proofs.Subtyping.Ground
import PolyFront.Proofs.Subtyping.Histories

/-!
# A check that succeeded succeeds again

Once a check of first-order types succeeded, the types are related and mention only variables that
stand for themselves after substitution.  Checking them again meets every variable on both sides at
once, so that it succeeds and solves nothing.  An application whose head is unsolved is compared
covariantly as long as the head is, and as a function type from the moment when it is solved by an
arrow: such a check can fail the second time.
-/

namespace PolyFront

/-! ## The size of substituted types -/

namespace Ty

variable {assignment : Nat → Ty} {bound : Nat}

theorem weightList_map_le {f : Ty → Ty} {types : List Ty}
    (h : ∀ type ∈ types, (f type).weight ≤ type.weight * bound) :
    weightList (types.map f) ≤ weightList types * bound := by
  induction types with
  | nil => simp [weightList]
  | cons type rest ih =>
    have hfirst := h type List.mem_cons_self
    have hrest := ih fun other hother => h other (List.mem_cons_of_mem _ hother)
    rw [List.map_cons, weightList, weightList, Nat.add_mul]
    omega

/-- Every node grows to the size of a solution at most. -/
theorem FirstOrder.weight_subst_le {type : Ty} (h : type.FirstOrder) (hpos : 1 ≤ bound)
    (hbound : ∀ id, (assignment id).weight ≤ bound) :
    (type.subst assignment).weight ≤ type.weight * bound := by
  induction type with
  | var quantifier name kind =>
    rw [subst_var, weight]
    omega
  | unsolved id kind =>
    rw [subst_unsolved, weight, Nat.one_mul]
    exact hbound id
  | constructor name kind =>
    rw [subst_constructor, weight]
    omega
  | builtIn type =>
    rw [subst_builtIn, weight]
    omega
  | apply head args kind ihHead ihArgs =>
    obtain ⟨-, hhead, hargs⟩ := firstOrder_apply.1 h
    have hheadLe := ihHead hhead
    have hargsLe := weightList_map_le fun arg harg => ihArgs arg harg (hargs arg harg)
    rw [subst_apply, weight, weight, Nat.add_mul, Nat.add_mul]
    omega
  | quantified binders body kind ihBinders ihBody => exact (not_firstOrder_quantified _ _ _ h).elim

end Ty

namespace Store

variable {s : Store} {type : Ty}

theorem weight_solution_le (s : Store) (id : Nat) :
    (s.solution id).weight ≤ total Ty.weight s.types.representatives + 1 := by
  rcases Ty.Settled.solutionOf_cases s.types id with heq | ⟨c, hc, heq⟩
  · rw [solution, heq, Ty.weight]
    omega
  · have hmem : c.representative ∈ s.types.representatives := List.mem_map_of_mem hc
    have hle := Ty.weight_le_weightList hmem
    rw [Ty.weightList_eq_total] at hle
    rw [solution, heq, Ty.weight_bare]
    omega

/-- A substituted type is fixed, and no larger than its nodes times the largest solution. -/
theorem Settled.sized_substituteType (hs : s.Settled) (htype : type.Simple s.nextType)
    {nodes : Nat} (hle : type.weight ≤ nodes)
    (hsolutions : total Ty.weight s.types.representatives + 1 ≤ nodes) :
    s.Sized (nodes * nodes) (s.substituteType type) := by
  refine ⟨⟨(hs.substituteType htype).firstOrder, fun id hmem =>
    hs.of_mentions htype.firstOrder hmem⟩, ?_⟩
  have hsubst := htype.firstOrder.bare.weight_subst_le (Nat.le_add_left 1 _) s.weight_solution_le
  rw [← hs.bare_substituteType htype.firstOrder, Ty.weight_bare, Ty.weight_bare] at hsubst
  exact Nat.le_trans hsubst (Nat.mul_le_mul hle hsolutions)

end Store

namespace Solve

open Store

variable {s : Store} {a b : Ty}

/-- Types that are related once they are substituted are checked with success and without any
effect. -/
theorem checkSubType_of_related (hs : s.Settled) (ha : a.Simple s.nextType)
    (hb : b.Simple s.nextType)
    (hrelated : (s.substituteType a).SubtypeOf (s.substituteType b)) :
    checkSubType a b s = .ok true s := by
  obtain ⟨nodes, hfuel, hle, hle', hsolutions⟩ : ∃ nodes,
      typeFuel [a, b] s = .ok (nodes * nodes) s ∧ a.weight ≤ nodes ∧ b.weight ≤ nodes ∧
        total Ty.weight s.types.representatives + 1 ≤ nodes := by
    have hsizes : total Ty.weight [a, b] = a.weight + (b.weight + 0) := rfl
    refine ⟨_, rfl, ?_⟩
    rw [total_append, total_append, hsizes]
    omega
  obtain ⟨answer, hrun, hanswer⟩ := checkSubTypeWithin_decides (nodes * nodes) a b
    (hs.sized_substituteType ha hle hsolutions) (hs.sized_substituteType hb hle' hsolutions)
    (.inl hrelated)
  obtain rfl := hanswer.2 hrelated
  exact (Run.ok_bind hfuel).trans hrun

end Solve

/-- While first-order types are checked whose variables were created, a check that succeeded
succeeds again and changes nothing, also after further steps. -/
theorem Reached.checkSubType_stable {s s' s'' : Store} (h : Reached Operation.Compares s) {a b : Ty}
    (ha : a.Simple s.nextType) (hb : b.Simple s.nextType)
    (hcheck : Solve.checkSubType a b s = .ok true s')
    (hsteps : Relation.ReflTransGen (Store.Step Operation.Compares) s' s'') :
    Solve.checkSubType a b s'' = .ok true s'' := by
  have hcompares := Solve.checkSubType_compares h.settled ha hb true s' hcheck
  have hordered : s'.Ordered a b := hcompares.ordered rfl _ List.mem_cons_self
  have hrefines := hcompares.refines.settled.refines_steps hsteps
  have hnext := Nat.le_trans hcompares.refines.next hrefines.next
  exact Solve.checkSubType_of_related hrefines.settled (ha.mono hnext) (hb.mono hnext)
    ((hordered.refines hrefines).substituted hrefines.settled ha.firstOrder hb.firstOrder)

namespace Operation

theorem checkSubType_stable_functions : ∃ s s' s'', runAll created Store.start = .ok () s ∧
    Reached Operation.Compares s ∧
    Ty.Simple s.nextType (functionOf (.unsolved 0 .type) (.builtIn .int)) ∧
    Ty.Simple s.nextType (functionOf (.unsolved 1 .type) (.builtIn .long)) ∧
    Solve.checkSubType (functionOf (.unsolved 0 .type) (.builtIn .int))
      (functionOf (.unsolved 1 .type) (.builtIn .long)) s = .ok true s' ∧
    (checkSubType (.builtIn .int) (.unsolved 1 .type)).run s' = .ok () s'' ∧
    Solve.checkSubType (functionOf (.unsolved 0 .type) (.builtIn .int))
      (functionOf (.unsolved 1 .type) (.builtIn .long)) s'' = .ok true s'' := by
  obtain ⟨s, s', s'', hrun, hreached, ha, hb, hcheck, hallowed, hnext⟩ := exists_checked_functions
  exact ⟨s, s', s'', hrun, hreached, ha, hb, hcheck, hnext,
    hreached.checkSubType_stable ha hb hcheck (.single ⟨_, hallowed, hnext⟩)⟩

/-- A variable of a kind with two parameters is created. -/
def constructorCreated : List Operation :=
  [.pushScope .block, .freshType (.higher [.type, .type] .type)]

/-- That variable applied to two types. -/
def appliedVariable : Ty :=
  .apply (.unsolved 0 (.higher [.type, .type] .type)) [.builtIn .int, .builtIn .long] .type

/-- Checking the types succeeds the first time and fails the second time. -/
def checksOnce (a b : Ty) (s : Store) : Bool :=
  match Solve.checkSubType a b s with
  | .ok matched s' => matched &&
    match Solve.checkSubType a b s' with
    | .ok matched _ => !matched
    | .error _ _ => false
  | .error _ _ => false

/-- The head is solved by an arrow after the arguments were matched with the covariant rule in
view, so that the second check compares them the other way round. -/
theorem exists_matched_once : ∃ s s' s'', runAll constructorCreated Store.start = .ok () s ∧
    Reached Operation.Proper s ∧
    Solve.checkSubType appliedVariable (functionOf (.builtIn .long) (.builtIn .long)) s =
      .ok true s' ∧
    Solve.checkSubType appliedVariable (functionOf (.builtIn .long) (.builtIn .long)) s' =
      .ok false s'' := by
  have htest : test (fun s operation => decide (operation.Proper s))
      (checksOnce appliedVariable (functionOf (.builtIn .long) (.builtIn .long)))
      constructorCreated Store.start = true := by decide +kernel
  obtain ⟨s, hrun, hreached, hchecks⟩ := exists_of_test .start htest
  have hproper : Reached Operation.Proper s :=
    reached_mono (fun _ _ hallowed => of_decide_eq_true hallowed) hreached
  rw [checksOnce] at hchecks
  cases hcheck : Solve.checkSubType appliedVariable
      (functionOf (.builtIn .long) (.builtIn .long)) s with
  | error fault s' =>
    rw [hcheck] at hchecks
    cases hchecks
  | ok matched s' =>
    rw [hcheck] at hchecks
    dsimp only at hchecks
    cases hagain : Solve.checkSubType appliedVariable
        (functionOf (.builtIn .long) (.builtIn .long)) s' with
    | error fault s'' =>
      rw [hagain, Bool.and_false] at hchecks
      cases hchecks
    | ok matched' s'' =>
      rw [hagain, Bool.and_eq_true, Bool.not_eq_true'] at hchecks
      obtain ⟨rfl, rfl⟩ := hchecks
      exact ⟨s, s', s'', hrun, hproper, hcheck, hagain⟩

end Operation

end PolyFront
