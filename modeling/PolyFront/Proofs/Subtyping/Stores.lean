import PolyFront.Proofs.Subtyping.Solutions

/-!
# Stores with first-order solutions

A step refines the solutions when later solutions are earlier ones in which variables were
replaced, so that what gives all variables the values of the later solutions gives them those of
the earlier ones.  Checks of kinds do not change the solutions of types at all: they close them,
which changes nothing, and the frames that they push and pop register no types.
-/

namespace PolyFront

open Run

namespace Store

variable {s s' s'' : Store}

/-- The bare solution of a type variable. -/
def solution (s : Store) (id : Nat) : Ty := Ty.solutionOf s.types id

/-- The solutions of types are first-order and settled. -/
def Settled (s : Store) : Prop := Ty.Settled s.nextType s.types

theorem Settled.bare_substituteType (h : s.Settled) {type : Ty} (htype : type.FirstOrder) :
    (s.substituteType type).bare = type.bare.subst s.solution :=
  h.bare_substitute s.kinds htype

theorem Settled.substituteType (h : s.Settled) {type : Ty} (htype : type.Simple s.nextType) :
    (s.substituteType type).Simple s.nextType :=
  Ty.Settled.substitute h s.kinds htype

/-- A variable that was not created yet has no solution. -/
theorem Settled.of_uncreated (h : s.Settled) {id : Nat} (hid : s.nextType ≤ id) :
    s.solution id = .unsolved id .type :=
  Ty.Settled.of_uncreated h hid

/-- A solution mentions only variables that stand for themselves. -/
theorem Settled.mentioned (h : s.Settled) {id v : Nat} (hmem : (s.solution id).Mentions v) :
    s.solution v = .unsolved v .type :=
  Ty.Settled.mentioned h hmem

/-- A substituted type mentions only variables that stand for themselves. -/
theorem Settled.of_mentions (h : s.Settled) {type : Ty} (htype : type.FirstOrder) {id : Nat}
    (hmem : (s.substituteType type).Mentions id) : s.solution id = .unsolved id .type := by
  rw [← Ty.mentions_bare_iff, h.bare_substituteType htype, Ty.mentions_subst] at hmem
  obtain ⟨v, -, hmem⟩ := hmem
  exact h.mentioned hmem

/-- The assignment gives every variable the value of its solution. -/
structure SatisfiesTypes (s : Store) (assignment : Nat → Ty) : Prop where
  firstOrder : ∀ id, (assignment id).FirstOrder
  solution : ∀ id, assignment id = (s.solution id).subst assignment

theorem Settled.satisfied (h : s.Settled) : s.SatisfiesTypes s.solution where
  firstOrder := Ty.Settled.firstOrder h
  solution id := (Ty.Settled.solution_subst h id).symm

/-- The value of a type is that of its substitution. -/
theorem SatisfiesTypes.subst {assignment : Nat → Ty} (h : s.SatisfiesTypes assignment) (type : Ty) :
    (type.subst s.solution).subst assignment = type.subst assignment := by
  rw [Ty.subst_subst]
  exact Ty.subst_congr fun id _ => (h.solution id).symm

/-- Later solutions are earlier ones in which variables were replaced. -/
structure RefinesTypes (s s' : Store) : Prop where
  settled : s'.Settled
  next : s.nextType ≤ s'.nextType
  absorbs : ∀ id, s'.solution id = (s.solution id).subst s'.solution

theorem Settled.refines (h : s.Settled) : RefinesTypes s s where
  settled := h
  next := Nat.le_refl _
  absorbs := h.satisfied.solution

theorem RefinesTypes.subst (h : RefinesTypes s s') (type : Ty) :
    (type.subst s.solution).subst s'.solution = type.subst s'.solution := by
  rw [Ty.subst_subst]
  exact Ty.subst_congr fun id _ => (h.absorbs id).symm

theorem RefinesTypes.trans (h : RefinesTypes s s')
    (h' : RefinesTypes s' s'') : RefinesTypes s s'' where
  settled := h'.settled
  next := Nat.le_trans h.next h'.next
  absorbs id := by
    rw [h'.absorbs id, h.absorbs id, h'.subst]

theorem RefinesTypes.satisfied (h : RefinesTypes s s') {assignment : Nat → Ty}
    (hassignment : s'.SatisfiesTypes assignment) : s.SatisfiesTypes assignment where
  firstOrder := hassignment.firstOrder
  solution id := by
    rw [hassignment.solution id, h.absorbs id, hassignment.subst]

/-- The solutions of types are the same, and so are the types that frames register. -/
structure KeepsTypes (s s' : Store) : Prop where
  next : s'.nextType = s.nextType
  frames : s'.stack.frames.map Frame.unsolvedTypes = s.stack.frames.map Frame.unsolvedTypes
  settled : s.Settled → s'.Settled ∧ s'.solution = s.solution

instance keepsTypes_isPreorder : IsPreorder Store KeepsTypes where
  refl _ := ⟨rfl, rfl, fun h => ⟨h, rfl⟩⟩
  trans _ _ _ h h' := by
    refine ⟨h'.next.trans h.next, h'.frames.trans h.frames, fun hs => ?_⟩
    obtain ⟨hs', heq⟩ := h.settled hs
    obtain ⟨hs'', heq'⟩ := h'.settled hs'
    exact ⟨hs'', heq'.trans heq⟩

theorem KeepsTypes.refines (h : KeepsTypes s s') (hs : s.Settled) : RefinesTypes s s' := by
  obtain ⟨hs', heq⟩ := h.settled hs
  refine ⟨hs', Nat.le_of_eq h.next.symm, fun id => ?_⟩
  rw [heq]
  exact hs.satisfied.solution id

/-- Types, their number and the frames are left alone. -/
theorem keepsTypes_of_eq (hnext : s'.nextType = s.nextType) (htypes : s'.types = s.types)
    (hframes : s'.stack.frames.map Frame.unsolvedTypes =
      s.stack.frames.map Frame.unsolvedTypes) : KeepsTypes s s' := by
  refine ⟨hnext, hframes, fun hs => ⟨?_, ?_⟩⟩
  · rw [Settled, hnext, htypes]
    exact hs
  · funext id
    rw [solution, htypes, solution]

theorem keepsTypes_closeSolutions (s : Store) : KeepsTypes s s.closeSolutions := by
  refine ⟨rfl, rfl, fun hs => ?_⟩
  exact Ty.Settled.closed hs s.closeSolutions.kinds

theorem keepsTypes_solveKind (s : Store) (id : Nat) (kind : Kind) :
    KeepsTypes s (s.solveKind id kind) := by
  have hunion : KeepsTypes s { s with kinds := s.kinds.union (.unsolved id) kind s.pickKind } :=
    keepsTypes_of_eq rfl rfl rfl
  exact trans_of KeepsTypes hunion (keepsTypes_closeSolutions _)

end Store

namespace Solve

open Store

variable {s s' : Store}

/-- Popping a frame that registers no type leaves the types alone. -/
theorem popScope_keepsTypes {expected : ScopeTag} (hdrops : expected.dropsVariables = true)
    (hframe : ∃ frame outer, s.stack.frames = frame :: outer ∧ frame.unsolvedTypes = []) :
    Ends (popScope expected) s fun _ s' => s'.nextType = s.nextType ∧
      s.stack.frames.map Frame.unsolvedTypes = [] :: s'.stack.frames.map Frame.unsolvedTypes ∧
      (s.Settled → s'.Settled ∧ s'.solution = s.solution) := by
  obtain ⟨frame, outer, hframes, hempty⟩ := hframe
  rw [popScope, if_pos hdrops]
  refine Ends.bind (Ends.modify (Ends.bind (Ends.within (Ends.bind (Ends.get ?_)))))
  have hclosed : s.closeSolutions.stack.frames = frame :: outer := hframes
  rw [hclosed]
  refine Ends.bind (Ends.set ?_)
  split
  · refine Ends.pure (Ends.bind (Ends.modify (Ends.pure ⟨rfl, ?_, fun hs => ?_⟩)))
    · rw [hframes, List.map_cons, hempty]
      rfl
    · have hforget : ∀ inner : Store, (inner.forget frame).types = inner.types := by
        intro inner
        rw [Store.forget, hempty]
        rfl
      obtain ⟨hsettled, hsolution⟩ := (keepsTypes_closeSolutions s).settled hs
      refine ⟨?_, ?_⟩
      · rw [Settled, hforget]
        exact hsettled
      · funext id
        rw [Store.solution, hforget]
        exact congrFun hsolution id
  · intro popped stack hrun
    cases hrun

/-- What is done in a frame that is popped again. -/
theorem withScope_keepsTypes {α : Type} {kind : ScopeKind} {body : Solve α}
    (hdrops : kind.tag.dropsVariables = true) (hbody : Relates KeepsTypes body) :
    Relates KeepsTypes (withScope kind body) := by
  intro s
  refine Ends.bind (Ends.modify (Ends.bind ((hbody _).mono fun a s₁ h => ?_)))
  have hframes : s₁.stack.frames.map Frame.unsolvedTypes =
      [] :: s.stack.frames.map Frame.unsolvedTypes := h.frames
  have hframe : ∃ frame outer, s₁.stack.frames = frame :: outer ∧ frame.unsolvedTypes = [] := by
    obtain ⟨frame, outer, hcons, hempty, -⟩ := List.map_eq_cons_iff.1 hframes
    exact ⟨frame, outer, hcons, hempty⟩
  refine Ends.bind ((popScope_keepsTypes hdrops hframe).mono ?_)
  rintro popped s₂ ⟨hnext, hrest, hsettled⟩
  refine Ends.pure ⟨hnext.trans h.next, ?_, fun hs => ?_⟩
  · rw [hframes] at hrest
    exact (List.cons.inj hrest).2.symm
  · obtain ⟨hs₁, heq⟩ := h.settled hs
    obtain ⟨hs₂, heq'⟩ := hsettled hs₁
    exact ⟨hs₂, heq'.trans heq⟩

theorem freshKind_keepsTypes : Relates KeepsTypes freshKind := by
  refine Relates.get.bind fun store => ?_
  refine Relates.bind (Relates.modify fun _ => keepsTypes_of_eq rfl rfl rfl) fun _ => ?_
  refine Relates.bind (Relates.bind (Relates.modify fun _ => keepsTypes_of_eq rfl rfl rfl)
    fun _ => ?_) fun _ => Relates.pure _
  intro s
  refine Ends.within (Ends.bind (Ends.get ?_))
  cases hframes : s.stack.frames with
  | nil =>
    intro _ stack hrun
    cases hrun
  | cons frame outer =>
    refine Ends.set (keepsTypes_of_eq rfl rfl ?_)
    rw [hframes]
    rfl

theorem solveKind_keepsTypes (id : Nat) (kind : Kind) : Relates KeepsTypes (solveKind id kind) :=
  Relates.modify fun s => keepsTypes_solveKind s id kind

theorem substituteKind_keepsTypes (kind : Kind) : Relates KeepsTypes (substituteKind kind) :=
  Relates.get.bind fun _ => Relates.pure _

theorem relate_keepsTypes {check : Kind → Kind → Solve Bool}
    (hcheck : ∀ a b, Relates KeepsTypes (check a b)) (side : Side) (a b : Kind) :
    Relates KeepsTypes (side.relate check a b) := by
  cases side with
  | sub => exact hcheck a b
  | sup => exact hcheck b a

theorem instantiateKindWith_keepsTypes {check : Kind → Kind → Solve Bool}
    (hcheck : ∀ a b, Relates KeepsTypes (check a b)) (side : Side) (id : Nat) (kind : Kind) :
    Relates KeepsTypes (instantiateKindWith check side id kind) := by
  unfold instantiateKindWith
  split
  · refine withScope_keepsTypes rfl ?_
    refine (Relates.mapM fun _ _ => freshKind_keepsTypes).bind fun _ => ?_
    refine freshKind_keepsTypes.bind fun _ => (solveKind_keepsTypes _ _).bind fun _ => ?_
    refine (Relates.allM fun _ _ => relate_keepsTypes hcheck _ _ _).bind fun matched => ?_
    exact (relate_keepsTypes hcheck _ _ _).ite (Relates.pure false)
  · exact (solveKind_keepsTypes _ _).bind fun _ => Relates.pure true

theorem checkSubKindWithin_keepsTypes (fuel : Nat) : ∀ sub sup : Kind,
    Relates KeepsTypes (checkSubKindWithin fuel sub sup) := by
  induction fuel with
  | zero => exact fun _ _ => Relates.pure false
  | succ fuel ih =>
    intro sub sup
    refine (substituteKind_keepsTypes sub).bind fun sub => ?_
    refine (substituteKind_keepsTypes sup).bind fun sup => ?_
    have hinstantiate := fun side id kind => instantiateKindWith_keepsTypes ih side id kind
    dsimp only
    split
    · exact Relates.pure true
    · exact (Relates.pure true).ite ((Relates.pure false).ite (hinstantiate _ _ _))
    · exact (Relates.pure false).ite (hinstantiate _ _ _)
    · refine Relates.ite (withScope_keepsTypes rfl ?_) (Relates.pure false)
      refine (Relates.allM fun _ _ => ih _ _).bind fun matched => ?_
      exact (ih _ _).ite (Relates.pure false)
    · exact Relates.pure false

/-- Checks of kinds leave the solutions of types alone. -/
theorem checkSubKind_keepsTypes (sub sup : Kind) : Relates KeepsTypes (checkSubKind sub sup) :=
  Relates.bind (Relates.get.bind fun _ => Relates.pure _) fun fuel =>
    checkSubKindWithin_keepsTypes fuel _ _

end Solve

end PolyFront
