import PolyFront.Checking.Subtype
import PolyFront.Proofs.Faultless.Run

/-!
# Solving is free of faults

The operations on the store of solutions, and the checks that solve variables, never fault
while some frame is on the stack.  The frames that they push are popped again on every path,
whatever a check returns.
-/

namespace PolyFront

open Run

/-- The given constructs are on the stack of a store. -/
def Store.At (shape : List ScopeKind) (store : Store) : Prop := store.stack.shape = shape

namespace Store

@[simp]
theorem closeSolutions_stack (store : Store) : store.closeSolutions.stack = store.stack := rfl

@[simp]
theorem solveKind_stack (store : Store) (id : Nat) (kind : Kind) :
    (store.solveKind id kind).stack = store.stack := rfl

@[simp]
theorem solveType_stack (store : Store) (id : Nat) (kind : Kind) (type : Ty) :
    (store.solveType id kind type).stack = store.stack := rfl

theorem solveTypeOf_stack (store : Store) (key : String) (type : Ty) :
    (store.solveTypeOf key type).stack = store.stack := by
  unfold solveTypeOf
  split
  · rfl
  · split
    · split <;> rfl
    · rfl

@[simp]
theorem forget_stack (store : Store) (frame : Frame (Located Attributes)) :
    (store.forget frame).stack = store.stack := rfl

theorem handOn_shape (store : Store) (frame : Frame (Located Attributes)) :
    (store.handOn frame).stack.shape = store.stack.shape := by
  unfold handOn
  split
  · rfl
  · rename_i enclosing rest hframes
    simp [Stack.shape, hframes, Frame.addKinds, Frame.addTypes]

end Store

/-- The same name, and a classifier of the same sort. -/
structure Attributes.SameSort (attributes attributes' : Attributes) : Prop where
  name : attributes'.name = attributes.name
  kind : attributes'.classifier.kind?.isSome = attributes.classifier.kind?.isSome
  type : attributes'.classifier.type?.isSome = attributes.classifier.type?.isSome

namespace Solve

open Store

variable {shape : List ScopeKind} {kind : ScopeKind}

/-! ## The operations on the store -/

/-- Actions that leave the stack alone keep what is known about it. -/
theorem keeps_modify {f : Store → Store} (hf : ∀ store, (f store).stack = store.stack) :
    Keeps (At shape) (modify f) fun _ => True :=
  Keeps.modify fun store hstore => by simpa only [At, hf store] using hstore

theorem onStack_ok {α : Type} {run : Run (Stack (Located Attributes)) α} {store : Store} {a : α}
    {stack : Stack (Located Attributes)} (h : run store.stack = .ok a stack) :
    onStack run store = .ok a { store with stack := stack } :=
  within_ok h

/-- The innermost frame is changed without a fault when there is one. -/
theorem updateTop_keeps {f : Frame (Located Attributes) → Frame (Located Attributes)}
    (hf : ∀ frame, (f frame).kind = frame.kind) :
    Keeps (At (kind :: shape)) (onStack (Stack.updateTop f)) fun _ => True := by
  intro store hstore
  obtain ⟨frame, rest, hframes, hkind, hrest⟩ := Stack.exists_frames_of_shape_eq_cons hstore
  refine ⟨(), { store with stack := { store.stack with frames := f frame :: rest } }, ?_, ?_,
    True.intro⟩
  · refine onStack_ok ((ok_bind rfl).trans ?_)
    rw [hframes]
    rfl
  · simp [At, Stack.shape, hf, hkind, hrest]

theorem putValue_keeps (key : String) (item : Located Attributes) :
    Keeps (At (kind :: shape)) (putValue key item) fun _ => True :=
  updateTop_keeps fun _ => rfl

theorem putType_keeps (key : String) (item : Located Attributes) :
    Keeps (At (kind :: shape)) (putType key item) fun _ => True :=
  updateTop_keeps fun _ => rfl

theorem populateType_keeps (key : String) (item : Located Attributes) :
    Keeps (At (kind :: shape)) (populateType key item) fun _ => True := by
  refine updateTop_keeps fun frame => ?_
  unfold Frame.populateType
  split <;> rfl

theorem putField_keeps (constructor : ConstructorName) (key : String)
    (item : Located Attributes) :
    Keeps (At (kind :: shape)) (putField constructor key item) fun _ => True :=
  updateTop_keeps fun _ => rfl

theorem putUnsolvedKind_keeps (id : Nat) :
    Keeps (At (kind :: shape)) (putUnsolvedKind id) fun _ => True :=
  Keeps.bind (keeps_modify fun _ => rfl) fun _ _ => updateTop_keeps fun _ => rfl

theorem putUnsolvedType_keeps (id : Nat) (k : Kind) :
    Keeps (At (kind :: shape)) (putUnsolvedType id k) fun _ => True :=
  Keeps.bind (keeps_modify fun _ => rfl) fun _ _ => updateTop_keeps fun _ => rfl

theorem freshKind_keeps : Keeps (At (kind :: shape)) freshKind fun _ => True := by
  refine Keeps.bind Keeps.get fun store _ => Keeps.bind (keeps_modify fun _ => rfl) fun _ _ => ?_
  exact Keeps.bind (putUnsolvedKind_keeps _) fun _ _ => Keeps.pure True.intro

theorem freshVariable_keeps (k : Kind) :
    Keeps (At (kind :: shape)) (freshVariable k) fun _ => True := by
  refine Keeps.bind Keeps.get fun store _ => Keeps.bind (keeps_modify fun _ => rfl) fun _ _ => ?_
  exact Keeps.bind (putUnsolvedType_keeps _ _) fun _ _ => Keeps.pure True.intro

theorem freshType_keeps (k : Kind) :
    Keeps (At (kind :: shape)) (freshType k) fun _ => True :=
  Keeps.bind (freshVariable_keeps k) fun _ _ => Keeps.pure True.intro

theorem substituteKind_keeps (k : Kind) :
    Keeps (At shape) (substituteKind k) fun _ => True :=
  Keeps.bind Keeps.get fun _ _ => Keeps.pure True.intro

theorem substituteType_keeps (type : Ty) :
    Keeps (At shape) (substituteType type) fun _ => True :=
  Keeps.bind Keeps.get fun _ _ => Keeps.pure True.intro

/-- Substitution keeps the sort of a classifier. -/
theorem substitute_keeps (attributes : Attributes) :
    Keeps (At shape) (substitute attributes) attributes.SameSort := by
  refine Keeps.bind Keeps.get fun store _ => Keeps.pure ?_
  obtain ⟨name, classifier⟩ := attributes
  cases classifier <;> exact ⟨rfl, rfl, rfl⟩

/-- Defaulting keeps the sort of a classifier. -/
theorem default_keeps (attributes : Attributes) :
    Keeps (At shape) (default attributes) attributes.SameSort := by
  obtain ⟨name, classifier⟩ := attributes
  have hdefault : Keeps (At shape) (defaultClassifier classifier) fun classifier' =>
      classifier'.kind?.isSome = classifier.kind?.isSome ∧
        classifier'.type?.isSome = classifier.type?.isSome := by
    refine Keeps.bind Keeps.get fun store hstore => ?_
    refine Keeps.bind (Keeps.set hstore) fun _ _ => Keeps.pure ?_
    cases classifier <;> exact ⟨rfl, rfl⟩
  exact Keeps.bind hdefault fun _ hclassifier => Keeps.pure ⟨rfl, hclassifier.1, hclassifier.2⟩

theorem defaultKind_keeps (k : Kind) : Keeps (At shape) (defaultKind k) fun _ => True := by
  refine Keeps.bind Keeps.get fun store _ => ?_
  exact Keeps.bind (keeps_modify fun _ => rfl) fun _ _ => Keeps.pure True.intro

theorem solveKind_keeps (id : Nat) (k : Kind) :
    Keeps (At shape) (solveKind id k) fun _ => True :=
  keeps_modify fun _ => rfl

theorem solveType_keeps (id : Nat) (k : Kind) (type : Ty) :
    Keeps (At shape) (solveType id k type) fun _ => True :=
  keeps_modify fun _ => rfl

/-- The innermost frame is popped without a fault when it is of the expected construct. -/
theorem popScope_ok {store : Store} (hstore : At (kind :: shape) store) :
    ∃ frame store', popScope kind.tag store = .ok frame store' ∧ At shape store' := by
  obtain ⟨frame, rest, hframes, hkind, hrest⟩ := Stack.exists_frames_of_shape_eq_cons hstore
  have htag : frame.tag = kind.tag := by rw [Frame.tag, hkind]
  have hpop := Stack.pop_eq_ok hframes htag
  by_cases hdrops : kind.tag.dropsVariables
  · refine ⟨frame, Store.forget { store.closeSolutions with
      stack := { store.stack with frames := rest } } frame, ?_, hrest⟩
    rw [popScope, if_pos hdrops]
    have hclosed : onStack (Stack.pop kind.tag) store.closeSolutions = _ := onStack_ok hpop
    exact (ok_bind rfl).trans ((ok_bind hclosed).trans rfl)
  · refine ⟨frame, Store.handOn { store with
      stack := { store.stack with frames := rest } } frame, ?_, ?_⟩
    · rw [popScope, if_neg hdrops]
      exact (ok_bind (onStack_ok hpop)).trans rfl
    · rw [At, handOn_shape]
      exact hrest

/-- A frame that is pushed around a run is popped again. -/
theorem withScope_keeps {α : Type} {good : α → Prop} {body : Solve α}
    (hbody : Keeps (At (kind :: shape)) body good) :
    Keeps (At shape) (withScope kind body) good := by
  intro store hstore
  have hpushed : At (kind :: shape)
      { store with stack := store.stack.push (Frame.empty kind) } := by
    rw [At, Stack.shape_push, hstore]
    rfl
  obtain ⟨a, store₁, hok, hstore₁, ha⟩ := hbody _ hpushed
  obtain ⟨frame, store₂, hpop, hstore₂⟩ := popScope_ok hstore₁
  exact ⟨a, store₂, (ok_bind rfl).trans ((ok_bind hok).trans (ok_bind hpop)), hstore₂, ha⟩

/-! ## Sub-kinds -/

theorem relate_keeps {α : Type} {check : α → α → Solve Bool}
    (hcheck : ∀ a b, Keeps (At shape) (check a b) fun _ => True) (side : Side) (a b : α) :
    Keeps (At shape) (side.relate check a b) fun _ => True := by
  cases side with
  | sub => exact hcheck a b
  | sup => exact hcheck b a

theorem instantiateKindWith_keeps {check : Kind → Kind → Solve Bool}
    (hcheck : ∀ kind shape a b, Keeps (At (kind :: shape)) (check a b) fun _ => True)
    (side : Side) (id : Nat) (k : Kind) :
    Keeps (At (kind :: shape)) (instantiateKindWith check side id k) fun _ => True := by
  unfold instantiateKindWith
  split
  · refine withScope_keeps ?_
    refine Keeps.bind (Keeps.mapM fun _ _ => freshKind_keeps) fun _ _ => ?_
    refine Keeps.bind freshKind_keeps fun _ _ => ?_
    refine Keeps.bind (solveKind_keeps _ _) fun _ _ => ?_
    refine Keeps.bind (Keeps.allM fun _ _ => relate_keeps (hcheck _ _) _ _ _) fun matched _ => ?_
    exact Keeps.ite (fun _ => relate_keeps (hcheck _ _) _ _ _) fun _ => Keeps.pure True.intro
  · exact Keeps.bind (solveKind_keeps _ _) fun _ _ => Keeps.pure True.intro

theorem checkSubKindWithin_keeps (fuel : Nat) :
    ∀ kind shape sub sup,
      Keeps (At (kind :: shape)) (checkSubKindWithin fuel sub sup) fun _ => True := by
  induction fuel with
  | zero => exact fun _ _ _ _ => Keeps.pure True.intro
  | succ fuel ih =>
    intro kind shape sub sup
    refine Keeps.bind (substituteKind_keeps sub) fun sub _ => ?_
    refine Keeps.bind (substituteKind_keeps sup) fun sup _ => ?_
    have hinstantiate (side : Side) (id : Nat) (k : Kind) :
        Keeps (At (kind :: shape)) (instantiateKindWith (checkSubKindWithin fuel) side id k)
          fun _ => True := instantiateKindWith_keeps ih side id k
    dsimp only
    split
    · exact Keeps.pure True.intro
    · refine Keeps.ite (fun _ => Keeps.pure True.intro) fun _ => ?_
      exact Keeps.ite (fun _ => Keeps.pure True.intro) fun _ => hinstantiate _ _ _
    · exact Keeps.ite (fun _ => Keeps.pure True.intro) fun _ => hinstantiate _ _ _
    · refine Keeps.ite (fun _ => withScope_keeps ?_) fun _ => Keeps.pure True.intro
      refine Keeps.bind (Keeps.allM fun _ _ => ih _ _ _ _) fun matched _ => ?_
      exact Keeps.ite (fun _ => ih _ _ _ _) fun _ => Keeps.pure True.intro
    · exact Keeps.pure True.intro

theorem kindFuel_keeps (kinds : List Kind) : Keeps (At shape) (kindFuel kinds) fun _ => True :=
  Keeps.bind Keeps.get fun _ _ => Keeps.pure True.intro

theorem checkSubKind_keeps (sub sup : Kind) :
    Keeps (At (kind :: shape)) (checkSubKind sub sup) fun _ => True :=
  Keeps.bind (kindFuel_keeps _) fun fuel _ => checkSubKindWithin_keeps fuel _ _ _ _

theorem instantiateKind_keeps (side : Side) (id : Nat) (k : Kind) :
    Keeps (At (kind :: shape)) (instantiateKind side id k) fun _ => True :=
  Keeps.bind (kindFuel_keeps _) fun fuel _ =>
    instantiateKindWith_keeps (checkSubKindWithin_keeps fuel) side id k

/-! ## Subtypes -/

theorem freshBinders_keeps (isFlexible : Quantifier → Bool) (binders : List Ty) :
    Keeps (At (kind :: shape)) (freshBinders isFlexible binders) fun _ => True := by
  refine Keeps.foldlM True.intro fun assignment _ binder _ => ?_
  split
  · refine Keeps.ite (fun _ => ?_) fun _ => Keeps.pure True.intro
    refine Keeps.bind (substituteKind_keeps _) fun _ _ => ?_
    exact Keeps.bind (freshType_keeps _) fun _ _ => Keeps.pure True.intro
  · exact Keeps.pure True.intro

theorem instantiateBinders_keeps (side : Side) (binders : List Ty) (body : Ty) :
    Keeps (At (kind :: shape)) (instantiateBinders side binders body) fun _ => True :=
  Keeps.bind (freshBinders_keeps _ _) fun _ _ => Keeps.pure True.intro

theorem instantiateTypeWithin_keeps (fuel : Nat) :
    ∀ kind shape side hole type,
      Keeps (At (kind :: shape)) (instantiateTypeWithin fuel side hole type)
        fun _ => True := by
  induction fuel with
  | zero => exact fun _ _ _ _ _ => Keeps.pure True.intro
  | succ fuel ih =>
    intro kind shape side ⟨id, k⟩ type
    have hparts (side : Side) (fresh : List (Nat × Kind)) (types : List Ty) :
        Keeps (At (kind :: shape)) ((fresh.zip types).forM fun pair => do
          instantiateTypeWithin fuel side pair.1 (← substituteType pair.2)) fun _ => True :=
      Keeps.forM fun _ _ => Keeps.bind (substituteType_keeps _) fun _ _ => ih _ _ _ _ _
    unfold instantiateTypeWithin
    dsimp only
    split
    · exact solveType_keeps _ _ _
    · split
      · refine Keeps.bind (Keeps.mapM fun _ _ => freshVariable_keeps _) fun _ _ => ?_
        refine Keeps.bind (freshVariable_keeps _) fun _ _ => ?_
        refine Keeps.bind (solveType_keeps _ _ _) fun _ _ => ?_
        exact Keeps.bind (hparts _ _ _) fun _ _ => hparts _ _ _
      · refine Keeps.bind (Keeps.mapM fun _ _ => freshVariable_keeps _) fun _ _ => ?_
        exact Keeps.bind (solveType_keeps _ _ _) fun _ _ => hparts _ _ _
    · refine withScope_keeps ?_
      exact Keeps.bind (instantiateBinders_keeps _ _ _) fun _ _ => ih _ _ _ _ _
    · exact solveType_keeps _ _ _

theorem checkSubTypeWithin_keeps (fuel : Nat) :
    ∀ kind shape sub sup,
      Keeps (At (kind :: shape)) (checkSubTypeWithin fuel sub sup) fun _ => True := by
  induction fuel with
  | zero => exact fun _ _ _ _ => Keeps.pure True.intro
  | succ fuel ih =>
    intro kind shape sub sup
    refine Keeps.bind (substituteType_keeps sub) fun sub _ => ?_
    refine Keeps.bind (substituteType_keeps sup) fun sup _ => ?_
    -- A variable is solved once its kind fits.
    have hsolve (k k' : Kind) (side : Side) (hole : Nat × Kind) (type : Ty) :
        Keeps (At (kind :: shape)) (do
          if ← checkSubKind k k' then
            instantiateTypeWithin fuel side hole type
            pure true
          else pure false) fun _ => True := by
      refine Keeps.bind (checkSubKind_keeps k k') fun _ _ => ?_
      refine Keeps.ite (fun _ => ?_) fun _ => Keeps.pure True.intro
      exact Keeps.bind (instantiateTypeWithin_keeps fuel _ _ _ _ _) fun _ _ =>
        Keeps.pure True.intro
    dsimp only
    split
    · exact withScope_keeps (Keeps.bind (instantiateBinders_keeps _ _ _) fun _ _ => ih _ _ _ _)
    · exact withScope_keeps (Keeps.bind (instantiateBinders_keeps _ _ _) fun _ _ => ih _ _ _ _)
    · refine Keeps.ite (fun _ => Keeps.pure True.intro) fun _ => ?_
      exact Keeps.ite (fun _ => Keeps.pure True.intro) fun _ => hsolve _ _ _ _ _
    · exact Keeps.ite (fun _ => Keeps.pure True.intro) fun _ => hsolve _ _ _ _ _
    · exact Keeps.pure True.intro
    · exact Keeps.pure True.intro
    · exact Keeps.pure True.intro
    · refine Keeps.ite (fun _ => ?_) fun _ => Keeps.pure True.intro
      split
      · refine Keeps.bind (Keeps.allM fun _ _ => ih _ _ _ _) fun _ _ => ?_
        exact Keeps.ite (fun _ => ih _ _ _ _) fun _ => Keeps.pure True.intro
      · refine Keeps.bind (ih _ _ _ _) fun _ _ => ?_
        exact Keeps.ite (fun _ => Keeps.allM fun _ _ => ih _ _ _ _) fun _ =>
          Keeps.pure True.intro
    · exact Keeps.pure True.intro

theorem typeFuel_keeps (types : List Ty) : Keeps (At shape) (typeFuel types) fun _ => True :=
  Keeps.bind Keeps.get fun _ _ => Keeps.pure True.intro

theorem checkSubType_keeps (sub sup : Ty) :
    Keeps (At (kind :: shape)) (checkSubType sub sup) fun _ => True :=
  Keeps.bind (typeFuel_keeps _) fun fuel _ => checkSubTypeWithin_keeps fuel _ _ _ _

theorem stripUniversal_keeps (depth : Nat) (type : Ty) :
    Keeps (At (kind :: shape)) (stripUniversal depth type) fun _ => True := by
  induction depth generalizing type with
  | zero => exact Keeps.pure True.intro
  | succ depth ih =>
    cases type with
    | quantified binders body k =>
      exact Keeps.bind (instantiateBinders_keeps _ _ _) fun _ _ => ih _
    | _ => exact Keeps.pure True.intro

theorem instantiatePolymorphic_keeps (type : Ty) :
    Keeps (At (kind :: shape)) (instantiatePolymorphic type) fun _ => True :=
  Keeps.bind (substituteType_keeps type) fun _ _ => stripUniversal_keeps _ _

end Solve

end PolyFront
