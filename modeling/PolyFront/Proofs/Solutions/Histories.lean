import PolyFront.Proofs.Solutions.Subtype

/-!
# Histories of a store

A store is reached from the empty one by pushing and popping frames, creating variables,
checking kinds and types, and defaulting kinds.  As long as the arguments mention only variables
that were created, their binders are named variables and their applications have arguments, the
solutions stay acyclic and substitution is idempotent.  Each of these three conditions is needed.
-/

namespace PolyFront

/-- What can be done with a store. -/
inductive Operation where
  | pushScope (kind : ScopeKind)
  | popScope (tag : ScopeTag)
  | freshKind
  | freshType (kind : Kind)
  | checkSubKind (sub sup : Kind)
  | checkSubType (sub sup : Ty)
  | defaultKind (kind : Kind)
  | defaultClassifier (classifier : Classifier)

namespace Operation

/-- Carry out an operation, whatever it answers. -/
def run : Operation → Solve Unit
  | .pushScope kind => Solve.pushScope kind
  | .popScope tag => do
    let _ ← Solve.popScope tag
  | .freshKind => do
    let _ ← Solve.freshKind
  | .freshType kind => do
    let _ ← Solve.freshType kind
  | .checkSubKind sub sup => do
    let _ ← Solve.checkSubKind sub sup
  | .checkSubType sub sup => do
    let _ ← Solve.checkSubType sub sup
  | .defaultKind kind => do
    let _ ← Solve.defaultKind kind
  | .defaultClassifier classifier => do
    let _ ← Solve.defaultClassifier classifier

/-- The arguments are proper in the store: they mention only variables that were created, their
binders are named variables and their applications have arguments. -/
def Proper (s : Store) : Operation → Prop
  | .freshType kind => kind.Proper s.nextKind
  | .checkSubKind sub sup => sub.Proper s.nextKind ∧ sup.Proper s.nextKind
  | .checkSubType sub sup =>
    sub.Proper s.nextKind s.nextType ∧ sup.Proper s.nextKind s.nextType
  | .defaultKind kind => kind.Proper s.nextKind
  | .defaultClassifier (.ofKind kind) => kind.Proper s.nextKind
  | .defaultClassifier (.ofType type) => type.Proper s.nextKind s.nextType
  | .pushScope _ | .popScope _ | .freshKind => True

instance (s : Store) : (operation : Operation) → Decidable (operation.Proper s)
  | .freshType kind => inferInstanceAs (Decidable (kind.Proper s.nextKind))
  | .checkSubKind sub sup =>
    inferInstanceAs (Decidable (sub.Proper s.nextKind ∧ sup.Proper s.nextKind))
  | .checkSubType sub sup => inferInstanceAs (Decidable
    (sub.Proper s.nextKind s.nextType ∧ sup.Proper s.nextKind s.nextType))
  | .defaultKind kind => inferInstanceAs (Decidable (kind.Proper s.nextKind))
  | .defaultClassifier (.ofKind kind) => inferInstanceAs (Decidable (kind.Proper s.nextKind))
  | .defaultClassifier (.ofType type) =>
    inferInstanceAs (Decidable (type.Proper s.nextKind s.nextType))
  | .pushScope _ | .popScope _ | .freshKind => .isTrue trivial

end Operation

/-- The stores reached from the empty one by operations that satisfy a condition. -/
inductive Reached (allowed : Store → Operation → Prop) : Store → Prop where
  | start : Reached allowed Store.start
  | step {s s' : Store} {operation : Operation} (h : Reached allowed s)
    (hallowed : allowed s operation) (hrun : operation.run s = .ok () s') : Reached allowed s'

/-! ## Defaults -/

namespace Solve

open Run Store

variable {s : Store}

theorem defaultVariables_sound (hs : s.Sound) {ids : List Nat}
    (hids : ∀ id ∈ ids, id < s.nextKind ∧ s.kinds.Final (.unsolved id)) :
    Sound { s with kinds := Kind.defaultVariables s.kinds ids } := by
  refine ⟨hs.kinds.defaultVariables fun id hid => ?_, hs.types⟩
  obtain ⟨hlt, hfinal⟩ := hids id hid
  exact ⟨hlt, .inl hfinal⟩

theorem defaultKind_ids (hs : s.Sound) {kind : Kind} (hkind : kind.Proper s.nextKind) :
    ∀ id ∈ (kind.substitute s.kinds).unknowns,
      id < s.nextKind ∧ s.kinds.Final (.unsolved id) := fun id hid =>
  ⟨hs.kinds.substitute_proper hkind id hid, Kind.final_of_mem_substitute hs.kinds.wellFounded hid⟩

/-- The kinds in a substituted type mention only variables that stand for themselves. -/
theorem final_of_mem_kinds (hs : s.Sound) {type : Ty} {kind : Kind}
    (hkind : kind ∈ (s.substituteType type).kinds) {id : Nat} (hid : id ∈ kind.unknowns) :
    s.kinds.Final (.unsolved id) := by
  have hsubstituted : kind.substitute s.kinds = kind → s.kinds.Final (.unsolved id) := by
    intro heq
    rw [← heq] at hid
    exact Kind.final_of_mem_substitute hs.kinds.wellFounded hid
  rcases Ty.mem_kinds_cases hkind with hmem | ⟨other, hmem⟩ | ⟨builtIn, rfl⟩
  · exact hsubstituted
      (Ty.substitute_of_mem_carried hs.kinds.wellFounded hs.types.wellFounded hmem)
  · exact hsubstituted (Ty.kind_of_mem_substitute hs.kinds.wellFounded hs.types.wellFounded hmem)
  · have hproper : (Ty.builtIn builtIn).Proper 0 0 := by rw [Ty.Proper]; trivial
    exact (Nat.not_lt_zero id (hproper.kind id hid)).elim

theorem defaultType_ids (hs : s.Sound) {type : Ty} (htype : type.Proper s.nextKind s.nextType) :
    ∀ id ∈ (type.substitute s.types s.kinds).kinds.flatMap Kind.unknowns,
      id < s.nextKind ∧ s.kinds.Final (.unsolved id) := by
  intro id hid
  obtain ⟨kind, hkind, hid⟩ := List.mem_flatMap.1 hid
  refine ⟨?_, final_of_mem_kinds hs hkind hid⟩
  have hproper := hs.types.substitute_proper hs.kinds htype
  rcases Ty.mem_kinds_cases hkind with hmem | ⟨other, hmem⟩ | ⟨builtIn, rfl⟩
  · exact hproper.carried hmem id hid
  · exact (hproper.lt hmem).2 id hid
  · have hbuiltIn : (Ty.builtIn builtIn).Proper 0 0 := by rw [Ty.Proper]; trivial
    exact (Nat.not_lt_zero id (hbuiltIn.kind id hid)).elim

theorem defaultClassifier_ends (hs : s.Sound) {classifier : Classifier}
    (h : (Operation.defaultClassifier classifier).Proper s) :
    Ends (defaultClassifier classifier) s fun _ s' => s'.Sound := by
  refine Ends.bind (Ends.get ?_)
  cases classifier with
  | ofKind kind =>
    exact Ends.bind (Ends.set (Ends.pure (defaultVariables_sound hs (defaultKind_ids hs h))))
  | ofType type =>
    exact Ends.bind (Ends.set (Ends.pure (defaultVariables_sound hs (defaultType_ids hs h))))

end Solve

/-! ## Reached stores -/

open Run in
/-- An operation with proper arguments leads from a sound store to a sound store. -/
theorem Operation.run_ends {s : Store} (hs : s.Sound) {operation : Operation}
    (h : operation.Proper s) : Ends operation.run s fun _ s' => s'.Sound := by
  cases operation with
  | pushScope kind => exact Ends.modify (hs.withStack _).sound
  | popScope tag =>
    exact Ends.bind ((Solve.popScope_ends hs tag).mono fun _ _ hs' => Ends.pure hs'.sound)
  | freshKind =>
    exact Ends.bind ((Solve.freshKind_ends hs).mono fun _ _ hs' => Ends.pure hs'.1.sound)
  | freshType kind =>
    refine Ends.bind (Ends.bind ((Solve.freshVariable_ends hs h).mono fun _ _ hs' => ?_))
    exact Ends.pure (Ends.pure hs'.1.sound)
  | checkSubKind sub sup =>
    exact Ends.bind ((Solve.checkSubKind_ends hs h.1 h.2).mono fun _ _ hs' =>
      Ends.pure hs'.sound)
  | checkSubType sub sup =>
    exact Ends.bind ((Solve.checkSubType_ends hs h.1 h.2).mono fun _ _ hs' =>
      Ends.pure hs'.sound)
  | defaultKind kind =>
    refine Ends.bind (Ends.bind (Ends.get (Ends.bind (Ends.modify (Ends.pure (Ends.pure ?_))))))
    exact Solve.defaultVariables_sound hs (Solve.defaultKind_ids hs h)
  | defaultClassifier classifier =>
    exact Ends.bind ((Solve.defaultClassifier_ends hs h).mono fun _ _ hs' => Ends.pure hs')

theorem Reached.sound {s : Store} (h : Reached Operation.Proper s) : s.Sound := by
  induction h with
  | start => exact Store.sound_start
  | step _ hproper hrun ih => exact Operation.run_ends ih hproper () _ hrun

/-- No variable occurs in its own expanded solution, substituting a second time changes nothing,
and a substituted kind or type mentions only variables that have no solution. -/
structure Store.Coherent (s : Store) : Prop where
  kindAcyclic : ∀ id, s.kinds.find (.unsolved id) ≠ .unsolved id →
    id ∉ (s.substituteKind (.unsolved id)).unknowns
  typeAcyclic : ∀ id kind, (s.types.find (.unsolved id kind) == .unsolved id kind) = false →
    ∀ k, (id, k) ∉ (s.substituteType (.unsolved id kind)).mentions
  kindIdempotent : ∀ kind, s.substituteKind (s.substituteKind kind) = s.substituteKind kind
  typeIdempotent : ∀ type, s.substituteType (s.substituteType type) = s.substituteType type
  kindUnsolved : ∀ kind, ∀ id ∈ (s.substituteKind kind).unknowns,
    (s.kinds.find (.unsolved id)).isUnsolved = true
  typeUnsolved : ∀ type id k, (id, k) ∈ (s.substituteType type).mentions →
    (s.types.find (.unsolved id k)).isUnsolved = true
  carriedUnsolved : ∀ type, ∀ kind ∈ (s.substituteType type).kinds, ∀ id ∈ kind.unknowns,
    (s.kinds.find (.unsolved id)).isUnsolved = true

/-- Operations with proper arguments keep the solutions acyclic and substitution idempotent. -/
theorem Reached.coherent {s : Store} (h : Reached Operation.Proper s) : s.Coherent := by
  have hs := h.sound
  have hunsolved : ∀ {id}, s.kinds.Final (.unsolved id) →
      (s.kinds.find (.unsolved id)).isUnsolved = true := by
    intro id hfinal
    rw [Kind.final_iff.1 hfinal, Kind.isUnsolved]
  refine ⟨?_, ?_, ?_, ?_, ?_, ?_, ?_⟩
  · intro id hsolved
    exact Kind.not_mem_substitute_self hs.kinds.wellFounded fun hfinal =>
      hsolved (Kind.final_iff.1 hfinal)
  · intro id kind hsolved k hmem
    have hfinal : s.types.Final (.unsolved id kind) :=
      Ty.final_unsolved.2 (Ty.final_of_mem_substitute hs.types hmem)
    rw [Partition.Final, hsolved] at hfinal
    cases hfinal
  · exact Kind.substitute_substitute hs.kinds.wellFounded
  · exact Ty.substitute_substitute hs.kinds.wellFounded hs.types
  · intro kind id hid
    exact hunsolved (Kind.final_of_mem_substitute hs.kinds.wellFounded hid)
  · intro type id k hmem
    have hfinal : s.types.Final (.unsolved id k) :=
      Ty.final_unsolved.2 (Ty.final_of_mem_substitute hs.types hmem)
    exact (Ty.shape.unknown_congr hfinal).trans rfl
  · intro type kind hkind id hid
    exact hunsolved (Solve.final_of_mem_kinds hs hkind hid)

/-! ## Histories on fixed arguments -/

namespace Operation

/-- Carry out operations one after the other. -/
def runAll (operations : List Operation) : Solve Unit := operations.forM run

/-- The operations are carried out without a fault, each satisfies the first condition where it
is carried out, and the second condition holds in the end. -/
def test (allowed : Store → Operation → Bool) (condition : Store → Bool) :
    List Operation → Store → Bool
  | [], s => condition s
  | operation :: rest, s =>
    allowed s operation &&
      match operation.run s with
      | .ok _ s' => test allowed condition rest s'
      | .error _ _ => false

theorem exists_of_test {allowed : Store → Operation → Bool} {condition : Store → Bool}
    {operations : List Operation} {s : Store}
    (hs : Reached (fun s operation => allowed s operation = true) s)
    (h : test allowed condition operations s = true) :
    ∃ s', runAll operations s = .ok () s' ∧
      Reached (fun s operation => allowed s operation = true) s' ∧ condition s' = true := by
  induction operations generalizing s with
  | nil => exact ⟨s, rfl, hs, h⟩
  | cons operation rest ih =>
    rw [test, Bool.and_eq_true] at h
    obtain ⟨hallowed, h⟩ := h
    cases hrun : operation.run s with
    | error fault s' =>
      rw [hrun] at h
      cases h
    | ok _ s' =>
      rw [hrun] at h
      obtain ⟨s'', hrest, hreached, hcondition⟩ := ih (hs.step hallowed hrun) h
      refine ⟨s'', ?_, hreached, hcondition⟩
      change EStateM.bind operation.run (fun _ => runAll rest) s = _
      rw [EStateM.bind, hrun]
      exact hrest

theorem reached_mono {allowed allowed' : Store → Operation → Prop}
    (himp : ∀ s operation, allowed s operation → allowed' s operation) {s : Store}
    (h : Reached allowed s) : Reached allowed' s := by
  induction h with
  | start => exact .start
  | step _ hallowed hrun ih => exact .step ih (himp _ _ hallowed) hrun

/-- A list of elements of the given type. -/
def listOf (element : Ty) : Ty :=
  .apply (.constructor ⟨⟨[], "Data"⟩, "List"⟩ (.higher [.type] .type)) [element] .type

/-- A variable is made a list of another. -/
def listed : List Operation :=
  [.pushScope .block, .freshType .type, .freshType .type,
    .checkSubType (.unsolved 0 .type) (listOf (.unsolved 1 .type))]

theorem coherent_listed : ∃ s, runAll listed Store.start = .ok () s ∧
    Reached Operation.Proper s ∧ s.Coherent ∧
    (s.substituteType (.unsolved 0 .type) == listOf (.unsolved 1 .type)) = true := by
  have htest : test (fun s operation => decide (operation.Proper s))
      (fun s => s.substituteType (.unsolved 0 .type) == listOf (.unsolved 1 .type))
      listed Store.start = true := by decide +kernel
  obtain ⟨s, hrun, hreached, hsolved⟩ := exists_of_test .start htest
  have hproper : Reached Operation.Proper s :=
    reached_mono (fun _ _ hallowed => of_decide_eq_true hallowed) hreached
  exact ⟨s, hrun, hproper, Reached.coherent hproper, hsolved⟩

/-- A variable is used that was never created. -/
def uncreated : List Operation :=
  [.pushScope .block, .checkSubType (.unsolved 0 .type) (listOf (.builtIn .int))]

/-- A variable is applied to no argument, solved and dropped before the application is met
again. -/
def nullary : List Operation :=
  [.pushScope .block, .freshType .type, .freshType .type, .pushScope .checkSubType,
    .freshType .type, .checkSubType (.unsolved 1 .type) (.apply (.unsolved 2 .type) [] .type),
    .checkSubType (.unsolved 2 .type) (listOf (.unsolved 0 .type)), .popScope .checkSubType,
    .checkSubType (.unsolved 0 .type) (.apply (.unsolved 2 .type) [] .type)]

/-- A variable stands in the place of a binder. -/
def unsolvedBinder : List Operation :=
  [.pushScope .block, .freshType .type, .checkSubType (.unsolved 0 .type)
    (.apply (.quantified [.unsolved 0 .type] (.builtIn .int) .type) [.builtIn .int] .type)]

/-- Substituting a variable twice differs from substituting it once. -/
def changesTwice (id : Nat) (s : Store) : Bool :=
  !(s.substituteType (s.substituteType (.unsolved id .type)) ==
    s.substituteType (.unsolved id .type))

theorem not_coherent_of_changesTwice {id : Nat} {s : Store} (h : changesTwice id s = true) :
    ¬s.Coherent := by
  intro hcoherent
  rw [changesTwice, hcoherent.typeIdempotent, BEq.refl] at h
  cases h

/-- Whichever of the three conditions on arguments is dropped, a history leads to a store in
which substitution is not idempotent. -/
theorem exists_reached_not_coherent :
    (∃ s, runAll uncreated Store.start = .ok () s ∧ Reached (fun _ _ => True) s ∧ ¬s.Coherent) ∧
    (∃ s, runAll nullary Store.start = .ok () s ∧ Reached (fun _ _ => True) s ∧ ¬s.Coherent) ∧
    ∃ s, runAll unsolvedBinder Store.start = .ok () s ∧ Reached (fun _ _ => True) s ∧
      ¬s.Coherent := by
  have hall : ∀ operations, test (fun _ _ => true) (changesTwice 0) operations Store.start = true →
      ∃ s, runAll operations Store.start = .ok () s ∧ Reached (fun _ _ => True) s ∧
        ¬s.Coherent := by
    intro operations htest
    obtain ⟨s, hrun, hreached, hchanges⟩ := exists_of_test .start htest
    exact ⟨s, hrun, reached_mono (fun _ _ _ => trivial) hreached,
      not_coherent_of_changesTwice hchanges⟩
  exact ⟨hall _ (by decide +kernel), hall _ (by decide +kernel), hall _ (by decide +kernel)⟩

end Operation

end PolyFront
