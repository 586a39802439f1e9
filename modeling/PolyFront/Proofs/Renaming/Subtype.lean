import PolyFront.Proofs.Faultless.Solving
import PolyFront.Proofs.Renaming.Stores

/-!
# Subtypes of renamed types

A check of renamed types from a renamed store does what the check of the types does.  So the names
of bound variables do not matter as long as they are used for nothing else.  They matter otherwise:
a rigid variable is known by its name only, and is taken for any other variable of that name.
-/

namespace PolyFront

namespace Solve

variable {f : String → String} (hf : Function.Injective f)
include hf

/-! ## Sub-kinds -/

theorem instantiateKindWith_mirrors {check : Kind → Kind → Solve Bool}
    (hcheck : ∀ a b, Mirrors f id (check a b) (check a b)) (side : Side) (hole : Nat)
    (kind : Kind) :
    Mirrors f id (instantiateKindWith check side hole kind)
      (instantiateKindWith check side hole kind) := by
  have hrelate (side : Side) (a b : Kind) :
      Mirrors f id (side.relate check a b) (side.relate check a b) := by
    cases side with
    | sub => exact hcheck a b
    | sup => exact hcheck b a
  cases kind with
  | higher args result =>
    refine withScope_mirrors hf _ ?_
    have hfresh : Mirrors f (List.map id) (args.mapM fun _ => freshKind)
        (args.mapM fun _ => freshKind) :=
      Mirrors.mapM (List.forall₂_same.2 fun _ _ => freshKind_mirrors)
    refine hfresh.bind fun freshArgs => freshKind_mirrors.bind fun freshResult => ?_
    rw [List.map_id]
    refine (solveKind_mirrors hf _ _).bind fun _ => ?_
    refine (Mirrors.allM (List.forall₂_same.2 fun pair _ => ?_)).bind fun _ => ?_
    · exact hrelate side.flip pair.1 pair.2
    · exact Mirrors.ite (hrelate _ _ _) (Mirrors.pure rfl)
  | _ => exact (solveKind_mirrors hf _ _).bind fun _ => Mirrors.pure rfl

theorem checkSubKindWithin_mirrors (fuel : Nat) (sub sup : Kind) :
    Mirrors f id (checkSubKindWithin fuel sub sup) (checkSubKindWithin fuel sub sup) := by
  induction fuel generalizing sub sup with
  | zero => exact Mirrors.pure rfl
  | succ fuel ih =>
    refine Mirrors.bind (substituteKind_mirrors sub) fun sub => ?_
    refine Mirrors.bind (substituteKind_mirrors sup) fun sup => ?_
    have hsolve := instantiateKindWith_mirrors hf ih
    dsimp only [id]
    split
    · exact Mirrors.pure rfl
    · exact Mirrors.ite (Mirrors.pure rfl) (Mirrors.ite (Mirrors.pure rfl) (hsolve _ _ _))
    · exact Mirrors.ite (Mirrors.pure rfl) (hsolve _ _ _)
    · next args result args' result' =>
      refine Mirrors.ite (withScope_mirrors hf _ ?_) (Mirrors.pure rfl)
      refine (Mirrors.allM (List.forall₂_same.2 fun pair _ => ?_)).bind fun _ => ?_
      · exact ih pair.2 pair.1
      · exact Mirrors.ite (ih _ _) (Mirrors.pure rfl)
    · exact Mirrors.pure rfl

theorem checkSubKind_mirrors (sub sup : Kind) :
    Mirrors f id (checkSubKind sub sup) (checkSubKind sub sup) :=
  (kindFuel_mirrors _).bind fun fuel => checkSubKindWithin_mirrors hf fuel sub sup

/-! ## Subtypes -/

theorem freshBinders_mirrors (isFlexible : Quantifier → Bool) (binders : List Ty) :
    Mirrors f (Table.rename f (Ty.rename f)) (freshBinders isFlexible binders)
      (freshBinders isFlexible (binders.map (Ty.rename f))) := by
  refine Mirrors.foldlM (List.forall₂_map_right_iff.2 (List.forall₂_same.2 ?_)) Table.empty
  intro binder _ assignment
  cases binder with
  | var quantifier name kind =>
    rw [Ty.rename_var]
    refine Mirrors.ite ?_ (Mirrors.pure rfl)
    refine (substituteKind_mirrors kind).bind fun kind => ?_
    refine (freshType_mirrors hf kind).bind fun type => Mirrors.pure ?_
    exact Table.insert_rename hf _ _ _ _
  | _ => simpa using Mirrors.pure rfl

theorem instantiateBinders_mirrors (side : Side) (binders : List Ty) (body : Ty) :
    Mirrors f (Ty.rename f) (instantiateBinders side binders body)
      (instantiateBinders side (binders.map (Ty.rename f)) (body.rename f)) :=
  (freshBinders_mirrors hf _ binders).bind fun assignment =>
    Mirrors.pure (Ty.instantiate_rename hf assignment body)

theorem instantiateTypeWithin_mirrors (fuel : Nat) (side : Side) (hole : Nat × Kind) (type : Ty) :
    Mirrors f id (instantiateTypeWithin fuel side hole type)
      (instantiateTypeWithin fuel side hole (type.rename f)) := by
  induction fuel generalizing side hole type with
  | zero => exact Mirrors.pure rfl
  | succ fuel ih =>
    have hparts (side : Side) (fresh : List (Nat × Kind)) (types : List Ty) :
        Mirrors f id
          ((fresh.zip types).forM fun pair => do
            instantiateTypeWithin fuel side pair.1 (← substituteType pair.2))
          ((fresh.zip (types.map (Ty.rename f))).forM fun pair => do
            instantiateTypeWithin fuel side pair.1 (← substituteType pair.2)) := by
      rw [List.zip_map_right]
      refine Mirrors.forM (List.forall₂_map_right_iff.2 (List.forall₂_same.2 fun pair _ => ?_))
      exact (substituteType_mirrors hf pair.2).bind fun type => ih side pair.1 type
    have hfresh (types : List Ty) :
        Mirrors f (List.map id) (types.mapM fun type => freshVariable type.kind)
          ((types.map (Ty.rename f)).mapM fun type => freshVariable type.kind) := by
      refine Mirrors.mapM (List.forall₂_map_right_iff.2 (List.forall₂_same.2 fun type _ => ?_))
      rw [Ty.kind_rename]
      exact freshVariable_mirrors hf type.kind
    have hsolve (head : Ty) (fresh : List (Nat × Kind)) (applied : Kind) :
        Mirrors f id
          (solveType hole.1 hole.2
            (.apply head (fresh.map fun v => Ty.unsolved v.1 v.2) applied))
          (solveType hole.1 hole.2
            (.apply (head.rename f) (fresh.map fun v => Ty.unsolved v.1 v.2) applied)) := by
      have hmirrors := solveType_mirrors hf hole.1 hole.2
        (.apply head (fresh.map fun v => Ty.unsolved v.1 v.2) applied)
      rw [Ty.rename_apply, List.map_map] at hmirrors
      simpa only [Function.comp_def, Ty.rename_unsolved] using hmirrors
    cases type with
    | apply head args applied =>
      have hfunction := Ty.function?_rename f (.apply head args applied)
      rw [Ty.rename_apply] at hfunction
      rw [Ty.rename_apply, instantiateTypeWithin, instantiateTypeWithin]
      dsimp only
      rw [hfunction]
      cases (Ty.apply head args applied).function? with
      | some arrow =>
        obtain ⟨params, result⟩ := arrow
        refine (hfresh params).bind fun freshParams => ?_
        refine (freshVariable_mirrors hf .type).bind fun freshResult => ?_
        rw [List.map_id]
        have harrow := solveType_mirrors hf hole.1 hole.2 (Ty.function
          (freshParams.map fun v => Ty.unsolved v.1 v.2) (.unsolved freshResult.1 freshResult.2))
        rw [Ty.rename_function, List.map_map] at harrow
        simp only [Function.comp_def, Ty.rename_unsolved] at harrow
        refine harrow.bind fun _ => (hparts side.flip freshParams params).bind fun _ => ?_
        exact hparts side [freshResult] [result]
      | none =>
        refine (hfresh args).bind fun freshArgs => ?_
        rw [List.map_id]
        exact (hsolve head freshArgs applied).bind fun _ => hparts side freshArgs args
    | quantified binders body kind =>
      rw [Ty.rename_quantified]
      refine withScope_mirrors hf _ ?_
      exact (instantiateBinders_mirrors hf side.flip binders body).bind fun body =>
          ih side hole body
    | unsolved other otherKind =>
      have hsolved := solveType_mirrors hf other otherKind (.unsolved hole.1 hole.2)
      rw [Ty.rename_unsolved] at hsolved ⊢
      exact hsolved
    | var quantifier name kind =>
      have hsolved := solveType_mirrors hf hole.1 hole.2 (.var quantifier name kind)
      rw [Ty.rename_var] at hsolved ⊢
      exact hsolved
    | constructor name kind =>
      have hsolved := solveType_mirrors hf hole.1 hole.2 (.constructor name kind)
      rw [Ty.rename_constructor] at hsolved ⊢
      exact hsolved
    | builtIn type =>
      have hsolved := solveType_mirrors hf hole.1 hole.2 (.builtIn type)
      rw [Ty.rename_builtIn] at hsolved ⊢
      exact hsolved

/-! ## Checks -/

/-- A quantified type is checked without its binders in a frame of its own. -/
theorem checkQuantified_mirrors {next next' : Ty → Solve Bool}
    (hnext : ∀ type, Mirrors f id (next type) (next' (type.rename f))) (side : Side)
    (binders : List Ty) (body : Ty) :
    Mirrors f id (withScope .checkSubType do next (← instantiateBinders side binders body))
      (withScope .checkSubType do
        next' (← instantiateBinders side (Ty.renameList f binders) (body.rename f))) := by
  rw [Ty.renameList_eq_map]
  exact withScope_mirrors hf _ ((instantiateBinders_mirrors hf side binders body).bind hnext)

/-- A variable is solved by a type of its kind that does not mention it. -/
theorem checkUnsolved_mirrors (side : Side) (fuel hole : Nat) (kind : Kind) (type : Ty)
    {checkKinds : Kind → Solve Bool} (hkinds : ∀ k, Mirrors f id (checkKinds k) (checkKinds k)) :
    Mirrors f id
      (if type.occurs hole then pure false
        else do
          if ← checkKinds type.kind then
            instantiateTypeWithin fuel side (hole, kind) type
            pure true
          else pure false)
      (if (type.rename f).occurs hole then pure false
        else do
          if ← checkKinds (type.rename f).kind then
            instantiateTypeWithin fuel side (hole, kind) (type.rename f)
            pure true
          else pure false) := by
  rw [Ty.occurs_rename, Ty.kind_rename]
  refine Mirrors.ite (Mirrors.pure rfl) ((hkinds type.kind).bind fun matched => ?_)
  refine Mirrors.ite ?_ (Mirrors.pure rfl)
  exact (instantiateTypeWithin_mirrors hf fuel side (hole, kind) type).bind fun _ =>
      Mirrors.pure rfl

omit hf in
/-- Applications are compared part by part. -/
theorem checkApply_mirrors {check : Ty → Ty → Solve Bool}
    (hcheck : ∀ a b, Mirrors f id (check a b) (check (a.rename f) (b.rename f)))
    (head head' : Ty) (args args' : List Ty) (kind kind' : Kind) :
    Mirrors f id
      (if args.length = args'.length then
        match (Ty.apply head args kind).function?, (Ty.apply head' args' kind').function? with
        | some (params, result), some (params', result') => do
          let matched ← (params.zip params').allM fun (param, param') => check param' param
          if matched then check result result' else pure false
        | _, _ => do
          if ← check head head' then
            (args.zip args').allM fun (arg, arg') => check arg arg'
          else pure false
      else pure false)
      (if (Ty.renameList f args).length = (Ty.renameList f args').length then
        match (Ty.apply (head.rename f) (Ty.renameList f args) kind).function?,
          (Ty.apply (head'.rename f) (Ty.renameList f args') kind').function? with
        | some (params, result), some (params', result') => do
          let matched ← (params.zip params').allM fun (param, param') => check param' param
          if matched then check result result' else pure false
        | _, _ => do
          if ← check (head.rename f) (head'.rename f) then
            ((Ty.renameList f args).zip (Ty.renameList f args')).allM fun (arg, arg') =>
              check arg arg'
          else pure false
      else pure false) := by
  have hall (side : Side) (types types' : List Ty) :
      Mirrors f id ((types.zip types').allM fun (a, b) => side.relate check a b)
        (((types.map (Ty.rename f)).zip (types'.map (Ty.rename f))).allM fun (a, b) =>
          side.relate check a b) := by
    rw [List.zip_map]
    refine Mirrors.allM (List.forall₂_map_right_iff.2 (List.forall₂_same.2 fun pair _ => ?_))
    cases side with
    | sub => exact hcheck pair.1 pair.2
    | sup => exact hcheck pair.2 pair.1
  have hfunction := Ty.function?_rename f (.apply head args kind)
  have hfunction' := Ty.function?_rename f (.apply head' args' kind')
  rw [Ty.rename_apply] at hfunction hfunction'
  rw [Ty.renameList_eq_map, Ty.renameList_eq_map, List.length_map, List.length_map, hfunction,
    hfunction']
  have hparts : Mirrors f id
      (do
        if ← check head head' then (args.zip args').allM fun (arg, arg') => check arg arg'
        else pure false)
      (do
        if ← check (head.rename f) (head'.rename f) then
          ((args.map (Ty.rename f)).zip (args'.map (Ty.rename f))).allM fun (arg, arg') =>
            check arg arg'
        else pure false) :=
    (hcheck head head').bind fun _ => Mirrors.ite (hall .sub args args') (Mirrors.pure rfl)
  refine Mirrors.ite ?_ (Mirrors.pure rfl)
  cases (Ty.apply head args kind).function? with
  | none => exact hparts
  | some arrow =>
    cases (Ty.apply head' args' kind').function? with
    | none => exact hparts
    | some arrow' =>
      exact (hall .sup arrow.1 arrow'.1).bind fun _ =>
        Mirrors.ite (hcheck arrow.2 arrow'.2) (Mirrors.pure rfl)

theorem checkSubTypeWithin_mirrors (fuel : Nat) (sub sup : Ty) :
    Mirrors f id (checkSubTypeWithin fuel sub sup)
      (checkSubTypeWithin fuel (sub.rename f) (sup.rename f)) := by
  induction fuel generalizing sub sup with
  | zero => exact Mirrors.pure rfl
  | succ fuel ih =>
    refine Mirrors.bind (substituteType_mirrors hf sub) fun sub => ?_
    refine Mirrors.bind (substituteType_mirrors hf sup) fun sup => ?_
    have hsub (hole : Nat) (kind : Kind) (sup : Ty) :
        Mirrors f id
          (if sup == .unsolved hole kind then pure true
            else if sup.occurs hole then pure false
            else do
              if ← checkSubKind kind sup.kind then
                instantiateTypeWithin fuel .sub (hole, kind) sup
                pure true
              else pure false)
          (if sup.rename f == .unsolved hole kind then pure true
            else if (sup.rename f).occurs hole then pure false
            else do
              if ← checkSubKind kind (sup.rename f).kind then
                instantiateTypeWithin fuel .sub (hole, kind) (sup.rename f)
                pure true
              else pure false) := by
      have hbeq := Ty.beq_rename hf sup (.unsolved hole kind)
      rw [Ty.rename_unsolved] at hbeq
      rw [hbeq]
      refine Mirrors.ite (Mirrors.pure rfl) ?_
      exact checkUnsolved_mirrors hf .sub fuel hole kind sup (checkSubKind_mirrors hf kind)
    have hsup (hole : Nat) (kind : Kind) (sub : Ty) :=
      checkUnsolved_mirrors hf .sup fuel hole kind sub fun k => checkSubKind_mirrors hf k kind
    cases sup with
    | quantified binders body kind =>
      exact checkQuantified_mirrors hf (ih sub) .sup binders body
    | unsolved hole kind =>
      cases sub with
      | quantified binders body kind' =>
        exact checkQuantified_mirrors hf (ih · (.unsolved hole kind)) .sub binders body
      | unsolved hole' kind' => exact hsub hole' kind' (.unsolved hole kind)
      | _ => exact hsup hole kind _
    | var quantifier name kind =>
      cases sub with
      | quantified binders body kind' =>
        exact checkQuantified_mirrors hf (ih · (.var quantifier name kind)) .sub binders body
      | unsolved hole kind' => exact hsub hole kind' (.var quantifier name kind)
      | var quantifier' name' kind' =>
        refine Mirrors.pure ?_
        rw [beq_of_injective hf]
        rfl
      | _ => exact Mirrors.pure rfl
    | constructor name kind =>
      cases sub with
      | quantified binders body kind' =>
        exact checkQuantified_mirrors hf (ih · (.constructor name kind)) .sub binders body
      | unsolved hole kind' => exact hsub hole kind' (.constructor name kind)
      | _ => exact Mirrors.pure rfl
    | builtIn type =>
      cases sub with
      | quantified binders body kind =>
        exact checkQuantified_mirrors hf (ih · (.builtIn type)) .sub binders body
      | unsolved hole kind => exact hsub hole kind (.builtIn type)
      | _ => exact Mirrors.pure rfl
    | apply head args kind =>
      cases sub with
      | quantified binders body kind' =>
        exact checkQuantified_mirrors hf (ih · (.apply head args kind)) .sub binders body
      | unsolved hole kind' => exact hsub hole kind' (.apply head args kind)
      | apply head' args' kind' => exact checkApply_mirrors ih head' head args' args kind' kind
      | _ => exact Mirrors.pure rfl

omit hf in
theorem typeFuel_mirrors (types : List Ty) :
    Mirrors f id (typeFuel types) (typeFuel (types.map (Ty.rename f))) := by
  refine Mirrors.bind Mirrors.get fun store => Mirrors.pure ?_
  have hweight : total Ty.weight ((store.rename f).types.elements ++
      (store.rename f).types.representatives ++ types.map (Ty.rename f)) =
        total Ty.weight (store.types.elements ++ store.types.representatives ++ types) := by
    rw [← Ty.total_weight_rename f (store.types.elements ++ _ ++ types), List.map_append,
      List.map_append, ← Partition.elements_map, ← Partition.representatives_map]
    rfl
  rw [hweight]
  rfl

theorem checkSubType_mirrors (sub sup : Ty) :
    Mirrors f id (checkSubType sub sup) (checkSubType (sub.rename f) (sup.rename f)) :=
  (typeFuel_mirrors [sub, sup]).bind fun fuel => checkSubTypeWithin_mirrors hf fuel sub sup

end Solve

/-! ## Bound names -/

/-- The answer of a check from a store, if it ends without a fault. -/
def Store.answer (store : Store) (check : Solve Bool) : Option Bool :=
  match check store with
  | .ok holds _ => some holds
  | .error _ _ => none

theorem Store.answer_rename {f : String → String} (hf : Function.Injective f) (store : Store)
    (sub sup : Ty) :
    (store.rename f).answer (Solve.checkSubType (sub.rename f) (sup.rename f)) =
      store.answer (Solve.checkSubType sub sup) := by
  rw [answer, Solve.checkSubType_mirrors hf sub sup store, answer]
  cases Solve.checkSubType sub sup store <;> rfl

/-- With a frame on the stack every check has an answer. -/
theorem Store.exists_answer {store : Store} (hframes : store.stack.frames ≠ []) (sub sup : Ty) :
    ∃ holds, store.answer (Solve.checkSubType sub sup) = some holds := by
  obtain ⟨frame, rest, hstack⟩ := List.exists_cons_of_ne_nil hframes
  have hshape : Store.At (frame.kind :: rest.map Frame.kind) store := by
    rw [At, Stack.shape, hstack, List.map_cons]
  obtain ⟨holds, after, hrun, -⟩ := Solve.checkSubType_keeps sub sup store hshape
  exact ⟨holds, by rw [answer, hrun]⟩

/-- A store with one frame and no solutions. -/
def Store.framed : Store :=
  { Store.start with stack := Store.start.stack.push (Frame.empty .block) }

/-- The type of a universal variable of proper types. -/
def Ty.universal (name : String) : Ty := .var .universal name .type

/-- The type of what is of every type. -/
def Ty.all (name : String) : Ty := .quantified [universal name] (universal name) .type

end PolyFront
