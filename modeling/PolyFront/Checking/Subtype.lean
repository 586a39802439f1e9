import PolyFront.Checking.Subkind

/-!
# Subtypes

A type can be used where another is expected when it is a subtype of it once variables
are solved.  Quantified types are instantiated on the flexible side only: universal
binders of a subtype and existential binders of a supertype get fresh variables, every
other binder stays rigid.
-/

namespace PolyFront

/-- The binders that are flexible on a side of a check. -/
def Side.flexible : Side → Quantifier
  | .sub => .universal
  | .sup => .existential

namespace Solve

/-- Fresh types for the flexible binders. -/
def freshBinders (isFlexible : Quantifier → Bool) (binders : List Ty) :
    Solve (Table String Ty) :=
  binders.foldlM
    (fun assignment binder => do
      match binder with
      | .var quantifier name kind =>
        if isFlexible quantifier then
          pure (assignment.insert name (← freshType (← substituteKind kind)))
        else pure assignment
      | _ => pure assignment)
    Table.empty

/-- The body of a quantified type that stands on the given side, with its flexible binders
replaced by fresh types. -/
def instantiateBinders (side : Side) (binders : List Ty) (body : Ty) : Solve Ty := do
  pure (body.instantiate (← freshBinders (· == side.flexible) binders))

/-- Solve a variable, on the given side, by a type that does not mention it, to a given
depth. Functions and applications are solved part by part with fresh variables. -/
def instantiateTypeWithin : Nat → Side → Nat × Kind → Ty → Solve Unit
  | 0, _, _, _ => pure ()
  | fuel + 1, side, (id, kind), type => do
    let parts (side : Side) (fresh : List (Nat × Kind)) (types : List Ty) : Solve Unit :=
      (fresh.zip types).forM fun (hole, type) => do
        instantiateTypeWithin fuel side hole (← substituteType type)
    match type with
    | .unsolved other otherKind => solveType other otherKind (.unsolved id kind)
    | .apply head args applied =>
      let toTypes (fresh : List (Nat × Kind)) := fresh.map fun v => Ty.unsolved v.1 v.2
      match type.function? with
      | some (params, result) =>
        let freshParams ← params.mapM fun param => freshVariable param.kind
        let freshResult ← freshVariable .type
        solveType id kind
          (Ty.function (toTypes freshParams) (.unsolved freshResult.1 freshResult.2))
        parts side.flip freshParams params
        parts side [freshResult] [result]
      | none =>
        let freshArgs ← args.mapM fun arg => freshVariable arg.kind
        solveType id kind (.apply head (toTypes freshArgs) applied)
        parts side freshArgs args
    | .quantified binders body _ =>
      withScope .instantiateType do
        let body ← instantiateBinders side.flip binders body
        instantiateTypeWithin fuel side (id, kind) body
    | type => solveType id kind type

/-- The check to a given depth. -/
def checkSubTypeWithin : Nat → Ty → Ty → Solve Bool
  | 0, _, _ => pure false
  | fuel + 1, sub, sup => do
    let check := checkSubTypeWithin fuel
    match ← substituteType sub, ← substituteType sup with
    | sub, .quantified binders body _ =>
      withScope .checkSubType do
        check sub (← instantiateBinders .sup binders body)
    | .quantified binders body _, sup =>
      withScope .checkSubType do
        check (← instantiateBinders .sub binders body) sup
    | .unsolved id kind, sup =>
      if sup == .unsolved id kind then pure true
      else if sup.occurs id then pure false
      else if ← checkSubKind kind sup.kind then
        instantiateTypeWithin fuel .sub (id, kind) sup
        pure true
      else pure false
    | sub, .unsolved id kind =>
      if sub.occurs id then pure false
      else if ← checkSubKind sub.kind kind then
        instantiateTypeWithin fuel .sup (id, kind) sub
        pure true
      else pure false
    | .var quantifier name _, .var quantifier' name' _ =>
      pure (quantifier == quantifier' && name == name')
    | .builtIn type, .builtIn type' => pure (type.isSubtypeOf type')
    | .constructor name _, .constructor name' _ => pure (name == name')
    | .apply head args kind, .apply head' args' kind' =>
      if args.length = args'.length then
        match (Ty.apply head args kind).function?, (Ty.apply head' args' kind').function? with
        | some (params, result), some (params', result') =>
          let matched ← (params.zip params').allM fun (param, param') => check param' param
          if matched then check result result' else pure false
        | _, _ =>
          if ← check head head' then
            (args.zip args').allM fun (arg, arg') => check arg arg'
          else pure false
      else pure false
    | _, _ => pure false

/-- The depth to which a check of some types may go. It is meant for acyclic solutions, where a
path through a fully substituted type visits every node of a solution at most once and starts
anew only at a fresh variable, at most once for each. That a check gets by with it is shown for
ground types, for a type against itself and for checks that are stable, and assumed nowhere. -/
def typeFuel (types : List Ty) : Solve Nat := do
  let known := (← get).types
  let nodes := total Ty.weight (known.elements ++ known.representatives ++ types) + 2
  pure (nodes * nodes)

/-- Check that one type can be used where the other is expected, and solve variables for it. -/
def checkSubType (sub sup : Ty) : Solve Bool := do
  checkSubTypeWithin (← typeFuel [sub, sup]) sub sup

/-- Solve a variable so that it can stand on the given side of a type. -/
def instantiateType (side : Side) (id : Nat) (kind : Kind) (type : Ty) : Solve Unit := do
  instantiateTypeWithin (← typeFuel [type]) side (id, kind) type

/-- The type inside the given number of quantifiers, its universal binders made fresh. -/
def stripUniversal : Nat → Ty → Solve Ty
  | fuel + 1, .quantified binders body _ => do
    stripUniversal fuel (← instantiateBinders .sub binders body)
  | _, type => pure type

/-- Instantiate the universal binders of a type until it is no longer quantified. -/
def instantiatePolymorphic (type : Ty) : Solve Ty := do
  let type ← substituteType type
  stripUniversal type.quantifierDepth type

end Solve

end PolyFront
