import PolyFront.Checking.Store

/-!
# Sub-kinds

A kind can be used where another is expected when the two can be made equal by solving
variables.  Solutions found before a mismatch are kept.
-/

namespace PolyFront

/-- On which side of a check a variable stands. -/
inductive Side where
  | sub
  | sup
deriving DecidableEq, Repr, Inhabited

namespace Side

def flip : Side → Side
  | .sub => .sup
  | .sup => .sub

/-- Check with the first argument on the given side. -/
def relate {α β : Type} (side : Side) (check : α → α → β) (a b : α) : β :=
  match side with
  | .sub => check a b
  | .sup => check b a

end Side

namespace Solve

/-- Solve a variable, on the given side, by a kind that does not mention it. A higher kind is
solved part by part with fresh variables. -/
def instantiateKindWith (check : Kind → Kind → Solve Bool) (side : Side) (id : Nat)
    (kind : Kind) : Solve Bool :=
  match kind with
  | .higher args result =>
    withScope .instantiateKind do
      let freshArgs ← args.mapM fun _ => freshKind
      let freshResult ← freshKind
      solveKind id (.higher freshArgs freshResult)
      let matched ← (freshArgs.zip args).allM fun (fresh, arg) =>
        side.flip.relate check fresh arg
      if matched then side.relate check freshResult result else pure false
  | kind => do
    solveKind id kind
    pure true

/-- The check to a given depth. -/
def checkSubKindWithin : Nat → Kind → Kind → Solve Bool
  | 0, _, _ => pure false
  | fuel + 1, sub, sup => do
    let check := checkSubKindWithin fuel
    match ← substituteKind sub, ← substituteKind sup with
    | .type, .type => pure true
    | .unsolved id, sup =>
      if sup = .unsolved id then pure true
      else if sup.occurs id then pure false
      else instantiateKindWith check .sub id sup
    | sub, .unsolved id =>
      if sub.occurs id then pure false else instantiateKindWith check .sup id sub
    | .higher args result, .higher args' result' =>
      if args.length = args'.length then
        withScope .checkSubKind do
          let matched ← (args.zip args').allM fun (arg, arg') => check arg' arg
          if matched then check result result' else pure false
      else pure false
    | _, _ => pure false

/-- A depth that no check exceeds while solutions are acyclic: a path through a fully
substituted kind visits every node of a solution at most once, and starts anew only at a
fresh variable that was solved before it was created, once for each such variable. -/
def kindFuel (kinds : List Kind) : Solve Nat := do
  let known := (← get).kinds
  let nodes := total Kind.weight (known.elements ++ known.representatives ++ kinds) + 2
  pure (nodes * nodes)

/-- Check that one kind can be used where the other is expected, and solve variables for it. -/
def checkSubKind (sub sup : Kind) : Solve Bool := do
  checkSubKindWithin (← kindFuel [sub, sup]) sub sup

/-- Solve a variable so that it can stand on the given side of a kind. -/
def instantiateKind (side : Side) (id : Nat) (kind : Kind) : Solve Bool := do
  instantiateKindWith (checkSubKindWithin (← kindFuel [kind])) side id kind

end Solve

end PolyFront
