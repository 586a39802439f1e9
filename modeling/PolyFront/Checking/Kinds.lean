import PolyFront.Checking.Checker

/-!
# Kinds of written types

The kind of a written type is inferred, or checked against an expected kind.  Every
node of the result carries its kind.
-/

namespace PolyFront

/-- The two ways to find the kinds of a written type. -/
structure KindJudgement where
  /-- The root of the result carries the inferred kind. -/
  infer : Check (TypeNode Attributes)
  /-- A kind other than the expected one is reported. -/
  check : Kind → Check (TypeNode Attributes)

namespace Check

/-- Substitute the kinds of all nodes. -/
def substituteNode (node : TypeNode Attributes) : Check (TypeNode Attributes) :=
  node.traverse fun attributes => (Solve.substitute attributes : Check Attributes)

/-- Substitute the kinds of all nodes and solve what is left unsolved by `*`. -/
def defaultNode (node : TypeNode Attributes) : Check (TypeNode Attributes) :=
  node.traverse fun attributes => (Solve.default attributes : Check Attributes)

/-- Bind a type variable in the innermost frame. -/
def bindTypeVar (var : TypeVarNode Name) (kind : Kind) : Check (TypeVarNode Attributes) := do
  let here := kinded var.here kind
  Solve.putType var.name here
  pure ⟨here, var.quantifier, var.name⟩

/-- Bind a type variable of unknown kind in the innermost frame. -/
def inferTypeVar (var : TypeVarNode Name) : Check (TypeVarNode Attributes) := do
  let kind ← Solve.freshKind
  bindTypeVar var kind

/-- The kind a name was given. A name that was given none gets a fresh kind. -/
def kindOfName (name : Name) : Check Kind := do
  if name.isNameless then
    Solve.freshKind
  else
    let key := name.canonical
    match ((← get).store.stack.type? key).bind fun here => here.info.classifier.kind? with
    | some kind => Solve.substituteKind kind
    | none =>
      let kind ← Solve.freshKind
      Solve.populateType key (.nowhere ⟨name, .ofKind kind⟩)
      pure kind

end Check

namespace KindJudgement

open Check

/-- Infer, then compare with the expected kind. -/
def subsume (range : Range) (infer : Check (TypeNode Attributes)) (expected : Kind) :
    Check (TypeNode Attributes) := do
  let node ← infer
  let actual ← kindOf node.here
  if !(← Solve.checkSubKind actual expected) then
    let expected ← Solve.substituteKind expected
    let actual ← Solve.substituteKind actual
    report range (KindError.mismatch expected actual).message
  pure node

/-- A type that is checked by inferring its kind. -/
def ofInference (range : Range) (infer : Check (TypeNode Attributes)) : KindJudgement where
  infer := infer
  check expected := do subsume range infer (← Solve.substituteKind expected)

/-- Binders of unknown kinds around a proper type. -/
def inferQuantified (here : Located Name) (binders : List (TypeVarNode Name))
    (body : KindJudgement) : Check (TypeNode Attributes) :=
  withScope .quantifiedType do
    let binders ← binders.mapM inferTypeVar
    let body ← body.check .type
    substituteNode (.quantified (kinded here .type) binders body)

/-- Binders of the argument kinds around a type of the result kind. -/
def checkQuantified (here : Located Name) (binders : List (TypeVarNode Name))
    (body : KindJudgement) (args : List Kind) (result : Kind) :
    Check (TypeNode Attributes) :=
  withScope .quantifiedType do
    let binders ← (binders.zip args).mapM fun (var, kind) => bindTypeVar var kind
    let body ← body.check result
    substituteNode (.quantified (kinded here (.higher args result)) binders body)

/-- A quantified type has a higher kind only where one of its arity is expected. -/
def quantified (here : Located Name) (binders : List (TypeVarNode Name))
    (body : KindJudgement) : KindJudgement where
  infer := inferQuantified here binders body
  check expected := do
    let expected ← Solve.substituteKind expected
    let infer := inferQuantified here binders body
    match expected with
    | .higher args result =>
      if args.length = binders.length then checkQuantified here binders body args result
      else subsume here.range infer expected
    | _ => subsume here.range infer expected

/-- A function takes and gives proper types. -/
def function (here : Located Name) (args : List KindJudgement) (result : KindJudgement) :
    KindJudgement :=
  ofInference here.range do
    let args ← args.mapM fun arg => arg.check .type
    let result ← result.check .type
    pure (.function (kinded here .type) args result)

/-- The kinds of the arguments and of the result when a head of the given kind is applied. -/
def applied (range : Range) (arity : Nat) (head : Kind) : Check (List Kind × Kind) := do
  let unknown : Check (List Kind × Kind) := do
    let args ← (List.replicate arity ()).mapM fun _ => (Solve.freshKind : Check Kind)
    let result ← Solve.freshKind
    let expected := Kind.higher args result
    match head with
    | .unsolved id =>
      if expected.occurs id then
        report range (KindError.mismatchedApplication expected head).message
      else
        let _ ← Solve.instantiateKind .sub id expected
    | _ => report range (KindError.mismatchedApplication expected head).message
    pure (args, result)
  match head with
  | .higher args result => if args.length = arity then pure (args, result) else unknown
  | _ => unknown

def apply (here : Located Name) (head : KindJudgement) (args : List KindJudgement) :
    KindJudgement :=
  ofInference here.range do
    let head ← head.infer
    let headKind ← Solve.substituteKind (← kindOf head.here)
    let (argKinds, result) ← applied here.range args.length headKind
    let args ← (args.zip argKinds).mapM fun (arg, kind) => arg.check kind
    pure (.apply (kinded here result) head args)

def reference (here : Located Name) (id : QualifiedId) : KindJudgement :=
  ofInference here.range do
    pure (.reference (kinded here (← kindOfName here.info)) id)

def var (node : TypeVarNode Name) : KindJudgement :=
  ofInference node.here.range do
    let kind ← kindOfName node.here.info
    pure (.var ⟨kinded node.here kind, node.quantifier, node.name⟩)

end KindJudgement

mutual
/-- The judgement of a written type from those of its parts. -/
def TypeNode.judge : TypeNode Name → KindJudgement
  | .quantified here binders body => .quantified here binders body.judge
  | .function here args result => .function here (judgeList args) result.judge
  | .apply here head args => .apply here head.judge (judgeList args)
  | .reference here id => .reference here id
  | .var node => .var node
def TypeNode.judgeList : List (TypeNode Name) → List KindJudgement
  | [] => []
  | node :: rest => node.judge :: judgeList rest
end

namespace Check

def inferTypeNode (node : TypeNode Name) : Check (TypeNode Attributes) := node.judge.infer

def checkTypeNode (node : TypeNode Name) (expected : Kind) : Check (TypeNode Attributes) :=
  node.judge.check expected

/-- Check that a written type is a proper one, and solve kinds that are left unsolved by
`*`. -/
def properTypeNode (node : TypeNode Name) : Check (TypeNode Attributes) := do
  defaultNode (← checkTypeNode node .type)

end Check

end PolyFront
