import PolyFront.Checking.Substitution
import PolyFront.Scope.Stack
import PolyFront.Source.Range

/-!
# The store of solutions

A stack of typed bindings together with the solutions found so far.  Every unsolved
variable is registered in the frame that was innermost when it was created; when the
frame is popped, its variables are handed on or forgotten.
-/

namespace PolyFront

/-- The representative of two merged kinds: a solved one, the left one of two, or of two
variables the one registered further out and then the one with the lower id. A variable
that no frame registers counts as innermost. The frames are given outermost first. -/
def pickKind {α : Type} (frames : List (Frame α)) (left right : Kind) : Kind :=
  match left, right with
  | .unsolved a, .unsolved b =>
    let depth (id : Nat) := frames.findIdx fun frame => frame.unsolvedKinds.contains id
    if depth a < depth b || (depth a == depth b && a ≤ b) then left else right
  | .unsolved _, _ => right
  | _, _ => left

/-- The representative of two merged types, chosen like that of two kinds. -/
def pickType {α : Type} (frames : List (Frame α)) (left right : Ty) : Ty :=
  match left, right with
  | .unsolved a _, .unsolved b _ =>
    let depth (id : Nat) := frames.findIdx fun frame => frame.unsolvedTypes.contains id
    if depth a < depth b || (depth a == depth b && a ≤ b) then left else right
  | .unsolved _ _, _ => right
  | _, _ => left

/-- Frames that forget their variables when they are popped. -/
def ScopeTag.dropsVariables : ScopeTag → Bool
  | .quantifiedType => true
  | .instantiateKind => true
  | .checkSubKind => true
  | .instantiateType => true
  | .checkSubType => true
  | .data => true
  | .constructor => true
  | _ => false

structure Store where
  stack : Stack (Located Attributes)
  kinds : Partition Kind
  types : Partition Ty
  /-- The id of the next unsolved kind. -/
  nextKind : Nat
  /-- The id of the next unsolved type. -/
  nextType : Nat

abbrev Solve (α : Type) : Type := Run Store α

namespace Store

/-- The kinds of the ground built-in types. -/
def builtIns : Frame (Located Attributes) :=
  BuiltIn.ground.foldl
    (fun frame type =>
      frame.putType type.name (.nowhere ⟨.builtIn type.name, .ofKind type.kind⟩))
    (Frame.empty .builtIn)

/-- No frames and no solutions. -/
def start : Store := ⟨Stack.ofBuiltIns builtIns, Partition.empty, Partition.empty, 0, 0⟩

def pickKind (store : Store) : Kind → Kind → Kind :=
  PolyFront.pickKind store.stack.outermostFirst

def pickType (store : Store) : Ty → Ty → Ty :=
  PolyFront.pickType store.stack.outermostFirst

def substituteKind (store : Store) (kind : Kind) : Kind := kind.substitute store.kinds

def substituteType (store : Store) (type : Ty) : Ty := type.substitute store.types store.kinds

def substitute (store : Store) (classifier : Classifier) : Classifier :=
  classifier.substitute store.types store.kinds

/-- Substitute the solutions into each other, all of them from the solutions there were before.
Rewriting one after another comes to the same while solutions are acyclic, since what is fully
substituted has nothing left to expand; a solution that mentions its own variable would then be
expanded once more by each solution that is rewritten later. -/
def closeSolutions (store : Store) : Store :=
  let kinds := store.kinds.mapRepresentatives fun _ solution => solution.substitute store.kinds
  let types := store.types.mapRepresentatives fun _ solution =>
    solution.substitute store.types kinds
  { store with kinds := kinds, types := types }

/-- Unify a variable with a kind that does not mention it. -/
def solveKind (store : Store) (id : Nat) (kind : Kind) : Store :=
  closeSolutions { store with kinds := store.kinds.union (.unsolved id) kind store.pickKind }

/-- Unify a variable with a type that does not mention it. -/
def solveType (store : Store) (id : Nat) (kind : Kind) (type : Ty) : Store :=
  closeSolutions
    { store with types := store.types.union (.unsolved id kind) type store.pickType }

/-- Solve the kind that a type binding was given, if it is a variable still. -/
def solveKindOf (store : Store) (key : String) (kind : Kind) : Store :=
  match (store.stack.type? key).bind fun here => here.info.classifier.kind? with
  | none => store
  | some bound =>
    match store.kinds.find bound with
    | .unsolved id => store.solveKind id kind
    | _ => store

/-- Solve the type that a value binding was given, and the kind of that type, if they are
variables still. -/
def solveTypeOf (store : Store) (key : String) (type : Ty) : Store :=
  match (store.stack.value? key).bind fun here => here.info.classifier.type? with
  | none => store
  | some bound =>
    match store.types.find bound with
    | .unsolved id kind =>
      match store.kinds.find kind with
      | .unsolved kindId => (store.solveKind kindId type.kind).solveType id kind type
      | _ => store.solveType id kind type
    | _ => store

/-- Hand the variables of a frame on to the frame that is now innermost. -/
def handOn (store : Store) (frame : Frame (Located Attributes)) : Store :=
  match store.stack.frames with
  | [] => store
  | enclosing :: rest =>
    let enclosing := (enclosing.addKinds frame.unsolvedKinds).addTypes frame.unsolvedTypes
    { store with stack := { store.stack with frames := enclosing :: rest } }

/-- Forget the variables of a frame. -/
def forget (store : Store) (frame : Frame (Located Attributes)) : Store :=
  { store with
    kinds := frame.unsolvedKinds.foldl
      (fun kinds id => kinds.remove (.unsolved id) store.pickKind) store.kinds
    types := frame.unsolvedTypes.foldl
      (fun types id => types.remove (.unsolved id .type) store.pickType) store.types }

end Store

namespace Solve

/-- Work on the stack of frames. -/
def onStack {α : Type} (run : Run (Stack (Located Attributes)) α) : Solve α :=
  Run.within Store.stack (fun stack store => { store with stack := stack }) run

def pushScope (kind : ScopeKind) : Solve Unit :=
  modify fun store => { store with stack := store.stack.push (Frame.empty kind) }

/-- Pop the innermost frame. A frame that forgets its variables has all solutions closed
first, so that those which mention its variables keep their meaning. -/
def popScope (expected : ScopeTag) : Solve (Frame (Located Attributes)) := do
  if expected.dropsVariables then
    modify Store.closeSolutions
    let frame ← onStack (Stack.pop expected)
    modify fun store => store.forget frame
    pure frame
  else
    let frame ← onStack (Stack.pop expected)
    modify fun store => store.handOn frame
    pure frame

/-- Work with a fresh frame on top of the stack. -/
def withScope {α : Type} (kind : ScopeKind) (body : Solve α) : Solve α := do
  pushScope kind
  let result ← body
  let _ ← popScope kind.tag
  pure result

def putValue (key : String) (item : Located Attributes) : Solve Unit :=
  onStack (Stack.updateTop fun frame => frame.putValue key item)

def putType (key : String) (item : Located Attributes) : Solve Unit :=
  onStack (Stack.updateTop fun frame => frame.putType key item)

/-- Bind a type in the innermost frame unless it is bound there. -/
def populateType (key : String) (item : Located Attributes) : Solve Unit :=
  onStack (Stack.updateTop fun frame => frame.populateType key item)

def putField (constructor : ConstructorName) (key : String) (item : Located Attributes) :
    Solve Unit :=
  onStack (Stack.updateTop fun frame => frame.putField constructor key item)

/-- Register an unsolved kind in the innermost frame. -/
def putUnsolvedKind (id : Nat) : Solve Unit := do
  modify fun store => { store with kinds := store.kinds.add (.unsolved id) }
  onStack (Stack.updateTop fun frame => frame.addKinds [id])

/-- Register an unsolved type in the innermost frame. -/
def putUnsolvedType (id : Nat) (kind : Kind) : Solve Unit := do
  modify fun store => { store with types := store.types.add (.unsolved id kind) }
  onStack (Stack.updateTop fun frame => frame.addTypes [id])

/-- A fresh kind variable. -/
def freshKind : Solve Kind := do
  let id := (← get).nextKind
  modify fun store => { store with nextKind := id + 1 }
  putUnsolvedKind id
  pure (.unsolved id)

/-- A fresh type variable of the given kind, as its id and kind. -/
def freshVariable (kind : Kind) : Solve (Nat × Kind) := do
  let id := (← get).nextType
  modify fun store => { store with nextType := id + 1 }
  putUnsolvedType id kind
  pure (id, kind)

/-- A fresh type of the given kind. -/
def freshType (kind : Kind) : Solve Ty := do
  let (id, kind) ← freshVariable kind
  pure (.unsolved id kind)

def substituteKind (kind : Kind) : Solve Kind := do pure ((← get).substituteKind kind)

def substituteType (type : Ty) : Solve Ty := do pure ((← get).substituteType type)

/-- Substitute what a node carries. -/
def substitute (attributes : Attributes) : Solve Attributes := do
  pure { attributes with classifier := (← get).substitute attributes.classifier }

/-- Substitute a kind and solve what is left unsolved by `*`. -/
def defaultKind (kind : Kind) : Solve Kind := do
  let (kind, kinds) := kind.default (← get).kinds
  modify fun store => { store with kinds := kinds }
  pure kind

/-- Substitute a classifier and solve the kinds left unsolved in it by `*`. -/
def defaultClassifier (classifier : Classifier) : Solve Classifier := do
  let store ← get
  let (classifier, kinds) := classifier.default store.types store.kinds
  set { store with kinds := kinds }
  pure classifier

/-- Default what a node carries. -/
def default (attributes : Attributes) : Solve Attributes := do
  pure { attributes with classifier := ← defaultClassifier attributes.classifier }

def solveKind (id : Nat) (kind : Kind) : Solve Unit :=
  modify fun store => store.solveKind id kind

def solveType (id : Nat) (kind : Kind) (type : Ty) : Solve Unit :=
  modify fun store => store.solveType id kind type

end Solve

end PolyFront
