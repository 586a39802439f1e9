import PolyFront.Fault

/-!
# Stacks of frames

Look-ups search from the innermost frame outwards and then the built-in frame, which
is never changed.  Bindings only touch the innermost frame.
-/

namespace PolyFront

/-- Frames, innermost first, over the bindings that are always there. -/
structure Stack (α : Type) where
  frames : List (Frame α)
  builtIns : Option (Frame α)
deriving Repr, Inhabited

namespace Stack

variable {α β : Type}

def empty : Stack α := ⟨[], none⟩

def ofBuiltIns (frame : Frame α) : Stack α := ⟨[], some frame⟩

def depth (stack : Stack α) : Nat := stack.frames.length

/-- The frames, outermost first. -/
def outermostFirst (stack : Stack α) : List (Frame α) := stack.frames.reverse

def top? (stack : Stack α) : Option (Frame α) := stack.frames.head?

/-- The nearest answer of a frame. -/
def lookup (stack : Stack α) (get : Frame α → Option β) : Option β :=
  (stack.frames.findSome? get).or (stack.builtIns.bind get)

def value? (stack : Stack α) (key : String) : Option α := stack.lookup fun frame => frame.value? key

def type? (stack : Stack α) (key : String) : Option α := stack.lookup fun frame => frame.type? key

def field? (stack : Stack α) (constructor : ConstructorName) (key : String) : Option α :=
  stack.lookup fun frame => frame.field? constructor key

def push (stack : Stack α) (frame : Frame α) : Stack α :=
  { stack with frames := frame :: stack.frames }

/-- The nearest frame of a construct. -/
def enclosing? (stack : Stack α) (tag : ScopeTag) : Option (Frame α) :=
  stack.frames.find? fun frame => frame.tag == tag

/-- The namespace of the nearest namespace frame. -/
def enclosingNamespace? (stack : Stack α) : Option NamespaceName :=
  (stack.enclosing? .ns).bind fun frame =>
    match frame.kind with
    | .ns name => some name
    | _ => none

def enclosingData? (stack : Stack α) : Option QualifiedName :=
  (stack.enclosing? .data).bind fun frame =>
    match frame.kind with
    | .data name => some name
    | _ => none

def enclosingConstructor? (stack : Stack α) : Option ConstructorName :=
  (stack.enclosing? .constructor).bind fun frame =>
    match frame.kind with
    | .constructor name => some name
    | _ => none

def enclosingBinding? (stack : Stack α) : Option QualifiedName :=
  (stack.enclosing? .binding).bind fun frame =>
    match frame.kind with
    | .binding name => some name
    | _ => none

/-- The top-level declaration that is being visited. -/
def enclosingDeclaration? (stack : Stack α) : Option DeclarationName :=
  stack.frames.findSome? fun frame => frame.kind.declaration?

/-- The constructor of the nearest constructor pattern, unknown or not. -/
def enclosingConstructorPattern? (stack : Stack α) : Option (Option ConstructorName) :=
  (stack.enclosing? .constructorPattern).bind fun frame =>
    match frame.kind with
    | .constructorPattern name => some name
    | _ => none

/-- Change the first frame that satisfies a test. -/
def updateFirst (test : Frame α → Bool) (f : Frame α → Frame α) : List (Frame α) → List (Frame α)
  | [] => []
  | frame :: rest => if test frame then f frame :: rest else frame :: updateFirst test f rest

/-- Change the nearest frame of a construct. -/
def updateEnclosing (stack : Stack α) (tag : ScopeTag) (f : Frame α → Frame α) : Stack α :=
  { stack with frames := updateFirst (fun frame => frame.tag == tag) f stack.frames }

/-- Change every frame. -/
def mapFrames (stack : Stack α) (f : Frame α → Frame α) : Stack α :=
  { stack with frames := stack.frames.map f }

/-- The innermost frame. -/
def top : Run (Stack α) (Frame α) := do
  match (← get).frames with
  | frame :: _ => pure frame
  | [] => throw .noScope

/-- Change the innermost frame. -/
def updateTop (f : Frame α → Frame α) : Run (Stack α) Unit := do
  let stack ← get
  match stack.frames with
  | frame :: rest => set { stack with frames := f frame :: rest }
  | [] => throw .noScope

/-- Remove the innermost frame, which has to be of the expected construct. -/
def pop (expected : ScopeTag) : Run (Stack α) (Frame α) := do
  let stack ← get
  match stack.frames with
  | frame :: rest =>
    set { stack with frames := rest }
    if frame.tag = expected then pure frame
    else throw (.mismatchedScope frame.tag expected)
  | [] => throw (.emptyStack expected)

end Stack

end PolyFront
