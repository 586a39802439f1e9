import PolyFront.Naming.Graph
import PolyFront.Scope.Stack
import PolyFront.Source.Log

/-!
# The state of name resolution

Resolving names works on a stack of frames.  It numbers the local names of each
declaration, records which declarations refer to which, and reports names that are
undefined or defined twice.
-/

namespace PolyFront

structure Resolver where
  /-- The source that diagnostics are about. -/
  uri : String
  log : Log
  stack : Stack (Located Name)
  graph : DeclarationGraph
  /-- The top-level bindings of the namespace that was resolved last. -/
  topLevel : Option (Frame (Located Name))
  /-- The index of the next local name. -/
  nextLocal : Nat
deriving Inhabited

abbrev Resolve (α : Type) : Type := Run Resolver α

namespace Resolver

/-- The ground built-in types. -/
def builtIns : Frame (Located Name) :=
  BuiltIn.ground.foldl
    (fun frame type => frame.populateType type.name (.nowhere (.builtIn type.name)))
    (Frame.empty .builtIn)

/-- Nothing resolved yet, over the given frames. -/
def start (uri : String) (stack : Stack (Located Name)) : Resolver where
  uri := uri
  log := Log.empty
  stack := stack
  graph := DeclarationGraph.empty
  topLevel := none
  nextLocal := 0

end Resolver

namespace Resolve

/-- Report an error about a range of the source. -/
def reportError (range : Range) (message : String) (related : List Note) : Resolve Unit :=
  modify fun s => { s with log := s.log.reportError s.uri range message related }

/-- Report a second definition, with a note at the first. -/
def reportDuplicate (what : String) (proposed existing : Range) : Resolve Unit := do
  let note := ⟨⟨(← get).uri, existing⟩, "Original definition of " ++ what⟩
  reportError proposed ("Duplicate definition of " ++ what) [note]

def reportUndefined (what : String) (range : Range) (name : String) : Resolve Unit :=
  reportError range ("Reference to " ++ what ++ " '" ++ name ++ "'") []

/-- Bind a value in a frame, unless its name is taken there. -/
def defineValue (frame : Frame (Located Name)) (name : String) (here : Located Name) :
    Resolve (Frame (Located Name)) := do
  match frame.value? name with
  | some existing =>
    reportDuplicate ("value '" ++ name ++ "'") here.range existing.range
    pure frame
  | none => pure (frame.putValue name here)

/-- Bind a type in a frame, unless its name is taken there. -/
def defineType (frame : Frame (Located Name)) (name : String) (here : Located Name) :
    Resolve (Frame (Located Name)) := do
  match frame.type? name with
  | some existing =>
    reportDuplicate ("type '" ++ name ++ "'") here.range existing.range
    pure frame
  | none => pure (frame.putType name here)

/-- Bind a field of a constructor in a frame, unless its name is taken there. -/
def defineField (frame : Frame (Located Name)) (constructor : ConstructorName)
    (name : String) (here : Located Name) : Resolve (Frame (Located Name)) := do
  match frame.field? constructor name with
  | some existing =>
    reportDuplicate
      ("field '" ++ name ++ "' in constructor '" ++ constructor.name.canonical ++ "'")
      here.range existing.range
    pure frame
  | none => pure (frame.putField constructor name here)

/-- Resolve something with a frame on top of the stack. -/
def withFrame {α : Type} (frame : Frame (Located Name)) (body : Resolve α) : Resolve α := do
  modify fun s => { s with stack := s.stack.push frame }
  let result ← body
  let _ ← Run.within Resolver.stack (fun stack s => { s with stack := stack })
    (Stack.pop frame.tag)
  pure result

/-- Resolve something inside a construct that binds nothing yet. -/
def withScope {α : Type} (kind : ScopeKind) (body : Resolve α) : Resolve α :=
  withFrame (Frame.empty kind) body

/-- The namespace whose declarations are being resolved. -/
def currentNamespace : Resolve NamespaceName := do
  match (← get).stack.enclosingNamespace? with
  | some ns => pure ns
  | none => throw .noNamespace

def addEdge (source target : DeclarationName) : Resolve Unit :=
  modify fun s => { s with graph := s.graph.addEdge source target }

/-- Let the declaration being resolved depend on the declaration that is named, if that one
belongs to the same namespace. -/
def recordReference (name : Name) : Resolve Unit := do
  match name.declaration? with
  | none => pure ()
  | some referenced =>
    let stack := (← get).stack
    if stack.enclosingNamespace? = some referenced.qualified.ns then
      match stack.enclosingDeclaration? with
      | some enclosing => addEdge referenced enclosing
      | none => pure ()

/-- Bind a fresh local name in the nearest frame of a construct. -/
def bindLocal (target : ScopeTag) (name : String) (range : Range) : Resolve (Located Name) := do
  let s ← get
  let here : Located Name := ⟨range, .bound name s.nextLocal⟩
  set { s with nextLocal := s.nextLocal + 1 }
  match s.stack.enclosing? target with
  | some frame =>
    let frame ← defineValue frame name here
    modify fun s => { s with stack := s.stack.updateEnclosing target fun _ => frame }
    pure here
  | none => throw (.noBinder target name)

/-- The name a value reference has, reported when there is none. -/
def resolveValue (range : Range) (id : QualifiedId) : Resolve (Located Name) := do
  match (← get).stack.value? id.canonical with
  | some found =>
    recordReference found.info
    pure (found.withRange range)
  | none =>
    reportUndefined "undefined value" range id.canonical
    pure ⟨range, .nameless⟩

/-- The name a type reference has, reported when there is none. -/
def resolveType (range : Range) (id : QualifiedId) : Resolve (Located Name) := do
  match (← get).stack.type? id.canonical with
  | some found =>
    recordReference found.info
    pure (found.withRange range)
  | none =>
    reportUndefined "undefined type" range id.canonical
    pure ⟨range, .nameless⟩

end Resolve

end PolyFront
