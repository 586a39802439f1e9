import PolyFront.Collection.Table
import PolyFront.Name.Basic

/-!
# Binding frames

One frame holds what a single construct binds: values, types and constructor fields
independently of each other, and the unsolved variables that were created while the
frame was innermost.
-/

namespace PolyFront

/-- The construct that introduced a frame. -/
inductive ScopeKind where
  | builtIn
  | ns (name : NamespaceName)
  | data (name : QualifiedName)
  | constructor (name : ConstructorName)
  | binding (name : QualifiedName)
  | lambda
  | block
  | case
  /-- Without a name when the pattern refers to no known constructor. -/
  | constructorPattern (name : Option ConstructorName)
  | quantifiedType
  | instantiateKind
  | checkSubKind
  | instantiateType
  | checkSubType
deriving DecidableEq, Repr, Inhabited

/-- The construct of a frame without the names it carries. -/
inductive ScopeTag where
  | builtIn
  | ns
  | data
  | constructor
  | binding
  | lambda
  | block
  | case
  | constructorPattern
  | quantifiedType
  | instantiateKind
  | checkSubKind
  | instantiateType
  | checkSubType
deriving DecidableEq, Repr, Inhabited

/-- The word for a construct in messages. -/
def ScopeTag.label : ScopeTag → String
  | .builtIn => "BuiltIn"
  | .ns => "Namespace"
  | .data => "Data"
  | .constructor => "Constructor"
  | .binding => "Let"
  | .lambda => "Lambda"
  | .block => "Block"
  | .case => "Case"
  | .constructorPattern => "ConstructorPattern"
  | .quantifiedType => "QuantifiedType"
  | .instantiateKind => "InstantiateKind"
  | .checkSubKind => "CheckSubKind"
  | .instantiateType => "InstantiateType"
  | .checkSubType => "CheckSubType"

namespace ScopeKind

def tag : ScopeKind → ScopeTag
  | .builtIn => .builtIn
  | .ns _ => .ns
  | .data _ => .data
  | .constructor _ => .constructor
  | .binding _ => .binding
  | .lambda => .lambda
  | .block => .block
  | .case => .case
  | .constructorPattern _ => .constructorPattern
  | .quantifiedType => .quantifiedType
  | .instantiateKind => .instantiateKind
  | .checkSubKind => .checkSubKind
  | .instantiateType => .instantiateType
  | .checkSubType => .checkSubType

/-- The declaration that a frame belongs to, when it is the frame of one. -/
def declaration? : ScopeKind → Option DeclarationName
  | .data name => some (.data name)
  | .constructor name => some (.constructor name)
  | .binding name => some (.binding name)
  | _ => none

end ScopeKind

/-- What one construct binds. -/
structure Frame (α : Type) where
  kind : ScopeKind
  values : Table String α
  types : Table String α
  fields : Table ConstructorName (Table String α)
  unsolvedKinds : List Nat
  unsolvedTypes : List Nat
deriving Repr, Inhabited

namespace Frame

variable {α : Type}

def empty (kind : ScopeKind) : Frame α :=
  ⟨kind, Table.empty, Table.empty, Table.empty, [], []⟩

def tag (frame : Frame α) : ScopeTag := frame.kind.tag

def value? (frame : Frame α) (key : String) : Option α := frame.values.get? key

def type? (frame : Frame α) (key : String) : Option α := frame.types.get? key

/-- The fields of one constructor. -/
def fieldsOf (frame : Frame α) (constructor : ConstructorName) : Table String α :=
  (frame.fields.get? constructor).getD Table.empty

def field? (frame : Frame α) (constructor : ConstructorName) (key : String) : Option α :=
  (frame.fieldsOf constructor).get? key

/-- Bind a value, over any binding the key had. -/
def putValue (frame : Frame α) (key : String) (item : α) : Frame α :=
  { frame with values := frame.values.insert key item }

/-- Bind a type, over any binding the key had. -/
def putType (frame : Frame α) (key : String) (item : α) : Frame α :=
  { frame with types := frame.types.insert key item }

/-- Bind a field, over any binding the key had. -/
def putField (frame : Frame α) (constructor : ConstructorName) (key : String) (item : α) :
    Frame α :=
  { frame with
    fields := frame.fields.insert constructor ((frame.fieldsOf constructor).insert key item) }

/-- Bind a value unless the key is bound. -/
def populateValue (frame : Frame α) (key : String) (item : α) : Frame α :=
  if (frame.value? key).isSome then frame else frame.putValue key item

/-- Bind a type unless the key is bound. -/
def populateType (frame : Frame α) (key : String) (item : α) : Frame α :=
  if (frame.type? key).isSome then frame else frame.putType key item

/-- Bind a field unless the key is bound. -/
def populateField (frame : Frame α) (constructor : ConstructorName) (key : String)
    (item : α) : Frame α :=
  if (frame.field? constructor key).isSome then frame else frame.putField constructor key item

/-- Register unsolved kinds that are not registered yet. -/
def addKinds (frame : Frame α) (ids : List Nat) : Frame α :=
  { frame with unsolvedKinds := ids.foldl (fun known id => known.insert id) frame.unsolvedKinds }

/-- Register unsolved types that are not registered yet. -/
def addTypes (frame : Frame α) (ids : List Nat) : Frame α :=
  { frame with unsolvedTypes := ids.foldl (fun known id => known.insert id) frame.unsolvedTypes }

/-- Change every binding. -/
def mapBindings (value type field : α → α) (frame : Frame α) : Frame α :=
  { frame with
    values := frame.values.map value
    types := frame.types.map type
    fields := frame.fields.map (Table.map field) }

end Frame

end PolyFront
