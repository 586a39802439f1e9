/-!
# Names

The names that declarations, binders and references carry once they are
resolved.  A name has a local text, which is what the author wrote, and a
canonical text, which for declarations tells the whole path.
-/

namespace PolyFront

/-- How a type variable is bound. -/
inductive Quantifier where
  | universal
  | existential
deriving DecidableEq, Repr, Inhabited, Ord

/-- A namespace: the segments of its package and its own name. -/
structure NamespaceName where
  package : List String
  name : String
deriving DecidableEq, Repr, Inhabited, Ord

/-- The segments, joined by slashes. -/
def NamespaceName.canonical (ns : NamespaceName) : String :=
  "/".intercalate (ns.package ++ [ns.name])

/-- A name declared at the top level of a namespace. -/
structure QualifiedName where
  ns : NamespaceName
  name : String
deriving DecidableEq, Repr, Inhabited, Ord

def QualifiedName.canonical (name : QualifiedName) : String :=
  name.ns.canonical ++ "." ++ name.name

/-- A constructor and the data type that declares it. -/
structure ConstructorName where
  data : QualifiedName
  name : QualifiedName
deriving DecidableEq, Repr, Inhabited, Ord

/-- The constructor `name` of a data type, in the namespace of the data type. -/
def ConstructorName.ofData (data : QualifiedName) (name : String) : ConstructorName :=
  ⟨data, ⟨data.ns, name⟩⟩

structure FieldName where
  constructor : ConstructorName
  name : String
deriving DecidableEq, Repr, Inhabited, Ord

/-- A name that can depend on other names of its namespace. -/
inductive DeclarationName where
  | binding (name : QualifiedName)
  | data (name : QualifiedName)
  | constructor (name : ConstructorName)
deriving DecidableEq, Repr, Inhabited, Ord

def DeclarationName.qualified : DeclarationName → QualifiedName
  | .binding name => name
  | .data name => name
  | .constructor name => name.name

/-- What a node of a resolved tree declares or refers to. -/
inductive Name where
  | nameless
  | builtIn (name : String)
  | ns (name : NamespaceName)
  | binding (name : QualifiedName)
  | data (name : QualifiedName)
  | constructor (name : ConstructorName)
  | field (name : FieldName)
  /-- A binder inside a declaration. The index tells apart binders of one text. -/
  | bound (name : String) (index : Nat)
  | synthetic (index : Nat)
  | typeVar (quantifier : Quantifier) (name : String)
deriving DecidableEq, Repr, Inhabited, Ord

namespace Name

/-- What the author wrote. -/
def localText : Name → String
  | .nameless => ""
  | .builtIn name => name
  | .ns name => name.name
  | .binding name => name.name
  | .data name => name.name
  | .constructor name => name.name.name
  | .field name => name.name
  | .bound name _ => name
  | .synthetic index => "$" ++ toString index
  | .typeVar _ name => name

/-- The whole path of a declaration, and the local text of anything else. -/
def canonical : Name → String
  | .ns name => name.canonical
  | .binding name => name.canonical
  | .data name => name.canonical
  | .constructor name => name.name.canonical
  | name => name.localText

def declaration? : Name → Option DeclarationName
  | .binding name => some (.binding name)
  | .data name => some (.data name)
  | .constructor name => some (.constructor name)
  | _ => none

def isNameless : Name → Bool
  | .nameless => true
  | _ => false

/-- Names in ascending order. -/
def sort (names : List Name) : List Name :=
  names.mergeSort fun a b => (compare a b).isLE

end Name

/-- A declaration's name as a name. -/
def DeclarationName.toName : DeclarationName → Name
  | .binding name => .binding name
  | .data name => .data name
  | .constructor name => .constructor name

@[simp]
theorem DeclarationName.declaration?_toName (name : DeclarationName) :
    name.toName.declaration? = some name := by
  cases name <;> rfl

end PolyFront
