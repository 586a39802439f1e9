import PolyFront.Literal
import PolyFront.Name.Basic
import PolyFront.Operator
import PolyFront.Source.Range

/-!
# Trees of a namespace

The tree of a namespace, where every node carries its range and an annotation: nothing
when it was just read, a name once it is resolved, a name and a classifier once it is
checked.
-/

namespace PolyFront

/-- The name of a namespace where it is written. -/
structure NamespaceId where
  range : Range
  name : NamespaceName
deriving DecidableEq, Repr, Inhabited

/-- A reference that may spell out the namespace of what it refers to. -/
structure QualifiedId where
  range : Range
  ns : Option NamespaceId
  name : String
deriving DecidableEq, Repr, Inhabited

/-- The text a reference is looked up by. -/
def QualifiedId.canonical (id : QualifiedId) : String :=
  match id.ns with
  | none => id.name
  | some ns => ns.name.canonical ++ "." ++ id.name

/-- A name taken from another namespace, under another name if it has an alias. -/
structure ImportedSymbol where
  range : Range
  name : String
  alias? : Option String
deriving DecidableEq, Repr, Inhabited

structure Import where
  range : Range
  ns : NamespaceId
  symbols : List ImportedSymbol
deriving DecidableEq, Repr, Inhabited

structure TypeVarNode (α : Type) where
  here : Located α
  quantifier : Quantifier
  name : String
deriving Repr, Inhabited

/-- The name a variable is bound to where it is introduced. -/
def TypeVarNode.binderName {α : Type} (var : TypeVarNode α) : Name :=
  .typeVar var.quantifier var.name

/-- A type as it is written. -/
inductive TypeNode (α : Type) where
  | quantified (here : Located α) (binders : List (TypeVarNode α)) (body : TypeNode α)
  | function (here : Located α) (args : List (TypeNode α)) (result : TypeNode α)
  | apply (here : Located α) (head : TypeNode α) (args : List (TypeNode α))
  | reference (here : Located α) (id : QualifiedId)
  | var (node : TypeVarNode α)
deriving Repr, Inhabited

def TypeNode.here {α : Type} : TypeNode α → Located α
  | .quantified here _ _ => here
  | .function here _ _ => here
  | .apply here _ _ => here
  | .reference here _ => here
  | .var node => node.here

structure Param (α : Type) where
  here : Located α
  name : String
  ascription : Option (TypeNode α)
deriving Repr

structure Reference (α : Type) where
  here : Located α
  id : QualifiedId
deriving Repr

mutual
/-- What a case matches. -/
inductive Pattern (α : Type) where
  | alias (here : Located α) (name : String) (pattern : Pattern α)
  | constructor (here : Located α) (id : QualifiedId) (fields : List (FieldPattern α))
  | id (here : Located α) (name : String)
  | literal (here : Located α) (value : Literal)
/-- Without a pattern of its own, the field's value is bound to the field's name. -/
structure FieldPattern (α : Type) where
  here : Located α
  field : String
  pattern : Option (Pattern α)
end

instance {α : Type} [Inhabited α] : Inhabited (Pattern α) := ⟨.id default ""⟩

mutual
inductive Expr (α : Type) where
  | block (here : Located α) (bindings : List (Binding α)) (result : Option (Expr α))
  | conditional (here : Located α) (condition consequent alternative : Expr α)
  | lambda (here : Located α) (params : List (Param α)) (body : Expr α)
  | cases (here : Located α) (scrutinee : Expr α) (cases : List (Case α))
  | apply (here : Located α) (function : Expr α) (args : List (Expr α))
  | select (here : Located α) (receiver : Expr α) (selection : Reference α)
  | reference (node : Reference α)
  | binary (here : Located α) (op : BinaryOp) (left right : Expr α)
  | unary (here : Located α) (op : UnaryOp) (operand : Expr α)
  | literal (here : Located α) (value : Literal)
/-- A name for the value of an expression, at the top level or inside a block. -/
structure Binding (α : Type) where
  here : Located α
  name : String
  ascription : Option (TypeNode α)
  value : Expr α
structure Case (α : Type) where
  here : Located α
  pattern : Pattern α
  body : Expr α
end

instance {α : Type} [Inhabited α] : Inhabited (Expr α) := ⟨.literal default default⟩

def Expr.here {α : Type} : Expr α → Located α
  | .block here _ _ => here
  | .conditional here _ _ _ => here
  | .lambda here _ _ => here
  | .cases here _ _ => here
  | .apply here _ _ => here
  | .select here _ _ => here
  | .reference node => node.here
  | .binary here _ _ _ => here
  | .unary here _ _ => here
  | .literal here _ => here

structure ConstructorParam (α : Type) where
  here : Located α
  name : String
  ascription : TypeNode α
deriving Repr

structure Constructor (α : Type) where
  here : Located α
  name : String
  params : List (ConstructorParam α)
  /-- For constructors that refine the parameters of their data type. -/
  result : Option (TypeNode α)
deriving Repr

structure Data (α : Type) where
  here : Located α
  name : String
  typeParams : List (TypeVarNode α)
  constructors : List (Constructor α)
deriving Repr

/-- A named function at the top level. -/
structure FunctionBinding (α : Type) where
  here : Located α
  name : String
  typeParams : List (TypeVarNode α)
  params : List (Param α)
  result : Option (TypeNode α)
  body : Expr α

inductive Declaration (α : Type) where
  | data (declaration : Data α)
  | binding (declaration : Binding α)
  | function (declaration : FunctionBinding α)

namespace Declaration

variable {α : Type}

def here : Declaration α → Located α
  | .data d => d.here
  | .binding d => d.here
  | .function d => d.here

def name : Declaration α → String
  | .data d => d.name
  | .binding d => d.name
  | .function d => d.name

end Declaration

/-- Each group of declarations depends only on itself and on the groups before it, once
the namespace is resolved. -/
structure Namespace (α : Type) where
  here : Located α
  id : NamespaceId
  imports : List Import
  groups : List (List (Declaration α))

/-- The declarations of all groups. -/
def Namespace.declarations {α : Type} (ns : Namespace α) : List (Declaration α) :=
  ns.groups.flatten

/-- The constructors that a declaration brings into a namespace. -/
def Declaration.constructorNames {α : Type} (ns : NamespaceName) :
    Declaration α → List ConstructorName
  | .data d => d.constructors.map fun c => ConstructorName.ofData ⟨ns, d.name⟩ c.name
  | _ => []

/-- The constructors of a namespace in the order of their declaration, each one once. -/
def Namespace.constructorNames {α : Type} (ns : Namespace α) : List ConstructorName :=
  (ns.declarations.flatMap (Declaration.constructorNames ns.id.name)).eraseDups

end PolyFront
