import PolyFront.Literal
import PolyFront.Operator
import PolyFront.Ty.Basic

/-!
# Lowered code

The code that the optimiser works on.  Every operand is a value: compound expressions
stand only as the body of a binding, of a branch or of a function.
-/

namespace PolyFront.Lowered

structure Param where
  name : Name
  type : Ty
deriving Repr

mutual
/-- What a case matches. -/
inductive Pattern where
  | id (name : Name)
  | alias (name : Name) (pattern : Pattern)
  | literal (value : Literal)
  | constructor (name : ConstructorName) (fields : List FieldPattern)
structure FieldPattern where
  name : FieldName
  pattern : Pattern
end

mutual
inductive Value where
  | literal (value : Literal)
  | reference (name : Name) (type : Ty)
  | lambda (params : List Param) (body : Expr)
  | box (value : Value)
  | unbox (value : Value)
inductive Expr where
  | value (value : Value)
  | apply (type : Ty) (function : Value) (args : List Value)
  | unary (op : UnaryOp) (operand : Value)
  | binary (left : Value) (op : BinaryOp) (right : Value)
  | conditional (condition : Value) (consequent alternative : Expr)
  | cases (scrutinee : Value) (cases : List Case)
  | block (bindings : List Binding) (result : Expr)
structure Case where
  pattern : Pattern
  body : Expr
inductive Binding where
  | assign (name : Name) (type : Ty) (body : Expr)
  /-- A local function that is only ever called by its name. -/
  | join (name : Name) (type : Ty) (params : List Param) (body : Expr)
end

instance : Inhabited Pattern := ⟨.literal default⟩

instance : Inhabited Value := ⟨.literal default⟩

instance : Inhabited Expr := ⟨.value default⟩

structure Field where
  name : FieldName
  type : Ty
deriving Repr

structure Constructor where
  name : ConstructorName
  fields : List Field
deriving Repr

structure Data where
  name : QualifiedName
  constructors : List Constructor
deriving Repr

/-- A value or a function at the top level. -/
structure Definition where
  name : QualifiedName
  type : Ty
  body : Expr

inductive Declaration where
  | data (declaration : Data)
  | definition (declaration : Definition)

structure Namespace where
  name : NamespaceName
  declarations : List Declaration

/-- The parameters of a function, and none of any other expression. -/
def Expr.params? : Expr → Option (List Param)
  | .value (.lambda params _) => some params
  | _ => none

/-- What is computed once the parameters, if any, are given. -/
def Expr.inner : Expr → Expr
  | .value (.lambda _ body) => body
  | body => body

end PolyFront.Lowered
