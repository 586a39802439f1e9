import PolyFront.Checking.Ascription

/-!
# Kinds of data declarations

The kind of a data type is inferred from how its parameters are used in the fields of
its constructors; parameters that nothing constrains have kind `*`.
-/

namespace PolyFront

namespace Check

/-- The written types of one constructor, with their kinds. -/
structure CheckedConstructor where
  name : ConstructorName
  fields : List (TypeNode Attributes)
  result : Option (TypeNode Attributes)

/-- Check a written type inside a declaration whose kinds are not final yet. -/
def fieldTypeNode (node : TypeNode Name) : Check (TypeNode Attributes) := do
  substituteNode (← checkTypeNode node .type)

def checkConstructor (node : Constructor Name) : Check CheckedConstructor := do
  match node.here.info with
  | .constructor name =>
    withScope (.constructor name) do
      let fields ← node.params.mapM fun param => fieldTypeNode param.ascription
      let result ← traverseOption fieldTypeNode node.result
      pure ⟨name, fields, result⟩
  | _ => throw .notConstructor

/-- Solve the kinds that are left unsolved by `*`. -/
def defaultConstructor (checked : CheckedConstructor) : Check CheckedConstructor := do
  let fields ← checked.fields.mapM defaultNode
  pure ⟨checked.name, fields, ← traverseOption defaultNode checked.result⟩

/-- Bind a data type under its local and its canonical name. -/
def bindData (text : String) (name : QualifiedName) (here : Located Attributes) :
    Check Unit := do
  Solve.putType text here
  Solve.putType name.canonical here

/-- The kind of a data type with the given parameters. -/
def dataKind (params : List Kind) : Kind := if params = [] then .type else .higher params .type

/-- Bind a constructor's fields, and give its parameters their types. -/
def bindFields (name : ConstructorName) (params : List (ConstructorParam Name))
    (fields : List (TypeNode Attributes × Ty)) : Check (List (ConstructorParam Attributes)) :=
  (params.zip fields).mapM fun (param, node, type) => do
    let here := typed param.here type
    Solve.putField name param.name here
    pure ⟨here, param.name, node⟩

/-- Bind a constructor as a value, and as a type of its data type's kind. Its type is
`[params] { (fields) -> result }`, where the result is the data type applied to its
parameters unless the constructor gives one. -/
def bindConstructor (params : List Ty) (applied : Ty) (kind : Kind) (node : Constructor Name)
    (checked : CheckedConstructor) : Check (Constructor Attributes) := do
  let fields ← checked.fields.mapM toType
  let result ← match checked.result with
    | some result => toType result
    | none => pure applied
  let body := if fields.isEmpty then result else Ty.function fields result
  let type := if params.isEmpty then body else .quantified params body .type
  let here := typed node.here type
  let canonical := checked.name.name.canonical
  Solve.putValue node.name here
  Solve.putValue canonical here
  Solve.putType node.name (kinded node.here kind)
  Solve.putType canonical (kinded node.here kind)
  let params ← bindFields checked.name node.params (checked.fields.zip fields)
  pure ⟨here, node.name, params, checked.result⟩

/-- The parameters, the kind and the constructors of a data declaration, checked in a frame
of their own and with no kind left unsolved. -/
def checkData (node : Data Name) (name : QualifiedName) :
    Check (List (TypeVarNode Attributes) × Kind × List CheckedConstructor) :=
  withScope (.data name) do
    let typeParams ← node.typeParams.mapM inferTypeVar
    let kind := dataKind (← typeParams.mapM fun param => kindOf param.here)
    bindData node.name name (kinded node.here kind)
    let constructors ← node.constructors.mapM checkConstructor
    let typeParams ← typeParams.mapM fun param =>
      param.traverse fun attributes => (Solve.default attributes : Check Attributes)
    let kind ← Solve.defaultKind kind
    pure (typeParams, kind, ← constructors.mapM defaultConstructor)

/-- Infer the kind of a data declaration and the types of its constructors, and bind them in
the innermost frame. -/
def inferData (node : Data Name) : Check (Data Attributes) := do
  match node.here.info with
  | .data name =>
    let (typeParams, kind, checked) ← checkData node name
    let here := kinded node.here kind
    bindData node.name name here
    let params ← typeParams.mapM typeOfVarNode
    let data := Ty.constructor name kind
    let applied := if params.isEmpty then data else .apply data params .type
    let constructors ← (node.constructors.zip checked).mapM fun (constructor, checked) =>
      bindConstructor params applied kind constructor checked
    pure ⟨here, node.name, typeParams, constructors⟩
  | _ => throw .notData

end Check

end PolyFront
