import PolyFront.Checking.DataKinds
import PolyFront.Checking.Exprs

/-!
# Types of declarations

Every top-level name is bound to an unsolved kind or type before any declaration is
checked, so that declarations can refer to each other.  Once a group of declarations is
checked, its types are substituted and no kind in them is left unsolved; a declaration
whose type still mentions variables is reported.
-/

namespace PolyFront

namespace Check

/-- Require that a constructor's own result type is an instance of its data type. -/
def checkResultType (data : Data Attributes) (name : QualifiedName)
    (constructor : Constructor Attributes) : Check Unit := do
  match constructor.here.info.name, constructor.result with
  | .constructor constructorName, some result =>
    withScope (.constructor constructorName) do
      let params ← data.typeParams.mapM fun param => do
        (Solve.freshType (← kindOf param.here) : Check Ty)
      let head := Ty.constructor name (← kindOf data.here)
      let instantiated := if params.isEmpty then head else .apply head params .type
      requireAccepting result.here.range instantiated (← toType result)
  | _, _ => pure ()

/-- Infer a data declaration whose kind may have been guessed before. -/
def inferDataDeclaration (node : Data Name) : Check (Data Attributes) := do
  let placeholder := ((← get).store.stack.type? node.here.info.canonical).bind fun here =>
    here.info.classifier.kind?
  let data ← inferData node
  match placeholder with
  | some placeholder =>
    let kind ← kindOf data.here
    if !(← Solve.checkSubKind kind placeholder) then
      let placeholder ← Solve.substituteKind placeholder
      report data.here.range (KindError.mismatch placeholder kind).message
  | none => pure ()
  match data.here.info.name with
  | .data name => data.constructors.forM (checkResultType data name)
  | _ => pure ()
  pure data

/-- The type of a named function, `[typeParams] { (params) -> result }`. -/
def functionType (typeParams : List (TypeVarNode Attributes)) (params : List (Param Attributes))
    (result : Ty) : Check Ty := do
  let function := Ty.function (← params.mapM fun param => typeOf param.here) result
  if typeParams.isEmpty then pure function
  else pure (.quantified (← typeParams.mapM typeOfVarNode) function .type)

/-- A named function is bound before its body is checked, so that it can call itself. -/
def inferFunction (node : FunctionBinding Name) : Check (FunctionBinding Attributes) := do
  match node.here.info with
  | .binding name =>
    let (here, typeParams, params, result, body) ← withScope (.binding name) do
      let typeParams ← node.typeParams.mapM inferTypeVar
      withScope .lambda do
        let params ← node.params.mapM inferParam
        let (result, resultType) ← ascriptionOrFresh node.result
        bindValue node.name (typed node.here (← functionType typeParams params resultType))
        let body ← match result with
          | some _ => checkExpr node.body resultType
          | none => do
            let body ← inferExpr node.body
            let _ ← Solve.checkSubType (← typeOf body.here) resultType
            pure body
        let type ← functionType typeParams params (← typeOf body.here)
        pure (typed node.here type, typeParams, params, result, body)
    bindValue node.name here
    pure ⟨here, node.name, typeParams, params, result, body⟩
  | _ => throw .notBinding

/-- Infer a declaration and bind it in the innermost frame. -/
def inferDeclaration : Declaration Name → Check (Declaration Attributes)
  | .data d => do pure (.data (← inferDataDeclaration d))
  | .binding d => do pure (.binding (← d.judge))
  | .function d => do pure (.function (← inferFunction d))

/-- Report a value declaration whose type mentions variables still. -/
def reportAmbiguous (name : String) (here : Located Attributes) : Check Unit := do
  let type ← typeOf here
  let unknowns := (type.unknowns.map fun (id, _) => unsolvedText id).eraseDups
  if !unknowns.isEmpty then
    report here.range (TypeError.ambiguous name type unknowns).message

/-- Bind a value declaration under its local and its canonical text. -/
def bindTopLevel (name : String) (here : Located Attributes) : Check Unit := do
  Solve.putValue name here
  Solve.putValue here.info.name.canonical here

/-- Substitute a checked declaration, and bind it to its final type. -/
def finishDeclaration (node : Declaration Attributes) : Check (Declaration Attributes) := do
  let node ← node.traverse fun attributes => (Solve.default attributes : Check Attributes)
  match node with
  | .data _ => pure ()
  | _ =>
    reportAmbiguous node.name node.here
    bindTopLevel node.name node.here
  pure node

def inferGroup (group : List (Declaration Name)) : Check (List (Declaration Attributes)) := do
  let inferred ← group.mapM inferDeclaration
  inferred.mapM finishDeclaration

/-- Bind a constructor and its fields to unknown types. -/
def populateConstructor (node : Constructor Name) : Check Unit := do
  bindTopLevel node.name (typed node.here (← freshType))
  match node.here.info with
  | .constructor name =>
    node.params.forM fun param => do
      Solve.putField name param.name (typed param.here (← freshType))
  | _ => pure ()

/-- Bind a declaration to an unknown kind or type. -/
def populateDeclaration : Declaration Name → Check Unit
  | .data d => do
    let here := kinded d.here (← Solve.freshKind)
    Solve.putType d.name here
    Solve.putType d.here.info.canonical here
    d.constructors.forM populateConstructor
  | node => do bindTopLevel node.name (typed node.here (← freshType))

/-- Check a namespace group by group. The frame holds its top-level bindings. -/
def namespaceNode (ns : Namespace Name) :
    Check (Namespace Attributes × Frame (Located Attributes)) := do
  Solve.pushScope (.ns ns.id.name)
  ns.declarations.forM populateDeclaration
  let groups ← ns.groups.mapM inferGroup
  let frame ← Solve.popScope .ns
  pure (⟨typed ns.here (.builtIn .unit), ns.id, ns.imports, groups⟩, frame)

end Check

end PolyFront
