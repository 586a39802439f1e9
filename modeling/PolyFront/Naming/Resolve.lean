import PolyFront.Naming.Resolver

/-!
# Resolving the names of a namespace

Every node of a resolved tree carries the name it declares or refers to.  Names that
cannot be resolved are reported and stay nameless, and resolution carries on.
-/

namespace PolyFront

/-- A node that names nothing. -/
def Located.nameless {α : Type} (here : Located α) : Located Name := ⟨here.range, .nameless⟩

namespace Resolve

/-- Type variables refer to their binder. -/
def typeVar (var : TypeVarNode Unit) : Resolve (TypeVarNode Name) := do
  let range := var.here.range
  match (← get).stack.type? var.name with
  | some found => pure ⟨found.withRange range, var.quantifier, var.name⟩
  | none =>
    reportUndefined "undefined type" range var.name
    pure ⟨⟨range, .nameless⟩, var.quantifier, var.name⟩

/-- A frame that binds type variables. -/
def frameOfBinders (kind : ScopeKind) (binders : List (TypeVarNode Unit)) :
    Resolve (Frame (Located Name)) :=
  binders.foldlM
    (fun frame var => defineType frame var.name ⟨var.here.range, var.binderName⟩)
    (Frame.empty kind)

mutual
def typeNode : TypeNode Unit → Resolve (TypeNode Name)
  | .quantified here binders body => do
    let frame ← frameOfBinders .quantifiedType binders
    withFrame frame do
      let binders ← binders.mapM typeVar
      pure (.quantified here.nameless binders (← typeNode body))
  | .function here args result => do
    let args ← typeNodes args
    pure (.function here.nameless args (← typeNode result))
  | .apply here head args => do
    let head ← typeNode head
    pure (.apply here.nameless head (← typeNodes args))
  | .reference here id => do pure (.reference (← resolveType here.range id) id)
  | .var node => do pure (.var (← typeVar node))
def typeNodes : List (TypeNode Unit) → Resolve (List (TypeNode Name))
  | [] => pure []
  | node :: rest => do
    let node ← typeNode node
    pure (node :: (← typeNodes rest))
end

/-- A type that may be left out. -/
def ascription : Option (TypeNode Unit) → Resolve (Option (TypeNode Name))
  | none => pure none
  | some node => do pure (some (← typeNode node))

def param (param : Param Unit) : Resolve (Param Name) := do
  let here ← bindLocal .lambda param.name param.here.range
  pure ⟨here, param.name, ← ascription param.ascription⟩

def reference (node : Reference Unit) : Resolve (Reference Name) := do
  pure ⟨← resolveValue node.here.range node.id, node.id⟩

/-- Report a field that the constructor of the pattern around it does not have. -/
def checkField (range : Range) (field : String) : Resolve Unit := do
  let stack := (← get).stack
  match stack.enclosingConstructorPattern? with
  | some (some constructor) =>
    if (stack.field? constructor field).isNone then
      reportError range
        ("Reference to unknown field '" ++ field ++ "' in constructor '" ++
          constructor.name.canonical ++ "'") []
  | _ => pure ()

mutual
def pattern : Pattern Unit → Resolve (Pattern Name)
  | .alias here name inner => do
    let here ← bindLocal .case name here.range
    pure (.alias here name (← pattern inner))
  | .id here name => do pure (.id (← bindLocal .case name here.range) name)
  | .literal here value => pure (.literal here.nameless value)
  | .constructor here id fields => do
    let found := (← get).stack.value? id.canonical
    let name := (found.map Located.info).getD .nameless
    if found.isNone then reportUndefined "unknown constructor" here.range id.canonical
    let constructor := match name with
      | .constructor constructor => some constructor
      | _ => none
    let fields ← withScope (.constructorPattern constructor) (fieldPatterns fields)
    recordReference name
    pure (.constructor ⟨here.range, name⟩ id fields)
def fieldPattern : FieldPattern Unit → Resolve (FieldPattern Name)
  | ⟨here, field, inner⟩ => do
    checkField here.range field
    optionalPattern here field inner
def optionalPattern (here : Located Unit) (field : String) :
    Option (Pattern Unit) → Resolve (FieldPattern Name)
  | none => do pure ⟨← bindLocal .case field here.range, field, none⟩
  | some inner => do pure ⟨here.nameless, field, some (← pattern inner)⟩
def fieldPatterns : List (FieldPattern Unit) → Resolve (List (FieldPattern Name))
  | [] => pure []
  | field :: rest => do
    let field ← fieldPattern field
    pure (field :: (← fieldPatterns rest))
end

mutual
def expr : Expr Unit → Resolve (Expr Name)
  | .block here bindings result =>
    withScope .block do
      let bindings ← localBindings bindings
      pure (.block here.nameless bindings (← optionalExpr result))
  | .conditional here condition consequent alternative => do
    let condition ← expr condition
    let consequent ← expr consequent
    pure (.conditional here.nameless condition consequent (← expr alternative))
  | .lambda here params body =>
    withScope .lambda do
      let params ← params.mapM param
      pure (.lambda here.nameless params (← expr body))
  | .cases here scrutinee cases => do
    let scrutinee ← expr scrutinee
    pure (.cases here.nameless scrutinee (← caseList cases))
  | .apply here function args => do
    let function ← expr function
    pure (.apply here.nameless function (← exprs args))
  | .select here receiver selection => do
    let receiver ← expr receiver
    pure (.select here.nameless receiver (← reference selection))
  | .reference node => do pure (.reference (← reference node))
  | .binary here op left right => do
    let left ← expr left
    pure (.binary here.nameless op left (← expr right))
  | .unary here op operand => do pure (.unary here.nameless op (← expr operand))
  | .literal here value => pure (.literal here.nameless value)
def optionalExpr : Option (Expr Unit) → Resolve (Option (Expr Name))
  | none => pure none
  | some e => do pure (some (← expr e))
def exprs : List (Expr Unit) → Resolve (List (Expr Name))
  | [] => pure []
  | e :: rest => do
    let e ← expr e
    pure (e :: (← exprs rest))
/-- A binding inside a block is visible in its own value. -/
def localBinding : Binding Unit → Resolve (Binding Name)
  | ⟨here, name, type, value⟩ => do
    let here ← bindLocal .block name here.range
    let type ← ascription type
    pure ⟨here, name, type, ← expr value⟩
def localBindings : List (Binding Unit) → Resolve (List (Binding Name))
  | [] => pure []
  | binding :: rest => do
    let binding ← localBinding binding
    pure (binding :: (← localBindings rest))
def caseNode : Case Unit → Resolve (Case Name)
  | ⟨here, inner, body⟩ =>
    withScope .case do
      let inner ← pattern inner
      pure ⟨here.nameless, inner, ← expr body⟩
def caseList : List (Case Unit) → Resolve (List (Case Name))
  | [] => pure []
  | case :: rest => do
    let case ← caseNode case
    pure (case :: (← caseList rest))
end

def constructorParam (constructor : ConstructorName) (param : ConstructorParam Unit) :
    Resolve (ConstructorParam Name) := do
  let here := ⟨param.here.range, .field ⟨constructor, param.name⟩⟩
  pure ⟨here, param.name, ← typeNode param.ascription⟩

/-- A constructor and its data type depend on each other. -/
def constructor (data : QualifiedName) (node : Constructor Unit) :
    Resolve (Constructor Name) := do
  let name := ConstructorName.ofData data node.name
  addEdge (.data data) (.constructor name)
  addEdge (.constructor name) (.data data)
  withScope (.constructor name) do
    let params ← node.params.mapM (constructorParam name)
    let result ← ascription node.result
    pure ⟨⟨node.here.range, .constructor name⟩, node.name, params, result⟩

def data (node : Data Unit) : Resolve (Data Name) := do
  let name : QualifiedName := ⟨← currentNamespace, node.name⟩
  let frame ← frameOfBinders (.data name) node.typeParams
  withFrame frame do
    let typeParams ← node.typeParams.mapM typeVar
    let constructors ← node.constructors.mapM (constructor name)
    pure ⟨⟨node.here.range, .data name⟩, node.name, typeParams, constructors⟩

def topLevelBinding (node : Binding Unit) : Resolve (Binding Name) := do
  let name : QualifiedName := ⟨← currentNamespace, node.name⟩
  withScope (.binding name) do
    let type ← ascription node.ascription
    pure ⟨⟨node.here.range, .binding name⟩, node.name, type, ← expr node.value⟩

def functionBinding (node : FunctionBinding Unit) : Resolve (FunctionBinding Name) := do
  let name : QualifiedName := ⟨← currentNamespace, node.name⟩
  let frame ← frameOfBinders (.binding name) node.typeParams
  withFrame frame <| withScope .lambda do
    let typeParams ← node.typeParams.mapM typeVar
    let params ← node.params.mapM param
    let result ← ascription node.result
    let body ← expr node.body
    pure ⟨⟨node.here.range, .binding name⟩, node.name, typeParams, params, result, body⟩

/-- The local names of every declaration are numbered from zero. -/
def declaration (node : Declaration Unit) : Resolve (Declaration Name) := do
  modify fun s => { s with nextLocal := 0 }
  match node with
  | .data d => do pure (.data (← data d))
  | .binding d => do pure (.binding (← topLevelBinding d))
  | .function d => do pure (.function (← functionBinding d))

/-- Bind a constructor as a value and as a type, and its parameters as fields. -/
def populateConstructor (data : QualifiedName) (frame : Frame (Located Name))
    (node : Constructor Unit) : Resolve (Frame (Located Name)) := do
  let name := ConstructorName.ofData data node.name
  let canonical := name.name.canonical
  let here : Located Name := ⟨node.here.range, .constructor name⟩
  let frame ← defineValue frame node.name here
  let frame := frame.populateValue canonical here
  let frame := (frame.populateType node.name here).populateType canonical here
  node.params.foldlM
    (fun frame param =>
      defineField frame name param.name ⟨param.here.range, .field ⟨name, param.name⟩⟩)
    frame

/-- Bind a declaration under its local and its canonical name. -/
def populateDeclaration (ns : NamespaceName) (frame : Frame (Located Name))
    (node : Declaration Unit) : Resolve (Frame (Located Name)) := do
  let name : QualifiedName := ⟨ns, node.name⟩
  match node with
  | .data d =>
    let here : Located Name := ⟨d.here.range, .data name⟩
    let frame ← defineType frame d.name here
    d.constructors.foldlM (populateConstructor name) (frame.populateType name.canonical here)
  | _ =>
    let here : Located Name := ⟨node.here.range, .binding name⟩
    let frame ← defineValue frame node.name here
    pure (frame.populateValue name.canonical here)

/-- The bindings of all declarations of a namespace, without a look inside them. Only the
local names report duplicates. -/
def populate (ns : Namespace Unit) : Resolve (Frame (Located Name)) :=
  ns.declarations.foldlM (populateDeclaration ns.id.name) (Frame.empty (.ns ns.id.name))

/-- Resolve a namespace and arrange its declarations into groups. -/
def namespaceNode (ns : Namespace Unit) : Resolve (Namespace Name) := do
  modify fun s => { s with graph := DeclarationGraph.empty }
  let frame ← populate ns
  modify fun s => { s with stack := s.stack.push frame }
  let declarations ← ns.declarations.mapM declaration
  let popped ← Run.within Resolver.stack (fun stack s => { s with stack := stack })
    (Stack.pop .ns)
  modify fun s => { s with topLevel := some popped }
  pure ⟨⟨ns.here.range, .ns ns.id.name⟩, ns.id, ns.imports,
    (← get).graph.groups declarations⟩

end Resolve

end PolyFront
