import PolyFront.Constant.Analysis
import PolyFront.Fault

/-!
# Analysis of namespaces

The definitions of a namespace are analysed from a worklist.  When the result of a
definition grows, the definitions that refer to it are analysed again.
-/

namespace PolyFront

/-- An analysis that never faults. -/
instance : MonadLift (StateM Analysis) (EStateM Fault Analysis) where
  monadLift run := fun analysis => let (result, after) := run analysis; .ok result after

namespace Analyse

/-- A constructor without fields is a constant. -/
def constructor (node : Lowered.Constructor) : Analyse Unit := do
  let name := Name.constructor node.name
  modify fun analysis => { analysis with bound := analysis.bound ++ [name] }
  let _ ← record name (if node.fields.isEmpty then .constantConstructor node.name
    else .known node.name)

/-- Bind the top-level names of a declaration. -/
def declare : Lowered.Declaration → Analyse Unit
  | .data d => d.constructors.forM constructor
  | .definition d =>
    modify fun analysis => { analysis with bound := analysis.bound ++ [.binding d.name] }

/-- Bind the names inside a definition and put it on the worklist. A function at the top
level can be called with anything. -/
def schedule (index : Nat) (node : Lowered.Definition) : Analyse Unit := do
  let name := Name.binding node.name
  modify fun analysis => { analysis with
    dependents := analysis.dependents.extend (node.freeVariables.map fun free => (free, name))
    bound := analysis.bound ++ node.body.boundNames }
  match node.body.params? with
  | some params =>
    let params := params.map (·.name)
    recordUnknown params
    modify fun analysis => { analysis with
      functionParams := analysis.functionParams.insert name params }
  | none => pure ()
  modify fun analysis => { analysis with
    positions := analysis.positions.insert name index
    worklist := analysis.worklist ++ [name] }

/-- Bind and schedule all declarations. -/
def scheduleAll (declarations : List Lowered.Declaration) : Analyse Unit := do
  declarations.forM declare
  declarations.zipIdx.forM fun (declaration, index) =>
    match declaration with
    | .data _ => pure ()
    | .definition d => schedule index d

/-- Analyse a definition under the given name. When its result grows, what refers to it is
put on the worklist. -/
def definition (name : Name) (node : Lowered.Definition) : Analyse Unit := do
  let before := (← get).lookup name
  let after ← record name (← expr node.body.inner)
  if after.compare before = .greater then
    modify fun analysis => { analysis with
      worklist := analysis.worklist ++ analysis.dependents.get name }

/-- Analyse the declaration at the place where a name was declared. -/
def scheduled (declarations : List Lowered.Declaration) (name : Name) : Run Analysis Unit := do
  match (← get).positions.get? name with
  | none => pure ()
  | some index =>
    match declarations[index]? with
    | none => throw (.noDeclaration declarations.length index)
    | some (.data _) => pure ()
    | some (.definition d) => definition name d

/-- Analyse from the worklist until it is empty. -/
def drain (declarations : List Lowered.Declaration) : Nat → Run Analysis Unit
  | 0 => pure ()
  | fuel + 1 => do
    match (← get).worklist with
    | [] => pure ()
    | name :: rest =>
      modify fun analysis => { analysis with worklist := rest }
      scheduled declarations name
      drain declarations fuel

end Analyse

/-- The number of names that a declaration binds or refers to, with repetitions. -/
def Lowered.Declaration.nameCount : Lowered.Declaration → Nat
  | .data _ => 0
  | .definition d => d.body.boundNames.length + d.body.references.length

/-- A bound on the number of analyses. Names are assigned as in a single expression; every
change schedules at most the function of each call around it and the dependents of one
name. -/
def Analysis.analysisBound (analysis : Analysis) (declarations : List Lowered.Declaration) :
    Nat :=
  let names := analysis.positions.size + analysis.bound.length +
    total List.length analysis.functionParams.values +
    total Lowered.Declaration.nameCount declarations
  analysis.worklist.length + Analysis.changesPerName * names * (2 * names)

/-- Analyse the declarations of a namespace. -/
def Analyse.declarations (declarations : List Lowered.Declaration) : Run Analysis Unit := do
  scheduleAll declarations
  drain declarations ((← get).analysisBound declarations)

end PolyFront
