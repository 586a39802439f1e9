import PolyFront.Collection.Multimap
import PolyFront.Constant.Transfer
import PolyFront.Lowered.Names

/-!
# Analysis of constants

What is known about every name of lowered code.  A name starts out unassigned and only
ever moves up the lattice.  A block is analysed until none of its names moves any more.
-/

namespace PolyFront

structure Analysis where
  /-- What is known about each name. -/
  values : Table Name Lattice
  /-- The definitions that are still to be analysed. -/
  worklist : List Name
  /-- The place of each definition in its namespace. -/
  positions : Table Name Nat
  /-- For each name, the definitions that refer to it. -/
  dependents : Multimap Name Name
  /-- The parameters of the functions that are called by name. -/
  functionParams : Table Name (List Name)
  /-- The names bound in the code under analysis. Nothing can be known about others. -/
  bound : List Name
  /-- The number of changes made to what is known. -/
  changes : Nat

abbrev Analyse (α : Type) : Type := StateM Analysis α

namespace Analysis

/-- Nothing analysed yet. -/
def start : Analysis := ⟨Table.empty, [], Table.empty, Multimap.empty, Table.empty, [], 0⟩

def lookup (analysis : Analysis) (name : Name) : Lattice :=
  (analysis.values.get? name).getD .unassigned

/-- What is known about a name where it is referred to. -/
def reference (analysis : Analysis) (name : Name) : Lattice :=
  match analysis.values.get? name with
  | some value => value
  | none => if analysis.bound.contains name then .unassigned else .nonConstant

/-- What is known about a value without a look inside it. -/
def valueOf (analysis : Analysis) : Lowered.Value → Lattice
  | .literal value => .constant value
  | .reference name type =>
    if type.isFunctional then .nonConstant else analysis.reference name
  | _ => .nonConstant

/-- Join a value into what is known about a name. The joined value is returned. -/
def record (analysis : Analysis) (name : Name) (value : Lattice) : Lattice × Analysis :=
  let assigned (value : Lattice) : Lattice × Analysis :=
    (value, { analysis with
      values := analysis.values.insert name value, changes := analysis.changes + 1 })
  match analysis.values.get? name with
  | none => assigned value
  | some known =>
    let joined := known.join value
    if joined = known then (known, analysis) else assigned joined

/-- The number of ways in which what is known about one name can change: it is assigned, and
then climbs a lattice of four levels. -/
def changesPerName : Nat := 4

/-- A bound on the changes that any number of analyses of an expression make: only names
that it binds or refers to and parameters of functions are assigned. -/
def changeBound (analysis : Analysis) (expr : Lowered.Expr) : Nat :=
  changesPerName * (expr.boundNames.length + expr.references.length +
    total List.length analysis.functionParams.values)

end Analysis

namespace Analyse

def record (name : Name) (value : Lattice) : Analyse Lattice :=
  modifyGet fun analysis => analysis.record name value

/-- The parameters of a function may be anything. -/
def recordUnknown (params : List Name) : Analyse Unit :=
  params.forM fun param => do let _ ← record param .nonConstant

/-- Join arguments into what is known about the parameters they are given for. Arguments
beyond the last parameter are not looked at. -/
def recordArgs (params : List Name) (args : List (Analyse Lattice)) : Analyse Unit :=
  (params.zip args).forM fun (param, arg) => do let _ ← record param (← arg)

/-- Record that a function is called by name, unless it was recorded before. -/
def recordFunction (name : Name) (params : List Lowered.Param) : Analyse Unit :=
  modify fun analysis => { analysis with
    functionParams := analysis.functionParams.insertIfNew name (params.map (·.name)) }

/-- Record what a binding is known to be. -/
def recordResult (name : Name) (body : Analyse Lattice) : Analyse Unit := do
  let _ ← record name (← body)

/-- The value of a reference. A function that is referred to other than by a call may be
called with anything. -/
def reference (name : Name) (type : Ty) : Analyse Lattice := do
  if type.isFunctional then
    recordUnknown (((← get).functionParams.get? name).getD [])
    pure .nonConstant
  else pure ((← get).reference name)

/-- The result of a call by name. A definition whose parameters have changed is to be
analysed again. -/
def call (name : Name) (args : List (Analyse Lattice)) : Analyse Lattice := do
  match (← get).functionParams.get? name with
  | some params =>
    let _ ← record name .unassigned
    let before := (← get).changes
    recordArgs params args
    modify fun analysis =>
      if before < analysis.changes && analysis.positions.contains name then
        { analysis with worklist := analysis.worklist ++ [name] }
      else analysis
    pure ((← get).lookup name)
  | none =>
    args.forM fun arg => do let _ ← arg
    pure ((← get).reference name)

/-- The result of a condition and what depends on it. -/
def conditional (condition : Lattice) (consequent alternative : Analyse Lattice) :
    Analyse Lattice := do
  match condition with
  | .unassigned => pure .unassigned
  | .constant (.boolean true) => consequent
  | .constant (.boolean false) => alternative
  | _ =>
    let consequent ← consequent
    let alternative ← alternative
    pure (consequent.join alternative)

mutual
/-- Record what the names of a pattern are bound to. Nothing is known about fields. -/
def pattern (value : Lattice) : Lowered.Pattern → Analyse Unit
  | .id name => do let _ ← record name value
  | .alias name inner => do
    let _ ← record name value
    pattern value inner
  | .literal _ => pure ()
  | .constructor _ fields => fieldPatterns fields
def fieldPattern : Lowered.FieldPattern → Analyse Unit
  | ⟨_, inner⟩ => pattern .nonConstant inner
def fieldPatterns : List Lowered.FieldPattern → Analyse Unit
  | [] => pure ()
  | field :: rest => do
    fieldPattern field
    fieldPatterns rest
end

/-- The join of the results of all cases that may be taken. -/
def cases (scrutinee : Lattice) (cases : List (Lowered.Pattern × Analyse Lattice)) :
    Analyse Lattice := do
  if scrutinee = .unassigned then pure .unassigned
  else
    (Lowered.candidates Prod.fst scrutinee cases).foldlM
      (fun result candidate => do
        pattern scrutinee candidate.1.1
        pure (result.join (← candidate.1.2)))
      .unassigned

/-- Repeat a pass until one changes nothing, and return what that one returns. -/
def stabilise (pass : Analyse Lattice) : Nat → Analyse Lattice
  | 0 => pass
  | fuel + 1 => do
    let before := (← get).changes
    let value ← pass
    if before < (← get).changes then stabilise pass fuel else pure value

mutual
/-- The value of an expression. -/
def expr : Lowered.Expr → Analyse Lattice
  | .value v => value v
  | .apply _ function args => apply (values args) function
  | .unary op operand => do pure (Lattice.unary op (← value operand))
  | .binary left op right => do
    let left ← value left
    let right ← value right
    pure (Lattice.binary left op right)
  | .conditional condition consequent alternative => do
    conditional (← value condition) (expr consequent) (expr alternative)
  | .cases scrutinee branches => do cases (← value scrutinee) (caseList branches)
  | .block bindings result => do
    stabilise (do bindingList bindings; expr result)
      ((← get).changeBound (.block bindings result))
/-- The value of an operand. The body of a function is analysed for what it tells about
other names. -/
def value : Lowered.Value → Analyse Lattice
  | .literal value => pure (.constant value)
  | .reference name type => reference name type
  | .lambda params body => do
    recordUnknown (params.map (·.name))
    let _ ← expr body
    pure .nonConstant
  | .box inner => do
    let _ ← value inner
    pure .nonConstant
  | .unbox inner => do
    let _ ← value inner
    pure .nonConstant
def values : List Lowered.Value → List (Analyse Lattice)
  | [] => []
  | v :: rest => value v :: values rest
/-- The result of a function that is applied to arguments. -/
def apply (args : List (Analyse Lattice)) : Lowered.Value → Analyse Lattice
  | .lambda params body => do
    recordArgs (params.map (·.name)) args
    expr body
  | .reference name _ => call name args
  | .literal _ => do
    args.forM fun arg => do let _ ← arg
    pure .nonConstant
  | .box inner => do
    args.forM fun arg => do let _ ← arg
    let _ ← value inner
    pure .nonConstant
  | .unbox inner => do
    args.forM fun arg => do let _ ← arg
    let _ ← value inner
    pure .nonConstant
def caseNode : Lowered.Case → Lowered.Pattern × Analyse Lattice
  | ⟨pattern, body⟩ => (pattern, expr body)
def caseList : List Lowered.Case → List (Lowered.Pattern × Analyse Lattice)
  | [] => []
  | node :: rest => caseNode node :: caseList rest
/-- A function that is bound to a name is known by its result. -/
def binding : Lowered.Binding → Analyse Unit
  | .join name _ params body => do
    recordFunction name params
    recordResult name (expr body)
  | .assign name _ (.value (.lambda params body)) => do
    recordFunction name params
    recordResult name (expr body)
  | .assign name _ body => recordResult name (expr body)
def bindingList : List Lowered.Binding → Analyse Unit
  | [] => pure ()
  | node :: rest => do
    binding node
    bindingList rest
end

/-- The value of an expression on its own. -/
def closedExpr (node : Lowered.Expr) : Analyse Lattice := do
  modify fun analysis => { analysis with bound := analysis.bound ++ node.boundNames }
  expr node

end Analyse

end PolyFront
