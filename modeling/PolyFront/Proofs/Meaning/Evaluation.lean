import PolyFront.Constant.Fold
import PolyFront.Lowered.Basic

/-!
# The meaning of lowered code

Lowered code is evaluated by value.  Operands are evaluated before an operator, a call, a
condition or a match uses them; the bindings of a block are evaluated in order, and its functions
can be referred to in the whole block.  An evaluation has no result where code goes wrong: an
operator is not defined on its operands, a name has no value, a call gives another number of
arguments than there are parameters, a constructor that still has to be given its fields is matched
against its own pattern, or a literal or constructor value is referred to at a function type.
-/

namespace PolyFront.Lowered

mutual
/-- What code evaluates to. -/
inductive Datum where
  | literal (value : Literal)
  | data (constructor : ConstructorName) (fields : List FieldName) (contents : List Datum)
  /-- A constructor that still has to be given its fields. -/
  | maker (constructor : ConstructorName) (fields : List FieldName)
  | boxed (content : Datum)
  /-- A function with the names that are visible in it. -/
  | closure (params : List Name) (body : Expr) (frames : List Frame)
/-- The names that a construct binds: the bindings of a block, and the names that have a value
already. -/
inductive Frame where
  | mk (bindings : List Binding) (names : List Name) (contents : List Datum)
end

namespace Datum

/-- A literal or a value built by a constructor. -/
def isPlain : Datum → Bool
  | .literal _ => true
  | .data _ _ _ => true
  | _ => false

def content? : Datum → Option Datum
  | .boxed content => some content
  | _ => none

mutual
/-- The datum with the code of its functions left out. -/
def bare : Datum → Datum
  | .literal value => .literal value
  | .data constructor fields contents => .data constructor fields (bareList contents)
  | .maker constructor fields => .maker constructor fields
  | .boxed content => .boxed content.bare
  | .closure params _ _ => .closure params default []
def bareList : List Datum → List Datum
  | [] => []
  | datum :: rest => datum.bare :: bareList rest
end

mutual
/-- There are no functions in the datum but constructors. -/
def isGround : Datum → Bool
  | .literal _ => true
  | .data _ _ contents => isGroundList contents
  | .maker _ _ => true
  | .boxed content => content.isGround
  | .closure _ _ _ => false
def isGroundList : List Datum → Bool
  | [] => true
  | datum :: rest => datum.isGround && isGroundList rest
end

mutual
/-- A datum without functions is not changed when code is left out. -/
theorem eq_of_bare_eq : ∀ {datum datum' : Datum}, datum.isGround = true →
    datum'.bare = datum.bare → datum' = datum
  | .literal _, datum', _, h => by
    cases datum' <;> cases h
    rfl
  | .data _ _ contents, datum', hground, h => by
    cases datum' with
    | data _ _ contents' =>
      obtain ⟨rfl, rfl, hcontents⟩ := Datum.data.inj h
      rw [eq_of_bareList_eq hground hcontents]
    | _ => cases h
  | .maker _ _, datum', _, h => by
    cases datum' <;> cases h
    rfl
  | .boxed content, datum', hground, h => by
    cases datum' with
    | boxed content' =>
      rw [isGround] at hground
      rw [eq_of_bare_eq hground (Datum.boxed.inj h)]
    | _ => cases h
theorem eq_of_bareList_eq : ∀ {contents contents' : List Datum}, isGroundList contents = true →
    bareList contents' = bareList contents → contents' = contents
  | [], contents', _, h => by
    cases contents' with
    | nil => rfl
    | cons _ _ => cases h
  | datum :: rest, contents', hground, h => by
    cases contents' with
    | nil => cases h
    | cons datum' rest' =>
      obtain ⟨hdatum, hrest⟩ := List.cons.inj h
      rw [isGroundList, Bool.and_eq_true] at hground
      rw [eq_of_bare_eq hground.1 hdatum, eq_of_bareList_eq hground.2 hrest]
end

end Datum

/-- The value of a key in two lists that run side by side. -/
def pick {κ ν : Type} [DecidableEq κ] (key : κ) : List κ → List ν → Option ν
  | other :: keys, value :: values => if key = other then some value else pick key keys values
  | _, _ => none

/-! ## Names -/

def Binding.name : Binding → Name
  | .assign name _ _ => name
  | .join name _ _ _ => name

/-- The function that a binding binds, with the names that are visible in it. -/
def Binding.closure? (frames : List Frame) : Binding → Option Datum
  | .join _ _ params body => some (.closure (params.map Param.name) body frames)
  | .assign _ _ (.value (.lambda params body)) =>
    some (.closure (params.map Param.name) body frames)
  | .assign _ _ _ => none

/-- What a name is bound to, if it is bound. A binding of a block that was not evaluated yet has
a value only if it is a function. -/
def lookup (name : Name) : List Frame → Option (Option Datum)
  | [] => none
  | .mk bindings names contents :: rest =>
    match pick name names contents with
    | some datum => some (some datum)
    | none =>
      match bindings.find? fun binding => binding.name = name with
      | some binding => some (binding.closure? (.mk bindings names contents :: rest))
      | none => lookup name rest

/-- What can be referred to from everywhere. -/
structure Program where
  /-- The fields of a constructor. -/
  fields? : ConstructorName → Option (List FieldName)
  /-- The body of a top-level definition. -/
  body? : Name → Option Expr
  /-- The values of names that are bound elsewhere. -/
  outside : Name → Option Datum

namespace Program

variable (program : Program)

def constructor? : Name → Option Datum
  | .constructor name =>
    (program.fields? name).map fun fields =>
      if fields.isEmpty then .data name [] [] else .maker name fields
  | _ => none

/-- The value of a name. A definition has the value of its body. -/
def resolve (eval : List Frame → Expr → Option Datum) (frames : List Frame) (name : Name) :
    Option Datum :=
  match program.constructor? name with
  | some datum => some datum
  | none =>
    match lookup name frames with
    | some found => found
    | none =>
      match program.body? name with
      | some body => eval [] body
      | none => program.outside name

end Program

/-! ## Operands and calls -/

/-- The value of an operand. -/
def Value.eval (resolve : Name → Option Datum) (frames : List Frame) : Value → Option Datum
  | .literal value => some (.literal value)
  | .reference name type =>
    (resolve name).bind fun datum =>
      if type.isFunctional && datum.isPlain then none else some datum
  | .lambda params body => some (.closure (params.map Param.name) body frames)
  | .box value => (value.eval resolve frames).map .boxed
  | .unbox value => (value.eval resolve frames).bind Datum.content?

/-- The value of what is called. -/
def Value.callee (resolve : Name → Option Datum) (frames : List Frame) : Value → Option Datum
  | .reference name _ => resolve name
  | value => value.eval resolve frames

def Value.evalList (resolve : Name → Option Datum) (frames : List Frame) :
    List Value → Option (List Datum)
  | [] => some []
  | value :: rest =>
    (value.eval resolve frames).bind fun datum =>
      (Value.evalList resolve frames rest).map fun contents => datum :: contents

/-- The result of a call. -/
def Datum.call (eval : List Frame → Expr → Option Datum) (args : List Datum) :
    Datum → Option Datum
  | .closure params body frames =>
    if args.length = params.length then eval (.mk [] params args :: frames) body else none
  | .maker constructor fields =>
    if args.length = fields.length then some (.data constructor fields args) else none
  | .data constructor [] [] => if args.isEmpty then some (.data constructor [] []) else none
  | _ => none

/-! ## Matching -/

inductive Match where
  /-- What is matched is not built as the pattern says. -/
  | stuck
  | fails
  | binds (names : List Name) (contents : List Datum)

/-- Both match. -/
def Match.and (left : Match) (right : Match) : Match :=
  match left with
  | .stuck => .stuck
  | .fails => .fails
  | .binds names contents =>
    match right with
    | .stuck => .stuck
    | .fails => .fails
    | .binds names' contents' => .binds (names ++ names') (contents ++ contents')

mutual
def Pattern.run : Pattern → Datum → Match
  | .id name, datum => .binds [name] [datum]
  | .alias name pattern, datum => Match.and (.binds [name] [datum]) (pattern.run datum)
  | .literal value, datum =>
    match datum with
    | .literal given => if given = value then .binds [] [] else .fails
    | _ => .fails
  | .constructor constructor patterns, datum =>
    match datum with
    | .data given fields contents =>
      if given = constructor then FieldPattern.runList fields contents patterns else .fails
    | .maker given _ => if given = constructor then .stuck else .fails
    | _ => .fails
def FieldPattern.run (fields : List FieldName) (contents : List Datum) : FieldPattern → Match
  | ⟨name, pattern⟩ =>
    match pick name fields contents with
    | some datum => pattern.run datum
    | none => .stuck
def FieldPattern.runList (fields : List FieldName) (contents : List Datum) :
    List FieldPattern → Match
  | [] => .binds [] []
  | pattern :: rest =>
    (pattern.run fields contents).and (FieldPattern.runList fields contents rest)
end

/-- The first case that matches, with what it binds. -/
def Case.select (datum : Datum) : List Case → Option (Frame × Expr)
  | [] => none
  | case :: rest =>
    match case.pattern.run datum with
    | .binds names contents => some (.mk [] names contents, case.body)
    | .fails => Case.select datum rest
    | .stuck => none

/-! ## Expressions -/

/-- The value that is bound. -/
def Binding.eval (eval : List Frame → Expr → Option Datum) (frames : List Frame) :
    Binding → Option Datum
  | .assign _ _ body => eval frames body
  | .join _ _ params body => some (.closure (params.map Param.name) body frames)

/-- Evaluate bindings of a block in order. -/
def Binding.evalList (eval : List Frame → Expr → Option Datum) (bindings : List Binding)
    (frames : List Frame) : List Binding → List Name → List Datum → Option Frame
  | [], names, contents => some (.mk bindings names contents)
  | binding :: rest, names, contents =>
    (binding.eval eval (.mk bindings names contents :: frames)).bind fun datum =>
      Binding.evalList eval bindings frames rest (binding.name :: names) (datum :: contents)

def unaryDatum (op : UnaryOp) : Datum → Option Datum
  | .literal operand => (Fold.unary op operand).constant?.map .literal
  | _ => none

def binaryDatum (op : BinaryOp) : Datum → Datum → Option Datum
  | .literal left, .literal right => (Fold.binary left op right).constant?.map .literal
  | _, _ => none

namespace Program

variable (program : Program)

/-- The value of an expression, given that of its parts. -/
def step (eval : List Frame → Expr → Option Datum) (frames : List Frame) : Expr → Option Datum
  | .value value => value.eval (program.resolve eval frames) frames
  | .apply _ function args =>
    (function.callee (program.resolve eval frames) frames).bind fun callee =>
      (Value.evalList (program.resolve eval frames) frames args).bind fun args =>
        callee.call eval args
  | .unary op operand =>
    (operand.eval (program.resolve eval frames) frames).bind (unaryDatum op)
  | .binary left op right =>
    (left.eval (program.resolve eval frames) frames).bind fun left =>
      (right.eval (program.resolve eval frames) frames).bind (binaryDatum op left)
  | .conditional condition consequent alternative =>
    (condition.eval (program.resolve eval frames) frames).bind fun
      | .literal (.boolean true) => eval frames consequent
      | .literal (.boolean false) => eval frames alternative
      | _ => none
  | .cases scrutinee cases =>
    (scrutinee.eval (program.resolve eval frames) frames).bind fun datum =>
      (Case.select datum cases).bind fun selected => eval (selected.1 :: frames) selected.2
  | .block bindings result =>
    (Binding.evalList eval bindings frames bindings [] []).bind fun frame =>
      eval (frame :: frames) result

/-- The value of an expression, if it is found within a number of nested steps. -/
def eval : Nat → List Frame → Expr → Option Datum
  | 0, _, _ => none
  | fuel + 1, frames, expr => program.step (eval fuel) frames expr

/-- The value of a top-level definition. -/
def definition (fuel : Nat) (name : QualifiedName) : Option Datum :=
  (program.body? (.binding name)).bind (program.eval fuel [])

/-- The result of a call of a top-level definition. -/
def callDefinition (fuel : Nat) (name : QualifiedName) (args : List Datum) : Option Datum :=
  (program.definition fuel name).bind (Datum.call (program.eval fuel) args)

end Program

/-! ## More fuel -/

/-- The second evaluation has all the results of the first. -/
def Extends (eval eval' : List Frame → Expr → Option Datum) : Prop :=
  ∀ frames expr datum, eval frames expr = some datum → eval' frames expr = some datum

section Extends

variable {eval eval' : List Frame → Expr → Option Datum}

theorem Extends.resolve (h : Extends eval eval') {program : Program} {frames : List Frame}
    {name : Name} {datum : Datum} (hdatum : program.resolve eval frames name = some datum) :
    program.resolve eval' frames name = some datum := by
  unfold Program.resolve at hdatum ⊢
  split
  · rename_i hconstructor
    rw [hconstructor] at hdatum
    exact hdatum
  · rename_i hconstructor
    rw [hconstructor] at hdatum
    split
    · rename_i hfound
      rw [hfound] at hdatum
      exact hdatum
    · rename_i hfound
      rw [hfound] at hdatum
      split
      · rename_i hbody
        rw [hbody] at hdatum
        exact h _ _ _ hdatum
      · rename_i hbody
        rw [hbody] at hdatum
        exact hdatum

theorem Value.eval_mono {resolve resolve' : Name → Option Datum} {frames : List Frame}
    (h : ∀ name datum, resolve name = some datum → resolve' name = some datum) {value : Value}
    {datum : Datum} (hdatum : value.eval resolve frames = some datum) :
    value.eval resolve' frames = some datum := by
  fun_induction value.eval resolve frames generalizing datum with
  | case1 value => exact hdatum
  | case2 name type =>
    obtain ⟨found, hfound, hchecked⟩ := Option.bind_eq_some_iff.1 hdatum
    exact Option.bind_eq_some_iff.2 ⟨found, h name found hfound, hchecked⟩
  | case3 params body => exact hdatum
  | case4 value ih =>
    obtain ⟨content, hcontent, rfl⟩ := Option.map_eq_some_iff.1 hdatum
    exact Option.map_eq_some_iff.2 ⟨content, ih hcontent, rfl⟩
  | case5 value ih =>
    obtain ⟨boxed, hboxed, hcontent⟩ := Option.bind_eq_some_iff.1 hdatum
    exact Option.bind_eq_some_iff.2 ⟨boxed, ih hboxed, hcontent⟩

theorem Value.callee_mono {resolve resolve' : Name → Option Datum} {frames : List Frame}
    (h : ∀ name datum, resolve name = some datum → resolve' name = some datum) {value : Value}
    {datum : Datum} (hdatum : value.callee resolve frames = some datum) :
    value.callee resolve' frames = some datum := by
  cases value with
  | reference name type => exact h name datum hdatum
  | _ => exact Value.eval_mono h hdatum

theorem Value.evalList_mono {resolve resolve' : Name → Option Datum} {frames : List Frame}
    (h : ∀ name datum, resolve name = some datum → resolve' name = some datum)
    {values : List Value} {contents : List Datum}
    (hcontents : Value.evalList resolve frames values = some contents) :
    Value.evalList resolve' frames values = some contents := by
  induction values generalizing contents with
  | nil => exact hcontents
  | cons value rest ih =>
    obtain ⟨datum, hdatum, hrest⟩ := Option.bind_eq_some_iff.1 hcontents
    obtain ⟨others, hothers, rfl⟩ := Option.map_eq_some_iff.1 hrest
    refine Option.bind_eq_some_iff.2 ⟨datum, Value.eval_mono h hdatum, ?_⟩
    exact Option.map_eq_some_iff.2 ⟨others, ih hothers, rfl⟩

theorem Extends.call (h : Extends eval eval') {args : List Datum} {callee datum : Datum}
    (hdatum : callee.call eval args = some datum) : callee.call eval' args = some datum := by
  cases callee with
  | closure params body frames =>
    rw [Datum.call] at hdatum ⊢
    split at hdatum
    · rename_i hlength
      rw [if_pos hlength]
      exact h _ _ _ hdatum
    · cases hdatum
  | literal value => exact hdatum
  | maker constructor fields => exact hdatum
  | boxed content => exact hdatum
  | data constructor fields contents =>
    cases fields with
    | nil =>
      cases contents with
      | nil => exact hdatum
      | cons _ _ => exact hdatum
    | cons _ _ => exact hdatum

theorem Extends.bindings (h : Extends eval eval') {bindings rest : List Binding}
    {frames : List Frame} {names : List Name} {contents : List Datum} {frame : Frame}
    (hframe : Binding.evalList eval bindings frames rest names contents = some frame) :
    Binding.evalList eval' bindings frames rest names contents = some frame := by
  induction rest generalizing names contents with
  | nil => exact hframe
  | cons binding rest ih =>
    obtain ⟨datum, hdatum, hrest⟩ := Option.bind_eq_some_iff.1 hframe
    refine Option.bind_eq_some_iff.2 ⟨datum, ?_, ih hrest⟩
    cases binding with
    | assign name type body => exact h _ _ _ hdatum
    | join name type params body => exact hdatum

theorem Extends.step (h : Extends eval eval') (program : Program) :
    Extends (program.step eval) (program.step eval') := by
  intro frames expr datum hdatum
  have hresolve : ∀ name datum, program.resolve eval frames name = some datum →
      program.resolve eval' frames name = some datum := fun _ _ => h.resolve
  cases expr with
  | value value => exact Value.eval_mono hresolve hdatum
  | apply type function args =>
    obtain ⟨callee, hcallee, hrest⟩ := Option.bind_eq_some_iff.1 hdatum
    obtain ⟨contents, hcontents, hcall⟩ := Option.bind_eq_some_iff.1 hrest
    refine Option.bind_eq_some_iff.2 ⟨callee, Value.callee_mono hresolve hcallee, ?_⟩
    exact Option.bind_eq_some_iff.2
      ⟨contents, Value.evalList_mono hresolve hcontents, h.call hcall⟩
  | unary op operand =>
    obtain ⟨operandDatum, hoperand, hresult⟩ := Option.bind_eq_some_iff.1 hdatum
    exact Option.bind_eq_some_iff.2 ⟨operandDatum, Value.eval_mono hresolve hoperand, hresult⟩
  | binary left op right =>
    obtain ⟨leftDatum, hleft, hrest⟩ := Option.bind_eq_some_iff.1 hdatum
    obtain ⟨rightDatum, hright, hresult⟩ := Option.bind_eq_some_iff.1 hrest
    refine Option.bind_eq_some_iff.2 ⟨leftDatum, Value.eval_mono hresolve hleft, ?_⟩
    exact Option.bind_eq_some_iff.2 ⟨rightDatum, Value.eval_mono hresolve hright, hresult⟩
  | conditional condition consequent alternative =>
    obtain ⟨conditionDatum, hcondition, hbranch⟩ := Option.bind_eq_some_iff.1 hdatum
    refine Option.bind_eq_some_iff.2 ⟨conditionDatum, Value.eval_mono hresolve hcondition, ?_⟩
    split at hbranch
    · exact h _ _ _ hbranch
    · exact h _ _ _ hbranch
    · cases hbranch
  | cases scrutinee cases =>
    obtain ⟨scrutineeDatum, hscrutinee, hrest⟩ := Option.bind_eq_some_iff.1 hdatum
    obtain ⟨selected, hselected, hbody⟩ := Option.bind_eq_some_iff.1 hrest
    refine Option.bind_eq_some_iff.2 ⟨scrutineeDatum, Value.eval_mono hresolve hscrutinee, ?_⟩
    exact Option.bind_eq_some_iff.2 ⟨selected, hselected, h _ _ _ hbody⟩
  | block bindings result =>
    obtain ⟨frame, hframe, hresult⟩ := Option.bind_eq_some_iff.1 hdatum
    exact Option.bind_eq_some_iff.2 ⟨frame, h.bindings hframe, h _ _ _ hresult⟩

end Extends

/-- More fuel does not change a result. -/
theorem Program.eval_succ (program : Program) (fuel : Nat) :
    Extends (program.eval fuel) (program.eval (fuel + 1)) := by
  induction fuel with
  | zero =>
    intro frames expr datum hdatum
    cases hdatum
  | succ fuel ih => exact ih.step program

/-! ## Namespaces -/

def Declaration.constructors : Declaration → List Constructor
  | .data d => d.constructors
  | .definition _ => []

def Declaration.definitions : Declaration → List Definition
  | .data _ => []
  | .definition d => [d]

namespace Namespace

def constructors (ns : Namespace) : List Constructor :=
  ns.declarations.flatMap Declaration.constructors

def definitions (ns : Namespace) : List Definition :=
  ns.declarations.flatMap Declaration.definitions

/-- The fields of a constructor. -/
def fields? (ns : Namespace) (name : ConstructorName) : Option (List FieldName) :=
  (ns.constructors.find? fun constructor => constructor.name = name).map fun constructor =>
    constructor.fields.map Field.name

/-- The program of a namespace, when the names that are bound elsewhere have the given values. -/
def program (ns : Namespace) (outside : Name → Option Datum) : Program where
  fields? := ns.fields?
  body? name :=
    (ns.definitions.find? fun d => Name.binding d.name = name).map Definition.body
  outside := outside

end Namespace

end PolyFront.Lowered
