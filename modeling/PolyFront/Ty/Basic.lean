import PolyFront.Name.Basic
import PolyFront.Ty.BuiltIn
import PolyFront.Collection.Table

/-!
# Types

Types with rigid variables, unsolved variables, applications and quantifiers.
Every type carries its kind.
-/

namespace PolyFront

inductive Ty where
  /-- A named variable. -/
  | var (quantifier : Quantifier) (name : String) (kind : Kind)
  | unsolved (id : Nat) (kind : Kind)
  | constructor (name : QualifiedName) (kind : Kind)
  | apply (head : Ty) (args : List Ty) (kind : Kind)
  /-- The binders are named variables. -/
  | quantified (binders : List Ty) (body : Ty) (kind : Kind)
  | builtIn (type : BuiltIn)
deriving Repr, Inhabited

namespace Ty

mutual
/-- Equality of types as a test. Unsolved variables are the same when their ids are,
so that a better known kind does not make another variable. -/
def same : Ty → Ty → Bool
  | .var q name kind, .var q' name' kind' => q == q' && name == name' && kind == kind'
  | .unsolved id _, .unsolved id' _ => id == id'
  | .constructor name kind, .constructor name' kind' => name == name' && kind == kind'
  | .apply head args kind, .apply head' args' kind' =>
    same head head' && sameList args args' && kind == kind'
  | .quantified binders body kind, .quantified binders' body' kind' =>
    sameList binders binders' && same body body' && kind == kind'
  | .builtIn type, .builtIn type' => type == type'
  | _, _ => false
def sameList : List Ty → List Ty → Bool
  | [], [] => true
  | type :: rest, type' :: rest' => same type type' && sameList rest rest'
  | _, _ => false
end

instance : BEq Ty := ⟨same⟩

/-- The type of functions from `args` to `result`. -/
def function (args : List Ty) (result : Ty) : Ty :=
  .apply (.builtIn (.function args.length)) (args ++ [result]) .type

def kind : Ty → Kind
  | .var _ _ kind => kind
  | .unsolved _ kind => kind
  | .constructor _ kind => kind
  | .apply _ _ kind => kind
  | .quantified _ _ kind => kind
  | .builtIn type => type.kind

def isUnsolved : Ty → Bool
  | .unsolved _ _ => true
  | _ => false

/-- The arguments and the result of a function type: an application of the function
arrow to at least a result. -/
def function? : Ty → Option (List Ty × Ty)
  | .apply (.builtIn (.function _)) args _ =>
    args.getLast?.map fun result => (args.dropLast, result)
  | _ => none

def isFunction (type : Ty) : Bool := type.function?.isSome

/-- A function type, once its quantifiers are stripped. -/
def isFunctional : Ty → Bool
  | .quantified _ body _ => body.isFunctional
  | type => type.isFunction

/-- The number of quantifiers around a type. -/
def quantifierDepth : Ty → Nat
  | .quantified _ body _ => body.quantifierDepth + 1
  | _ => 0

/-- The name a variable binds when it stands as a binder. -/
def binderName? : Ty → Option String
  | .var _ name _ => some name
  | _ => none

mutual
/-- The number of nodes. -/
def weight : Ty → Nat
  | .apply head args _ => weight head + weightList args + 1
  | .quantified binders body _ => weightList binders + weight body + 1
  | .var _ _ _ => 1
  | .unsolved _ _ => 1
  | .constructor _ _ => 1
  | .builtIn _ => 1
def weightList : List Ty → Nat
  | [] => 0
  | type :: rest => weight type + weightList rest
end

theorem weight_pos (type : Ty) : 0 < type.weight := by
  cases type <;> simp [weight]

theorem weightList_eq_total (types : List Ty) : weightList types = total weight types := by
  induction types with
  | nil => rfl
  | cons type rest ih => simp [weightList, ih]

/-- The unsolved variables of a type: the head of an application before its
arguments, and the body of a quantified type. -/
def walk : Walk Ty (Nat × Kind) where
  step
    | .unsolved id kind => .yield (id, kind)
    | .apply head args _ => .descend (head :: args)
    | .quantified _ body _ => .descend [body]
    | .var _ _ _ => .skip
    | .constructor _ _ => .skip
    | .builtIn _ => .skip
  weight := weight
  weight_pos := weight_pos
  weight_descend := by
    intro type children h
    cases type with
    | apply head args kind =>
      simp only [Step.descend.injEq] at h
      subst h
      simp [weight, weightList_eq_total]
    | quantified binders body kind =>
      simp only [Step.descend.injEq] at h
      subst h
      simp only [weight, total_cons, total_nil]
      omega
    | _ => simp at h

/-- The unsolved variables in the order they appear, with repetitions. -/
def unknowns (type : Ty) : List (Nat × Kind) := walk.items type

def occurs (id : Nat) (type : Ty) : Bool := type.unknowns.any fun other => other.1 == id

mutual
/-- Replace named variables. Those that an inner quantifier binds are left alone. -/
def instantiate (assignment : Table String Ty) : Ty → Ty
  | .var q name kind => (assignment.get? name).getD (.var q name kind)
  | .apply head args kind =>
    .apply (instantiate assignment head) (instantiateList assignment args) kind
  | .quantified binders body kind =>
    let inner := (binders.filterMap binderName?).foldl Table.erase assignment
    .quantified binders (instantiate inner body) kind
  | .unsolved id kind => .unsolved id kind
  | .constructor name kind => .constructor name kind
  | .builtIn type => .builtIn type
def instantiateList (assignment : Table String Ty) : List Ty → List Ty
  | [] => []
  | type :: rest => instantiate assignment type :: instantiateList assignment rest
end

mutual
/-- Replace unsolved variables by `f` and map every other kind by `g`. -/
def bind (f : Nat → Kind → Ty) (g : Kind → Kind) : Ty → Ty
  | .var q name kind => .var q name (g kind)
  | .unsolved id kind => f id kind
  | .constructor name kind => .constructor name (g kind)
  | .apply head args kind => .apply (bind f g head) (bindList f g args) (g kind)
  | .quantified binders body kind =>
    .quantified (bindList f g binders) (bind f g body) (g kind)
  | .builtIn type => .builtIn type
def bindList (f : Nat → Kind → Ty) (g : Kind → Kind) : List Ty → List Ty
  | [] => []
  | type :: rest => bind f g type :: bindList f g rest
end

mutual
/-- The kinds carried by a type and by the types below it. -/
def kinds : Ty → List Kind
  | .var _ _ kind => [kind]
  | .unsolved _ kind => [kind]
  | .constructor _ kind => [kind]
  | .apply head args kind => kind :: (kinds head ++ kindsList args)
  | .quantified binders body kind => kind :: (kindsList binders ++ kinds body)
  | .builtIn type => [type.kind]
def kindsList : List Ty → List Kind
  | [] => []
  | type :: rest => kinds type ++ kindsList rest
end

mutual
/-- A function with one argument that is no function itself has a bare argument. -/
def render : Ty → String
  | .var _ name _ => name
  | .unsolved id _ => unsolvedText id
  | .constructor name _ => name.name
  | .builtIn type => type.name
  | .quantified binders body _ =>
    "[" ++ ", ".intercalate (renderList binders) ++ "] \x7b " ++ render body ++ " \x7d"
  | .apply head args kind =>
    let texts := renderList args
    match (Ty.apply head args kind).function?, texts.getLast? with
    | some ([arg], _), some result =>
      let left := ", ".intercalate texts.dropLast
      (if arg.isFunction then "(" ++ left ++ ")" else left) ++ " -> " ++ result
    | some _, some result => "(" ++ ", ".intercalate texts.dropLast ++ ") -> " ++ result
    | _, _ => render head ++ "[" ++ ", ".intercalate texts ++ "]"
def renderList : List Ty → List String
  | [] => []
  | type :: rest => render type :: renderList rest
end

end Ty

/-- What a checked node carries: the kind of a type, or the type of a value. -/
inductive Classifier where
  | ofKind (kind : Kind)
  | ofType (type : Ty)
deriving Repr, Inhabited

namespace Classifier

def kind? : Classifier → Option Kind
  | .ofKind kind => some kind
  | .ofType _ => none

def type? : Classifier → Option Ty
  | .ofType type => some type
  | .ofKind _ => none

def render : Classifier → String
  | .ofKind kind => kind.render
  | .ofType type => type.render

end Classifier

/-- The name and the classifier of a checked node. -/
structure Attributes where
  name : Name
  classifier : Classifier
deriving Repr, Inhabited

end PolyFront
