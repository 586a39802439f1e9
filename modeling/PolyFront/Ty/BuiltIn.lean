import PolyFront.Kind

/-!
# Built-in types

The ground built-in types, the function arrow of every arity, and the numeric
widenings between them.
-/

namespace PolyFront

inductive BuiltIn where
  | unit
  | boolean
  | char
  | string
  | int
  | long
  | float
  | double
  /-- Applied to `arity` argument types and a result type. -/
  | function (arity : Nat)
deriving DecidableEq, Repr, Inhabited

namespace BuiltIn

/-- Every built-in type that takes no arguments. -/
def ground : List BuiltIn := [.unit, .boolean, .char, .string, .int, .long, .float, .double]

def name : BuiltIn → String
  | .unit => "Unit"
  | .boolean => "Boolean"
  | .char => "Char"
  | .string => "String"
  | .int => "Int"
  | .long => "Long"
  | .float => "Float"
  | .double => "Double"
  | .function _ => "->"

/-- The ground built-in type of the given name. -/
def ofName? (name : String) : Option BuiltIn := ground.find? fun type => type.name == name

def kind : BuiltIn → Kind
  | .function arity => Kind.simple (arity + 1)
  | _ => .type

/-- Types whose values need no allocation. -/
def isPrimitive : BuiltIn → Bool
  | .unit | .string | .function _ => false
  | _ => true

/-- A value of the first type can be widened to the second. -/
def widenings : List (BuiltIn × BuiltIn) := [(.int, .long), (.float, .double)]

/-- Each type is a subtype of itself and of what it widens to. -/
def isSubtypeOf (sub sup : BuiltIn) : Bool := sub == sup || widenings.contains (sub, sup)

theorem isSubtypeOf_refl (type : BuiltIn) : type.isSubtypeOf type = true := by
  simp [isSubtypeOf]

theorem isSubtypeOf_trans {a b c : BuiltIn} (hab : a.isSubtypeOf b = true)
    (hbc : b.isSubtypeOf c = true) : a.isSubtypeOf c = true := by
  simp only [isSubtypeOf, widenings, Bool.or_eq_true, beq_iff_eq, List.contains_iff_mem,
    List.mem_cons, Prod.mk.injEq, List.not_mem_nil, or_false] at *
  grind

end BuiltIn

end PolyFront
