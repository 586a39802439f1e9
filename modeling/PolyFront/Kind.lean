import PolyFront.Collection.Walk

/-!
# Kinds

The kind of a proper type is `*`; a type constructor has a higher kind.  Kinds
that are not known yet are unsolved variables.
-/

namespace PolyFront

inductive Kind where
  | type
  | unsolved (id : Nat)
  | higher (args : List Kind) (result : Kind)
deriving Repr, Inhabited

/-- The text of an unsolved variable: `?A1` to `?Z1`, then `?A2` and so on. -/
def unsolvedText (id : Nat) : String :=
  "?" ++ String.singleton (Char.ofNat ('A'.toNat + id % 26)) ++ toString (id / 26 + 1)

namespace Kind

mutual
/-- Equality of kinds as a test. -/
def same : Kind → Kind → Bool
  | .type, .type => true
  | .unsolved a, .unsolved b => a == b
  | .higher args result, .higher args' result' => sameList args args' && same result result'
  | _, _ => false
def sameList : List Kind → List Kind → Bool
  | [], [] => true
  | kind :: rest, kind' :: rest' => same kind kind' && sameList rest rest'
  | _, _ => false
end

mutual
theorem same_iff_eq (a b : Kind) : same a b = true ↔ a = b := by
  cases a <;> cases b <;> simp [same]
  case higher.higher args result args' result' =>
    rw [sameList_iff_eq args args', same_iff_eq result result']
theorem sameList_iff_eq (as bs : List Kind) : sameList as bs = true ↔ as = bs := by
  cases as <;> cases bs <;> simp [sameList]
  case cons.cons kind rest kind' rest' =>
    rw [same_iff_eq kind kind', sameList_iff_eq rest rest']
end

instance : DecidableEq Kind := fun a b => decidable_of_iff _ (same_iff_eq a b)

/-- The kind of a type constructor that takes `arity` proper types. -/
def simple (arity : Nat) : Kind :=
  if arity = 0 then .type else .higher (List.replicate arity .type) .type

def isUnsolved : Kind → Bool
  | .unsolved _ => true
  | _ => false

def isHigher : Kind → Bool
  | .higher _ _ => true
  | _ => false

/-- The arguments and the result of a higher kind. -/
def higher? : Kind → Option (List Kind × Kind)
  | .higher args result => some (args, result)
  | _ => none

mutual
/-- The number of nodes. -/
def weight : Kind → Nat
  | .type => 1
  | .unsolved _ => 1
  | .higher args result => weightList args + weight result + 1
def weightList : List Kind → Nat
  | [] => 0
  | kind :: rest => weight kind + weightList rest
end

theorem weight_pos (kind : Kind) : 0 < kind.weight := by
  cases kind <;> simp [weight]

theorem weightList_eq_total (kinds : List Kind) : weightList kinds = total weight kinds := by
  induction kinds with
  | nil => rfl
  | cons kind rest ih => simp [weightList, ih]

/-- The unsolved variables of a kind, the arguments of a higher kind before its result. -/
def walk : Walk Kind Nat where
  step
    | .type => .skip
    | .unsolved id => .yield id
    | .higher args result => .descend (args ++ [result])
  weight := weight
  weight_pos := weight_pos
  weight_descend := by
    intro kind children h
    cases kind with
    | higher args result =>
      simp only [Step.descend.injEq] at h
      subst h
      simp [weight, weightList_eq_total]
    | _ => simp at h

/-- The unsolved variables in the order they appear, with repetitions. -/
def unknowns (kind : Kind) : List Nat := walk.items kind

def occurs (id : Nat) (kind : Kind) : Bool := kind.unknowns.contains id

mutual
/-- Replace every unsolved variable. -/
def bind (f : Nat → Kind) : Kind → Kind
  | .type => .type
  | .unsolved id => f id
  | .higher args result => .higher (bindList f args) (bind f result)
def bindList (f : Nat → Kind) : List Kind → List Kind
  | [] => []
  | kind :: rest => bind f kind :: bindList f rest
end

mutual
/-- A single argument is bare unless it is higher itself; a result never has
parentheses. -/
def render : Kind → String
  | .type => "*"
  | .unsolved id => unsolvedText id
  | .higher args result =>
    let texts := renderList args
    let left := match args, texts with
      | [arg], [text] => if arg.isHigher then "(" ++ text ++ ")" else text
      | _, texts => "(" ++ ", ".intercalate texts ++ ")"
    left ++ " -> " ++ render result
def renderList : List Kind → List String
  | [] => []
  | kind :: rest => render kind :: renderList rest
end

end Kind

end PolyFront
