import PolyFront.Collection.Partition
import PolyFront.Ty.Basic

/-!
# Substitution

Solutions are partitions of kinds and of types: the representative of a variable's
class is its solution.  Substitution replaces every variable by its solution, again and
again; a solution that mentions its own variable is not expanded a second time.
-/

namespace PolyFront

namespace Kind

/-- The full solution of a variable that is not among those already being expanded. Every
expansion is of another element of the partition, so its size is fuel enough. -/
def expand (kinds : Partition Kind) : Nat → List Nat → Nat → Kind
  | 0, _, id => .unsolved id
  | fuel + 1, seen, id =>
    if id ∈ seen then .unsolved id
    else
      let solution := kinds.find (.unsolved id)
      if solution = .unsolved id then solution
      else solution.bind (expand kinds fuel (id :: seen))

/-- Replace every solved variable of a kind. -/
def substitute (kinds : Partition Kind) (kind : Kind) : Kind :=
  kind.bind (expand kinds kinds.size [])

/-- The solved one of two kinds, and the first of two that are solved. -/
def preferSolved (left right : Kind) : Kind := if left.isUnsolved then right else left

/-- Solve variables by `*`. -/
def defaultVariables (kinds : Partition Kind) (ids : List Nat) : Partition Kind :=
  ids.foldl (fun kinds id => kinds.union (.unsolved id) .type preferSolved) kinds

/-- Substitute a kind and solve the variables that are left in it by `*`. -/
def default (kinds : Partition Kind) (kind : Kind) : Kind × Partition Kind :=
  let substituted := kind.substitute kinds
  let solved := defaultVariables kinds substituted.unknowns
  (substituted.substitute solved, solved)

end Kind

namespace Ty

/-- The full solution of a variable that is not among those already being expanded. An
unsolved representative stands for its whole class. -/
def expand (types : Partition Ty) (kinds : Partition Kind) :
    Nat → List Nat → Nat → Kind → Ty
  | 0, _, id, kind => .unsolved id (kind.substitute kinds)
  | fuel + 1, seen, id, kind =>
    let solution := if id ∈ seen then .unsolved id kind else types.find (.unsolved id kind)
    match solution with
    | .unsolved id kind => .unsolved id (kind.substitute kinds)
    | solution => solution.bind (expand types kinds fuel (id :: seen)) (Kind.substitute kinds)

/-- Replace every solved variable of a type, and those of the kinds it carries. -/
def substitute (types : Partition Ty) (kinds : Partition Kind) (type : Ty) : Ty :=
  type.bind (expand types kinds types.size []) (Kind.substitute kinds)

/-- Substitute a type and solve the kind variables that are left in it by `*`. -/
def default (types : Partition Ty) (kinds : Partition Kind) (type : Ty) :
    Ty × Partition Kind :=
  let substituted := type.substitute types kinds
  let solved := Kind.defaultVariables kinds (substituted.kinds.flatMap Kind.unknowns)
  (substituted.substitute types solved, solved)

end Ty

namespace Classifier

def substitute (types : Partition Ty) (kinds : Partition Kind) : Classifier → Classifier
  | .ofKind kind => .ofKind (kind.substitute kinds)
  | .ofType type => .ofType (type.substitute types kinds)

/-- Substitute and solve the kind variables that are left by `*`. -/
def default (types : Partition Ty) (kinds : Partition Kind) :
    Classifier → Classifier × Partition Kind
  | .ofKind kind => ((.ofKind (kind.default kinds).1), (kind.default kinds).2)
  | .ofType type => ((.ofType (type.default types kinds).1), (type.default types kinds).2)

end Classifier

end PolyFront
