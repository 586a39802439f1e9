import PolyFront.Proofs.Renaming.Collections
import PolyFront.Proofs.Solutions.TypeTerms

/-!
# Renamed types

A type in which every variable takes another name.  Substitution and instantiation commute with a
renaming of variables that keeps different names apart, and what is asked of a type without its
names has the same answer.
-/

namespace PolyFront

namespace Ty

mutual
/-- The type with every named variable renamed, bound or free. -/
def rename (f : String → String) : Ty → Ty
  | .var quantifier name kind => .var quantifier (f name) kind
  | .unsolved id kind => .unsolved id kind
  | .constructor name kind => .constructor name kind
  | .apply head args kind => .apply (rename f head) (renameList f args) kind
  | .quantified binders body kind => .quantified (renameList f binders) (rename f body) kind
  | .builtIn type => .builtIn type
def renameList (f : String → String) : List Ty → List Ty
  | [] => []
  | type :: rest => rename f type :: renameList f rest
end

theorem renameList_eq_map (f : String → String) (types : List Ty) :
    renameList f types = types.map (rename f) := by
  induction types with
  | nil => rfl
  | cons type rest ih => rw [renameList, ih, List.map_cons]

section Equations

variable (f : String → String)

@[simp]
theorem rename_var (quantifier : Quantifier) (name : String) (kind : Kind) :
    (Ty.var quantifier name kind).rename f = .var quantifier (f name) kind := rfl

@[simp]
theorem rename_unsolved (id : Nat) (kind : Kind) :
    (Ty.unsolved id kind).rename f = .unsolved id kind := rfl

@[simp]
theorem rename_constructor (name : QualifiedName) (kind : Kind) :
    (Ty.constructor name kind).rename f = .constructor name kind := rfl

@[simp]
theorem rename_apply (head : Ty) (args : List Ty) (kind : Kind) :
    (Ty.apply head args kind).rename f = .apply (head.rename f) (args.map (rename f)) kind := by
  rw [rename, renameList_eq_map]

@[simp]
theorem rename_quantified (binders : List Ty) (body : Ty) (kind : Kind) :
    (Ty.quantified binders body kind).rename f =
      .quantified (binders.map (rename f)) (body.rename f) kind := by
  rw [rename, renameList_eq_map]

@[simp]
theorem rename_builtIn (type : BuiltIn) : (Ty.builtIn type).rename f = .builtIn type := rfl

@[simp]
theorem rename_function (args : List Ty) (result : Ty) :
    (function args result).rename f = function (args.map (rename f)) (result.rename f) := by
  simp [function]

end Equations

/-! ## What does not depend on names -/

section Names

variable (f : String → String)

@[simp]
theorem kind_rename (type : Ty) : (type.rename f).kind = type.kind := by
  cases type <;> simp [kind]

theorem binderName?_rename (type : Ty) :
    (type.rename f).binderName? = type.binderName?.map f := by
  cases type <;> simp [binderName?]

theorem filterMap_binderName?_rename (binders : List Ty) :
    (binders.map (rename f)).filterMap binderName? = (binders.filterMap binderName?).map f := by
  rw [List.filterMap_map, List.map_filterMap]
  exact congrArg (List.filterMap · binders) (funext (binderName?_rename f))

theorem function?_rename (type : Ty) :
    (type.rename f).function? =
      type.function?.map fun (params, result) => (params.map (rename f), result.rename f) := by
  cases type with
  | apply head args kind =>
    cases head with
    | builtIn type =>
      cases type with
      | function arity =>
        rw [rename_apply, rename_builtIn, function?, List.getLast?_map, function?,
          Option.map_map, Option.map_map]
        simp only [Function.comp_def, List.map_dropLast]
      | _ => simp [function?]
    | _ => simp [function?]
  | _ => simp [function?]

@[simp]
theorem weight_rename (type : Ty) : (type.rename f).weight = type.weight := by
  have hlist : ∀ types : List Ty, (∀ type ∈ types, (type.rename f).weight = type.weight) →
      weightList (types.map (rename f)) = weightList types := by
    intro types htypes
    induction types with
    | nil => rfl
    | cons type rest ih =>
      rw [List.map_cons, weightList, weightList, htypes type List.mem_cons_self,
        ih fun other hother => htypes other (List.mem_cons_of_mem _ hother)]
  induction type with
  | apply head args kind ihHead ihArgs =>
    rw [rename_apply, weight, weight, ihHead, hlist args ihArgs]
  | quantified binders body kind ihBinders ihBody =>
    rw [rename_quantified, weight, weight, ihBody, hlist binders ihBinders]
  | _ => simp [weight]

theorem total_weight_rename (types : List Ty) :
    total weight (types.map (rename f)) = total weight types := by
  induction types with
  | nil => rfl
  | cons type rest ih => rw [List.map_cons, total_cons, total_cons, weight_rename, ih]

theorem unknowns_rename (type : Ty) : (type.rename f).unknowns = type.unknowns := by
  induction type with
  | apply head args kind ihHead ihArgs =>
    have hargs : args.flatMap (fun arg => (arg.rename f).unknowns) = args.flatMap unknowns := by
      rw [List.flatMap_def, List.flatMap_def, List.map_congr_left ihArgs]
    rw [rename_apply, unknowns_apply, unknowns_apply, ihHead, List.flatMap_map, hargs]
  | quantified binders body kind _ ihBody =>
    rw [rename_quantified, unknowns_quantified, unknowns_quantified, ihBody]
  | _ => simp [unknowns, Walk.items, Walk.run, walk]

@[simp]
theorem occurs_rename (id : Nat) (type : Ty) : (type.rename f).occurs id = type.occurs id := by
  rw [occurs, unknowns_rename, occurs]

theorem pickType_rename {α : Type} (frames : List (Frame α)) (left right : Ty) :
    PolyFront.pickType frames (left.rename f) (right.rename f) =
      (PolyFront.pickType frames left right).rename f := by
  cases left <;> cases right <;> simp [PolyFront.pickType]
  split <;> simp

end Names

section Injective

variable {f : String → String}

mutual
theorem same_rename (hf : Function.Injective f) (a b : Ty) :
    same (a.rename f) (b.rename f) = same a b := by
  cases a <;> cases b <;> simp [same, beq_of_injective hf]
  case apply.apply head args kind head' args' kind' =>
    rw [same_rename hf head head', sameList_rename hf args args']
  case quantified.quantified binders body kind binders' body' kind' =>
    rw [same_rename hf body body', sameList_rename hf binders binders']
theorem sameList_rename (hf : Function.Injective f) (as bs : List Ty) :
    sameList (as.map (rename f)) (bs.map (rename f)) = sameList as bs := by
  cases as <;> cases bs <;> simp [sameList]
  case cons.cons a as b bs => rw [same_rename hf a b, sameList_rename hf as bs]
end

variable (hf : Function.Injective f)
include hf

theorem beq_rename (a b : Ty) : (a.rename f == b.rename f) = (a == b) := same_rename hf a b

/-- Instantiation of renamed variables by renamed types. -/
theorem instantiate_rename (assignment : Table String Ty) (type : Ty) :
    (type.rename f).instantiate (assignment.rename f (rename f)) =
      (type.instantiate assignment).rename f := by
  induction type generalizing assignment with
  | var quantifier name kind =>
    rw [rename_var, instantiate, Table.get?_rename hf, instantiate]
    cases assignment.get? name <;> simp
  | apply head args kind ihHead ihArgs =>
    rw [rename_apply, instantiate, ihHead, instantiateList_eq_map, List.map_map, instantiate,
      instantiateList_eq_map, rename_apply, List.map_map]
    refine congrArg (Ty.apply _ · kind) (List.map_congr_left fun arg harg => ?_)
    exact ihArgs arg harg assignment
  | quantified binders body kind _ ihBody =>
    simp only [rename_quantified, instantiate, filterMap_binderName?_rename,
      Table.foldl_erase_rename hf, ihBody]
  | unsolved id kind => simp [instantiate]
  | constructor name kind => simp [instantiate]
  | builtIn type => simp [instantiate]

end Injective

/-! ## Substitution -/

/-- Binding the unsolved variables of a renamed type to renamed types. -/
theorem bind_rename (f : String → String) {h h' : Nat → Kind → Ty}
    (hvar : ∀ id kind, h' id kind = (h id kind).rename f) (g : Kind → Kind) (type : Ty) :
    (type.rename f).bind h' g = (type.bind h g).rename f := by
  induction type with
  | apply head args kind ihHead ihArgs =>
    rw [rename_apply, bind_apply, ihHead, List.map_map, bind_apply, rename_apply, List.map_map]
    exact congrArg (Ty.apply _ · _) (List.map_congr_left ihArgs)
  | quantified binders body kind ihBinders ihBody =>
    rw [rename_quantified, bind_quantified, ihBody, List.map_map, bind_quantified,
      rename_quantified, List.map_map]
    exact congrArg (Ty.quantified · _ _) (List.map_congr_left ihBinders)
  | unsolved id kind => simp [hvar]
  | _ => simp

section Substitution

variable {f : String → String} (hf : Function.Injective f) (types : Partition Ty)
  (kinds : Partition Kind)
include hf

theorem expand_rename (fuel : Nat) (seen : List Nat) (id : Nat) (kind : Kind) :
    expand (types.map (rename f)) kinds fuel seen id kind =
      (expand types kinds fuel seen id kind).rename f := by
  induction fuel generalizing seen id kind with
  | zero => simp [expand]
  | succ fuel ih =>
    have hfind : (types.map (rename f)).find (.unsolved id kind) =
        (types.find (.unsolved id kind)).rename f := by
      rw [← Partition.find_map (beq_rename hf), rename_unsolved]
    by_cases hid : id ∈ seen
    · simp [expand, hid]
    · have hbind := bind_rename f (ih (id :: seen)) (Kind.substitute kinds)
        (types.find (.unsolved id kind))
      rw [expand, if_neg hid, hfind, expand, if_neg hid]
      generalize types.find (.unsolved id kind) = solution at hbind ⊢
      cases solution with
      | apply head args kind => simpa using hbind
      | quantified binders body kind => simpa using hbind
      | _ => simp

theorem substitute_rename (type : Ty) :
    (type.rename f).substitute (types.map (rename f)) kinds =
      (type.substitute types kinds).rename f := by
  rw [substitute, Partition.size_map, substitute]
  exact bind_rename f (expand_rename hf types kinds _ _) _ type

end Substitution

end Ty

end PolyFront
