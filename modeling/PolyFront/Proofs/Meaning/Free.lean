import PolyFront.Proofs.Meaning.Binders

/-!
# Free names and how names are used

A reference is free where no binder around it binds its name.  What the bindings of a block see of
each other is a matter of convention: all names of the block, or those bound before and their own.
Besides, code is looked through for the names that it refers to at function types, and for those
that it binds by patterns or to anything but functions.
-/

namespace PolyFront.Lowered

/-- What the bindings of a block see of each other. -/
inductive Scoping where
  /-- Every binding sees all names of the block. -/
  | whole
  /-- Every binding sees the names that are bound before it, and its own. -/
  | ordered

/-- The names that are visible where a block starts. -/
def Scoping.entered (scoping : Scoping) (bindings : List Binding)
    (visible : List Name) : List Name :=
  match scoping with
  | .whole => bindings.map Binding.name ++ visible
  | .ordered => visible

section Free

variable (scoping : Scoping)

mutual
/-- The names referred to where they are not visible, in order and with repetitions. -/
def Value.free (visible : List Name) : Value → List Name
  | .literal _ => []
  | .reference name _ => if name ∈ visible then [] else [name]
  | .lambda params body => body.free (params.map Param.name ++ visible)
  | .box value => value.free visible
  | .unbox value => value.free visible
def Value.freeList (visible : List Name) : List Value → List Name
  | [] => []
  | value :: rest => value.free visible ++ Value.freeList visible rest
/-- The names referred to where they are not visible, in order and with repetitions. -/
def Expr.free (visible : List Name) : Expr → List Name
  | .value value => value.free visible
  | .apply _ function args => function.free visible ++ Value.freeList visible args
  | .unary _ operand => operand.free visible
  | .binary left _ right => left.free visible ++ right.free visible
  | .conditional condition consequent alternative =>
    condition.free visible ++ consequent.free visible ++ alternative.free visible
  | .cases scrutinee cases => scrutinee.free visible ++ Case.freeList visible cases
  | .block bindings result =>
    Binding.freeList (scoping.entered bindings visible) bindings ++
      result.free (bindings.map Binding.name ++ visible)
def Case.free (visible : List Name) : Case → List Name
  | ⟨pattern, body⟩ => body.free (pattern.boundNames ++ visible)
def Case.freeList (visible : List Name) : List Case → List Name
  | [] => []
  | case :: rest => case.free visible ++ Case.freeList visible rest
def Binding.free (visible : List Name) : Binding → List Name
  | .assign _ _ body => body.free visible
  | .join _ _ params body => body.free (params.map Param.name ++ visible)
def Binding.freeList (visible : List Name) : List Binding → List Name
  | [] => []
  | binding :: rest =>
    binding.free (binding.name :: visible) ++ Binding.freeList (binding.name :: visible) rest
end

theorem Value.freeList_eq (visible : List Name) (values : List Value) :
    Value.freeList scoping visible values = values.flatMap (Value.free scoping visible) := by
  induction values with
  | nil => rfl
  | cons value rest ih => rw [Value.freeList, ih, List.flatMap_cons]

theorem Case.freeList_eq (visible : List Name) (cases : List Case) :
    Case.freeList scoping visible cases = cases.flatMap (Case.free scoping visible) := by
  induction cases with
  | nil => rfl
  | cons case rest ih => rw [Case.freeList, ih, List.flatMap_cons]

theorem Binding.free_eq (visible : List Name) (binding : Binding) :
    binding.free scoping visible = binding.inner.free scoping (binding.paramNames ++ visible) := by
  cases binding with
  | join name type params body => rfl
  | assign name type body =>
    rcases body.function_or_plain with ⟨params, inner, rfl⟩ | ⟨-, hparams, hinner⟩
    · rfl
    · rw [free, paramNames, params?, Binding.inner, hparams, hinner]
      rfl

end Free

/-! ## Uses -/

/-- How a name is used. -/
inductive Use where
  /-- The name is referred to at a function type. -/
  | function (name : Name)
  /-- The name is bound by a pattern, or to a value of another type than a function type. -/
  | plain (name : Name)
deriving DecidableEq

mutual
/-- The references at function types, and the names bound to anything but functions. -/
def Value.uses : Value → List Use
  | .literal _ => []
  | .reference name type => if type.isFunctional then [.function name] else []
  | .lambda _ body => body.uses
  | .box value => value.uses
  | .unbox value => value.uses
def Value.usesList : List Value → List Use
  | [] => []
  | value :: rest => value.uses ++ Value.usesList rest
/-- The references at function types, and the names bound to anything but functions. -/
def Expr.uses : Expr → List Use
  | .value value => value.uses
  | .apply _ function args => function.uses ++ Value.usesList args
  | .unary _ operand => operand.uses
  | .binary left _ right => left.uses ++ right.uses
  | .conditional condition consequent alternative =>
    condition.uses ++ consequent.uses ++ alternative.uses
  | .cases scrutinee cases => scrutinee.uses ++ Case.usesList cases
  | .block bindings result => Binding.usesList bindings ++ result.uses
def Case.uses : Case → List Use
  | ⟨pattern, body⟩ => pattern.boundNames.map .plain ++ body.uses
def Case.usesList : List Case → List Use
  | [] => []
  | case :: rest => case.uses ++ Case.usesList rest
def Binding.uses : Binding → List Use
  | .assign name type body => (if type.isFunctional then [] else [.plain name]) ++ body.uses
  | .join _ _ _ body => body.uses
def Binding.usesList : List Binding → List Use
  | [] => []
  | binding :: rest => binding.uses ++ Binding.usesList rest
end

theorem Value.usesList_eq (values : List Value) :
    Value.usesList values = values.flatMap Value.uses := by
  induction values with
  | nil => rfl
  | cons value rest ih => rw [Value.usesList, ih, List.flatMap_cons]

theorem Case.usesList_eq (cases : List Case) :
    Case.usesList cases = cases.flatMap Case.uses := by
  induction cases with
  | nil => rfl
  | cons case rest ih => rw [Case.usesList, ih, List.flatMap_cons]

theorem Binding.usesList_eq (bindings : List Binding) :
    Binding.usesList bindings = bindings.flatMap Binding.uses := by
  induction bindings with
  | nil => rfl
  | cons binding rest ih => rw [Binding.usesList, ih, List.flatMap_cons]

theorem Binding.inner_uses_subset (binding : Binding) : binding.inner.uses ⊆ binding.uses := by
  cases binding with
  | join name type params body => exact List.Subset.refl _
  | assign name type body =>
    rcases body.function_or_plain with ⟨params, inner, rfl⟩ | ⟨-, -, hinner⟩
    · exact List.subset_append_right _ _
    · rw [Binding.inner, hinner]
      exact List.subset_append_right _ _

/-- No name that the code binds by a pattern, or to a value of another type than a function type,
is referred to at a function type. -/
def Expr.IsSeparate (expr : Expr) : Prop :=
  ∀ name, .plain name ∈ expr.uses → .function name ∉ expr.uses

/-- The name that is bound. -/
def Use.plain? : Use → Option Name
  | .plain name => some name
  | .function _ => none

instance (expr : Expr) : Decidable expr.IsSeparate :=
  decidable_of_iff (∀ name ∈ expr.uses.filterMap Use.plain?, .function name ∉ expr.uses) <| by
    refine forall_congr' fun name => imp_congr_left ?_
    rw [List.mem_filterMap]
    refine ⟨?_, fun hmem => ⟨_, hmem, rfl⟩⟩
    rintro ⟨_ | other, hmem, heq⟩
    · cases heq
    · exact Option.some.inj heq ▸ hmem

end PolyFront.Lowered
