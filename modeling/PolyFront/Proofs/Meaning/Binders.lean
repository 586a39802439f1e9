import Mathlib.Data.List.Basic
import PolyFront.Lowered.Names
import PolyFront.Proofs.Meaning.Evaluation

/-!
# Binders of lowered code

Which names lowered code binds and to what: a binder is a function, with its parameters, or
anything else.  Code is well scoped when every reference to a local name stands where that name
is visible; the names that a block binds are visible in the whole block.
-/

namespace PolyFront.Lowered

/-- What is computed by a binding, once the parameters of a function are given. -/
def Binding.inner : Binding → Expr
  | .assign _ _ body => body.inner
  | .join _ _ _ body => body

/-- Values and expressions hold what they hold of their parts. The body of a function that is
called or bound is a part on its own. -/
theorem induct {P : Value → Prop} {Q : Expr → Prop} (literal : ∀ value, P (.literal value))
    (reference : ∀ name type, P (.reference name type))
    (lambda : ∀ params body, Q body → P (.lambda params body))
    (box : ∀ value, P value → P (.box value)) (unbox : ∀ value, P value → P (.unbox value))
    (value : ∀ value, P value → Q (.value value))
    (apply : ∀ type function args, P function →
      (∀ params body, function = .lambda params body → Q body) → (∀ arg ∈ args, P arg) →
      Q (.apply type function args))
    (unary : ∀ op operand, P operand → Q (.unary op operand))
    (binary : ∀ left op right, P left → P right → Q (.binary left op right))
    (conditional : ∀ condition consequent alternative, P condition → Q consequent →
      Q alternative → Q (.conditional condition consequent alternative))
    (cases : ∀ scrutinee cases, P scrutinee → (∀ case ∈ cases, Q case.body) →
      Q (.cases scrutinee cases))
    (block : ∀ bindings result, (∀ binding ∈ bindings, Q binding.inner) → Q result →
      Q (.block bindings result)) : (∀ value, P value) ∧ ∀ expr, Q expr := by
  have hall : ∀ size, (∀ value : Value, sizeOf value ≤ size → P value) ∧
      ∀ expr : Expr, sizeOf expr ≤ size → Q expr := by
    intro size
    induction size with
    | zero =>
      constructor
      · intro value hsize
        cases value <;> simp at hsize
      · intro expr hsize
        cases expr <;> simp at hsize
    | succ size ih =>
      obtain ⟨ihValue, ihExpr⟩ := ih
      constructor
      · intro value hsize
        cases value <;> simp at hsize
        case literal value => exact literal value
        case reference name type => exact reference name type
        case lambda params body => exact lambda params body (ihExpr body (by omega))
        case box value => exact box value (ihValue value (by omega))
        case unbox value => exact unbox value (ihValue value (by omega))
      · intro expr hsize
        cases expr <;> simp at hsize
        case value value' => exact value value' (ihValue value' (by omega))
        case apply type function args =>
          refine apply type function args (ihValue function (by omega)) ?_ ?_
          · rintro params body rfl
            simp at hsize
            exact ihExpr body (by omega)
          · intro arg harg
            have := List.sizeOf_lt_of_mem harg
            exact ihValue arg (by omega)
        case unary op operand => exact unary op operand (ihValue operand (by omega))
        case binary left op right =>
          exact binary left op right (ihValue left (by omega)) (ihValue right (by omega))
        case conditional condition consequent alternative =>
          exact conditional condition consequent alternative (ihValue condition (by omega))
            (ihExpr consequent (by omega)) (ihExpr alternative (by omega))
        case cases scrutinee cases' =>
          refine cases scrutinee cases' (ihValue scrutinee (by omega)) fun case hcase => ?_
          have := List.sizeOf_lt_of_mem hcase
          have hbody : sizeOf case.body < sizeOf case := by
            cases case
            simp only [Case.mk.sizeOf_spec]
            omega
          exact ihExpr case.body (by omega)
        case block bindings result =>
          refine block bindings result (fun binding hbinding => ?_) (ihExpr result (by omega))
          have := List.sizeOf_lt_of_mem hbinding
          have hinner : sizeOf binding.inner < sizeOf binding := by
            cases binding with
            | join name type params body =>
              simp only [Binding.inner, Binding.join.sizeOf_spec]
              omega
            | assign name type body =>
              simp only [Binding.inner, Expr.inner, Binding.assign.sizeOf_spec]
              split
              · simp only [Expr.value.sizeOf_spec, Value.lambda.sizeOf_spec]
                omega
              · omega
          exact ihExpr binding.inner (by omega)
  exact ⟨fun value => (hall (sizeOf value)).1 value (Nat.le_refl _),
    fun expr => (hall (sizeOf expr)).2 expr (Nat.le_refl _)⟩

/-! ## Binders -/

/-- Names that are not bound to functions. -/
def plainBinders (names : List Name) : List (Name × Option (List Name)) :=
  names.map fun name => (name, none)

mutual
/-- The names bound anywhere inside, with the parameters of those that are functions. -/
def Value.binders : Value → List (Name × Option (List Name))
  | .literal _ => []
  | .reference _ _ => []
  | .lambda params body => plainBinders (params.map Param.name) ++ body.binders
  | .box value => value.binders
  | .unbox value => value.binders
def Value.bindersList : List Value → List (Name × Option (List Name))
  | [] => []
  | value :: rest => value.binders ++ Value.bindersList rest
/-- The names bound anywhere inside, with the parameters of those that are functions. -/
def Expr.binders : Expr → List (Name × Option (List Name))
  | .value value => value.binders
  | .apply _ function args => function.binders ++ Value.bindersList args
  | .unary _ operand => operand.binders
  | .binary left _ right => left.binders ++ right.binders
  | .conditional condition consequent alternative =>
    condition.binders ++ consequent.binders ++ alternative.binders
  | .cases scrutinee cases => scrutinee.binders ++ Case.bindersList cases
  | .block bindings result => Binding.bindersList bindings ++ result.binders
def Case.binders : Case → List (Name × Option (List Name))
  | ⟨pattern, body⟩ => plainBinders pattern.boundNames ++ body.binders
def Case.bindersList : List Case → List (Name × Option (List Name))
  | [] => []
  | case :: rest => case.binders ++ Case.bindersList rest
def Binding.binders : Binding → List (Name × Option (List Name))
  | .join name _ params body =>
    (name, some (params.map Param.name)) ::
      (plainBinders (params.map Param.name) ++ body.binders)
  | .assign name _ (.value (.lambda params body)) =>
    (name, some (params.map Param.name)) ::
      (plainBinders (params.map Param.name) ++ body.binders)
  | .assign name _ body => (name, none) :: body.binders
def Binding.bindersList : List Binding → List (Name × Option (List Name))
  | [] => []
  | binding :: rest => binding.binders ++ Binding.bindersList rest
end

mutual
/-- The operands that are references at other than function types. -/
def Value.plainReferences : Value → List Name
  | .literal _ => []
  | .reference name type => if type.isFunctional then [] else [name]
  | .lambda _ body => body.plainReferences
  | .box value => value.plainReferences
  | .unbox value => value.plainReferences
def Value.plainReferencesList : List Value → List Name
  | [] => []
  | value :: rest => value.plainReferences ++ Value.plainReferencesList rest
/-- What is called is no operand if it is a reference. -/
def Expr.plainReferences : Expr → List Name
  | .value value => value.plainReferences
  | .apply _ (.reference _ _) args => Value.plainReferencesList args
  | .apply _ function args => function.plainReferences ++ Value.plainReferencesList args
  | .unary _ operand => operand.plainReferences
  | .binary left _ right => left.plainReferences ++ right.plainReferences
  | .conditional condition consequent alternative =>
    condition.plainReferences ++ consequent.plainReferences ++ alternative.plainReferences
  | .cases scrutinee cases => scrutinee.plainReferences ++ Case.plainReferencesList cases
  | .block bindings result =>
    Binding.plainReferencesList bindings ++ result.plainReferences
def Case.plainReferences : Case → List Name
  | ⟨_, body⟩ => body.plainReferences
def Case.plainReferencesList : List Case → List Name
  | [] => []
  | case :: rest => case.plainReferences ++ Case.plainReferencesList rest
def Binding.plainReferences : Binding → List Name
  | .assign _ _ body => body.plainReferences
  | .join _ _ _ body => body.plainReferences
def Binding.plainReferencesList : List Binding → List Name
  | [] => []
  | binding :: rest => binding.plainReferences ++ Binding.plainReferencesList rest
end

mutual
/-- Every reference to a local name stands where the name is visible. -/
def Value.isScoped (locals visible : List Name) : Value → Bool
  | .literal _ => true
  | .reference name _ => !locals.contains name || visible.contains name
  | .lambda params body => body.isScoped locals (params.map Param.name ++ visible)
  | .box value => value.isScoped locals visible
  | .unbox value => value.isScoped locals visible
def Value.isScopedList (locals visible : List Name) : List Value → Bool
  | [] => true
  | value :: rest => value.isScoped locals visible && Value.isScopedList locals visible rest
/-- Every reference to a local name stands where the name is visible. -/
def Expr.isScoped (locals visible : List Name) : Expr → Bool
  | .value value => value.isScoped locals visible
  | .apply _ function args =>
    function.isScoped locals visible && Value.isScopedList locals visible args
  | .unary _ operand => operand.isScoped locals visible
  | .binary left _ right => left.isScoped locals visible && right.isScoped locals visible
  | .conditional condition consequent alternative =>
    condition.isScoped locals visible && consequent.isScoped locals visible &&
      alternative.isScoped locals visible
  | .cases scrutinee cases =>
    scrutinee.isScoped locals visible && Case.isScopedList locals visible cases
  | .block bindings result =>
    Binding.isScopedList locals (bindings.map Binding.name ++ visible) bindings &&
      result.isScoped locals (bindings.map Binding.name ++ visible)
def Case.isScoped (locals visible : List Name) : Case → Bool
  | ⟨pattern, body⟩ => body.isScoped locals (pattern.boundNames ++ visible)
def Case.isScopedList (locals visible : List Name) : List Case → Bool
  | [] => true
  | case :: rest => case.isScoped locals visible && Case.isScopedList locals visible rest
def Binding.isScoped (locals visible : List Name) : Binding → Bool
  | .assign _ _ body => body.isScoped locals visible
  | .join _ _ params body => body.isScoped locals (params.map Param.name ++ visible)
def Binding.isScopedList (locals visible : List Name) : List Binding → Bool
  | [] => true
  | binding :: rest =>
    binding.isScoped locals visible && Binding.isScopedList locals visible rest
end

/-! ## Lists -/

section Lists

variable (locals visible : List Name)

theorem Value.referencesList_eq (values : List Value) :
    Value.referencesList values = values.flatMap Value.references := by
  induction values with
  | nil => rfl
  | cons value rest ih => rw [Value.referencesList, ih, List.flatMap_cons]

theorem Value.boundNamesList_eq (values : List Value) :
    Value.boundNamesList values = values.flatMap Value.boundNames := by
  induction values with
  | nil => rfl
  | cons value rest ih => rw [Value.boundNamesList, ih, List.flatMap_cons]

theorem Value.bindersList_eq (values : List Value) :
    Value.bindersList values = values.flatMap Value.binders := by
  induction values with
  | nil => rfl
  | cons value rest ih => rw [Value.bindersList, ih, List.flatMap_cons]

theorem Value.isScopedList_eq (values : List Value) :
    Value.isScopedList locals visible values = values.all (Value.isScoped locals visible) := by
  induction values with
  | nil => rfl
  | cons value rest ih => rw [Value.isScopedList, ih, List.all_cons]

theorem Case.referencesList_eq (cases : List Case) :
    Case.referencesList cases = cases.flatMap Case.references := by
  induction cases with
  | nil => rfl
  | cons case rest ih => rw [Case.referencesList, ih, List.flatMap_cons]

theorem Case.boundNamesList_eq (cases : List Case) :
    Case.boundNamesList cases = cases.flatMap Case.boundNames := by
  induction cases with
  | nil => rfl
  | cons case rest ih => rw [Case.boundNamesList, ih, List.flatMap_cons]

theorem Case.bindersList_eq (cases : List Case) :
    Case.bindersList cases = cases.flatMap Case.binders := by
  induction cases with
  | nil => rfl
  | cons case rest ih => rw [Case.bindersList, ih, List.flatMap_cons]

theorem Case.plainReferencesList_eq (cases : List Case) :
    Case.plainReferencesList cases = cases.flatMap Case.plainReferences := by
  induction cases with
  | nil => rfl
  | cons case rest ih => rw [Case.plainReferencesList, ih, List.flatMap_cons]

theorem Case.isScopedList_eq (cases : List Case) :
    Case.isScopedList locals visible cases = cases.all (Case.isScoped locals visible) := by
  induction cases with
  | nil => rfl
  | cons case rest ih => rw [Case.isScopedList, ih, List.all_cons]

theorem Binding.referencesList_eq (bindings : List Binding) :
    Binding.referencesList bindings = bindings.flatMap Binding.references := by
  induction bindings with
  | nil => rfl
  | cons binding rest ih => rw [Binding.referencesList, ih, List.flatMap_cons]

theorem Binding.boundNamesList_eq (bindings : List Binding) :
    Binding.boundNamesList bindings = bindings.flatMap Binding.boundNames := by
  induction bindings with
  | nil => rfl
  | cons binding rest ih => rw [Binding.boundNamesList, ih, List.flatMap_cons]

theorem Binding.bindersList_eq (bindings : List Binding) :
    Binding.bindersList bindings = bindings.flatMap Binding.binders := by
  induction bindings with
  | nil => rfl
  | cons binding rest ih => rw [Binding.bindersList, ih, List.flatMap_cons]

theorem Binding.plainReferencesList_eq (bindings : List Binding) :
    Binding.plainReferencesList bindings = bindings.flatMap Binding.plainReferences := by
  induction bindings with
  | nil => rfl
  | cons binding rest ih => rw [Binding.plainReferencesList, ih, List.flatMap_cons]

theorem Binding.isScopedList_eq (bindings : List Binding) :
    Binding.isScopedList locals visible bindings =
      bindings.all (Binding.isScoped locals visible) := by
  induction bindings with
  | nil => rfl
  | cons binding rest ih => rw [Binding.isScopedList, ih, List.all_cons]

end Lists

/-! ## Bindings as functions -/

/-- The parameters of the function that a binding binds. -/
def Binding.params? : Binding → Option (List Param)
  | .join _ _ params _ => some params
  | .assign _ _ body => body.params?

/-- The names that are visible only inside of a binding. -/
def Binding.paramNames (binding : Binding) : List Name :=
  (binding.params?.getD []).map Param.name

/-- An expression is a function or has no parameters. -/
theorem Expr.function_or_plain (expr : Expr) :
    (∃ params body, expr = .value (.lambda params body)) ∨
      (∀ params body, expr ≠ .value (.lambda params body)) ∧ expr.params? = none ∧
        expr.inner = expr := by
  cases expr with
  | value value =>
    cases value with
    | lambda params body => exact .inl ⟨params, body, rfl⟩
    | _ => exact .inr ⟨(fun _ _ heq => nomatch heq), rfl, rfl⟩
  | _ => exact .inr ⟨(fun _ _ heq => nomatch heq), rfl, rfl⟩

theorem Binding.binders_eq (binding : Binding) :
    binding.binders = (binding.name, binding.params?.map (·.map Param.name)) ::
      (plainBinders binding.paramNames ++ binding.inner.binders) := by
  cases binding with
  | join name type params body => rw [binders]; rfl
  | assign name type body =>
    rcases body.function_or_plain with ⟨params, inner, rfl⟩ | ⟨hplain, hparams, hinner⟩
    · rw [binders]
      rfl
    · rw [binders, paramNames, params?, Binding.inner, hparams, hinner]
      · rfl
      · exact hplain

theorem Binding.references_eq (binding : Binding) :
    binding.references = binding.inner.references := by
  cases binding with
  | join name type params body => rfl
  | assign name type body =>
    rcases body.function_or_plain with ⟨params, inner, rfl⟩ | ⟨-, -, hinner⟩
    · rfl
    · rw [references, Binding.inner, hinner]

theorem Binding.boundNames_eq (binding : Binding) :
    binding.boundNames =
      binding.name :: (binding.paramNames ++ binding.inner.boundNames) := by
  cases binding with
  | join name type params body => rfl
  | assign name type body =>
    rcases body.function_or_plain with ⟨params, inner, rfl⟩ | ⟨-, hparams, hinner⟩
    · rfl
    · rw [boundNames, paramNames, params?, Binding.inner, hparams, hinner]
      rfl

theorem Binding.plainReferences_eq (binding : Binding) :
    binding.plainReferences = binding.inner.plainReferences := by
  cases binding with
  | join name type params body => rfl
  | assign name type body =>
    rcases body.function_or_plain with ⟨params, inner, rfl⟩ | ⟨-, -, hinner⟩
    · rfl
    · rw [plainReferences, Binding.inner, hinner]

theorem Binding.isScoped_eq (locals visible : List Name) (binding : Binding) :
    binding.isScoped locals visible =
      binding.inner.isScoped locals (binding.paramNames ++ visible) := by
  cases binding with
  | join name type params body => rfl
  | assign name type body =>
    rcases body.function_or_plain with ⟨params, inner, rfl⟩ | ⟨-, hparams, hinner⟩
    · rfl
    · rw [isScoped, paramNames, params?, Binding.inner, hparams, hinner]
      rfl

/-! ## What binders tell -/

theorem map_fst_plainBinders (names : List Name) :
    (plainBinders names).map Prod.fst = names := by
  rw [plainBinders, List.map_map]
  exact List.map_id names

/-- The binders are the bound names. -/
theorem map_fst_binders : (∀ value : Value, value.binders.map Prod.fst = value.boundNames) ∧
    ∀ expr : Expr, expr.binders.map Prod.fst = expr.boundNames := by
  have hvalues : ∀ values : List Value, (∀ value ∈ values,
      value.binders.map Prod.fst = value.boundNames) →
      (Value.bindersList values).map Prod.fst = Value.boundNamesList values := by
    intro values hvalues
    rw [Value.bindersList_eq, Value.boundNamesList_eq, List.map_flatMap]
    exact List.flatMap_congr hvalues
  refine induct ?_ ?_ ?_ ?_ ?_ ?_ ?_ ?_ ?_ ?_ ?_ ?_
  · exact fun value => rfl
  · exact fun name type => rfl
  · intro params body ih
    rw [Value.binders, Value.boundNames, List.map_append, map_fst_plainBinders, ih]
  · exact fun value ih => ih
  · exact fun value ih => ih
  · exact fun value ih => ih
  · intro type function args ihFunction _ ihArgs
    rw [Expr.binders, Expr.boundNames, List.map_append, ihFunction, hvalues args ihArgs]
  · exact fun op operand ih => ih
  · intro left op right ihLeft ihRight
    rw [Expr.binders, Expr.boundNames, List.map_append, ihLeft, ihRight]
  · intro condition consequent alternative ihCondition ihConsequent ihAlternative
    rw [Expr.binders, Expr.boundNames, List.map_append, List.map_append, ihCondition,
      ihConsequent, ihAlternative]
  · intro scrutinee cases ihScrutinee ihCases
    rw [Expr.binders, Expr.boundNames, List.map_append, ihScrutinee, Case.bindersList_eq,
      Case.boundNamesList_eq, List.map_flatMap]
    congr 1
    refine List.flatMap_congr fun case hcase => ?_
    have hbody := ihCases case hcase
    obtain ⟨pattern, body⟩ := case
    rw [Case.binders, Case.boundNames, List.map_append, map_fst_plainBinders, hbody]
  · intro bindings result ihBindings ihResult
    rw [Expr.binders, Expr.boundNames, List.map_append, ihResult, Binding.bindersList_eq,
      Binding.boundNamesList_eq, List.map_flatMap]
    congr 1
    refine List.flatMap_congr fun binding hbinding => ?_
    rw [Binding.binders_eq, Binding.boundNames_eq, List.map_cons, List.map_append,
      map_fst_plainBinders, ihBindings binding hbinding]

theorem Value.map_fst_binders (value : Value) :
    value.binders.map Prod.fst = value.boundNames :=
  Lowered.map_fst_binders.1 value

theorem Expr.map_fst_binders (expr : Expr) : expr.binders.map Prod.fst = expr.boundNames :=
  Lowered.map_fst_binders.2 expr

theorem not_mem_plainBinders {names : List Name} {name : Name} {params : List Name} :
    (name, some params) ∉ plainBinders names := by
  simp [plainBinders]

/-- The parameters of a function are bound where the function is, and not to functions. -/
theorem params_bound {f : Name} {params : List Name} {p : Name} (hp : p ∈ params) :
    (∀ value : Value, (f, some params) ∈ value.binders → (p, none) ∈ value.binders) ∧
    ∀ expr : Expr, (f, some params) ∈ expr.binders → (p, none) ∈ expr.binders := by
  have hvalues : ∀ values : List Value, (∀ value ∈ values,
      (f, some params) ∈ value.binders → (p, none) ∈ value.binders) →
      (f, some params) ∈ Value.bindersList values → (p, none) ∈ Value.bindersList values := by
    intro values hvalues hmem
    rw [Value.bindersList_eq, List.mem_flatMap] at hmem ⊢
    obtain ⟨value, hvalue, hmem⟩ := hmem
    exact ⟨value, hvalue, hvalues value hvalue hmem⟩
  refine induct ?_ ?_ ?_ ?_ ?_ ?_ ?_ ?_ ?_ ?_ ?_ ?_
  · intro value hmem
    cases hmem
  · intro name type hmem
    cases hmem
  · intro params' body ih hmem
    rw [Value.binders, List.mem_append] at hmem ⊢
    exact .inr (ih (hmem.resolve_left not_mem_plainBinders))
  · exact fun value ih => ih
  · exact fun value ih => ih
  · exact fun value ih => ih
  · intro type function args ihFunction _ ihArgs hmem
    rw [Expr.binders, List.mem_append] at hmem ⊢
    exact hmem.imp ihFunction (hvalues args ihArgs)
  · exact fun op operand ih => ih
  · intro left op right ihLeft ihRight hmem
    rw [Expr.binders, List.mem_append] at hmem ⊢
    exact hmem.imp ihLeft ihRight
  · intro condition consequent alternative ihCondition ihConsequent ihAlternative hmem
    rw [Expr.binders, List.mem_append, List.mem_append] at hmem ⊢
    exact hmem.imp (·.imp ihCondition ihConsequent) ihAlternative
  · intro scrutinee cases ihScrutinee ihCases hmem
    rw [Expr.binders, List.mem_append, Case.bindersList_eq, List.mem_flatMap] at hmem ⊢
    refine hmem.imp ihScrutinee ?_
    rintro ⟨⟨pattern, body⟩, hcase, hmem⟩
    refine ⟨_, hcase, ?_⟩
    rw [Case.binders, List.mem_append] at hmem ⊢
    exact .inr (ihCases _ hcase (hmem.resolve_left not_mem_plainBinders))
  · intro bindings result ihBindings ihResult hmem
    rw [Expr.binders, List.mem_append, Binding.bindersList_eq, List.mem_flatMap] at hmem ⊢
    refine hmem.imp ?_ ihResult
    rintro ⟨binding, hbinding, hmem⟩
    refine ⟨binding, hbinding, ?_⟩
    rw [Binding.binders_eq, List.mem_cons, List.mem_append] at hmem ⊢
    rcases hmem with heq | hmem | hmem
    · obtain ⟨-, hparams⟩ := Prod.mk.inj heq
      obtain ⟨list, hlist, rfl⟩ := Option.map_eq_some_iff.1 hparams.symm
      rw [Binding.paramNames, hlist]
      exact .inr (.inl (List.mem_map_of_mem hp))
    · exact (not_mem_plainBinders hmem).elim
    · exact .inr (.inr (ihBindings binding hbinding hmem))

/-- Names that are bound in front of code are visible in it. -/
theorem mem_of_visible {name : Name} {names visible bound : List Name}
    (h : name ∈ names ++ visible ∨ name ∈ bound) : name ∈ visible ∨ name ∈ names ++ bound := by
  rw [List.mem_append] at h ⊢
  rcases h with (hmem | hmem) | hmem
  · exact .inr (.inl hmem)
  · exact .inl hmem
  · exact .inr (.inr hmem)

/-- A local name that the value refers to is visible or bound in it. -/
def Value.RefersTo (locals : List Name) (name : Name) (value : Value) : Prop :=
  ∀ visible : List Name, value.isScoped locals visible = true → name ∈ value.references →
    name ∈ visible ∨ name ∈ value.boundNames

/-- A local name that the expression refers to is visible or bound in it. -/
def Expr.RefersTo (locals : List Name) (name : Name) (expr : Expr) : Prop :=
  ∀ visible : List Name, expr.isScoped locals visible = true → name ∈ expr.references →
    name ∈ visible ∨ name ∈ expr.boundNames

section RefersTo

variable {locals : List Name} {name : Name}

theorem Value.RefersTo.list {values : List Value}
    (h : ∀ value ∈ values, value.RefersTo locals name) {visible : List Name}
    (hscoped : Value.isScopedList locals visible values = true)
    (hmem : name ∈ Value.referencesList values) :
    name ∈ visible ∨ name ∈ Value.boundNamesList values := by
  rw [Value.isScopedList_eq, List.all_eq_true] at hscoped
  rw [Value.referencesList_eq, List.mem_flatMap] at hmem
  rw [Value.boundNamesList_eq, List.mem_flatMap]
  obtain ⟨value, hvalue, hmem⟩ := hmem
  exact (h value hvalue visible (hscoped value hvalue) hmem).imp_right
    fun hbound => ⟨value, hvalue, hbound⟩

/-- The names of a block are visible in all of it. -/
theorem Expr.refersTo_block {bindings : List Binding} {result : Expr}
    (hbindings : ∀ binding ∈ bindings, binding.inner.RefersTo locals name)
    (hresult : result.RefersTo locals name) : (Expr.block bindings result).RefersTo locals name :=
        by
  intro visible hscoped hmem
  rw [Expr.isScoped, Bool.and_eq_true, Binding.isScopedList_eq, List.all_eq_true] at hscoped
  rw [Expr.references, List.mem_append, Binding.referencesList_eq, List.mem_flatMap] at hmem
  rw [Expr.boundNames, List.mem_append, Binding.boundNamesList_eq, List.mem_flatMap]
  have hblock : name ∈ bindings.map Binding.name ++ visible →
      name ∈ visible ∨ (∃ binding ∈ bindings, name ∈ binding.boundNames) ∨
        name ∈ result.boundNames := by
    intro hmem
    rcases List.mem_append.1 hmem with hmem | hmem
    · obtain ⟨binding, hbinding, rfl⟩ := List.mem_map.1 hmem
      refine .inr (.inl ⟨binding, hbinding, ?_⟩)
      rw [Binding.boundNames_eq]
      exact List.mem_cons_self
    · exact .inl hmem
  rcases hmem with ⟨binding, hbinding, hmem⟩ | hmem
  · have hinner := hscoped.1 binding hbinding
    rw [Binding.isScoped_eq] at hinner
    rw [Binding.references_eq] at hmem
    rcases mem_of_visible (hbindings binding hbinding _ hinner hmem) with hmem | hmem
    · exact hblock hmem
    · refine .inr (.inl ⟨binding, hbinding, ?_⟩)
      rw [Binding.boundNames_eq]
      exact List.mem_cons_of_mem _ hmem
  · rcases hresult _ hscoped.2 hmem with hmem | hmem
    · exact hblock hmem
    · exact .inr (.inr hmem)

/-- Well-scoped code refers to local names that are visible or bound inside. -/
theorem references_of_isScoped (hlocal : name ∈ locals) :
    (∀ value : Value, value.RefersTo locals name) ∧ ∀ expr : Expr, expr.RefersTo locals name := by
  refine induct ?_ ?_ ?_ ?_ ?_ ?_ ?_ ?_ ?_ ?_ ?_ ?_
  · intro value visible _ hmem
    cases hmem
  · intro other type visible hscoped hmem
    obtain rfl : name = other := by simpa [Value.references] using hmem
    rw [Value.isScoped, Bool.or_eq_true] at hscoped
    rcases hscoped with hscoped | hscoped
    · rw [Bool.not_eq_true', ← Bool.not_eq_true, List.contains_iff_mem] at hscoped
      exact (hscoped hlocal).elim
    · exact .inl (List.contains_iff_mem.1 hscoped)
  · intro params body ih visible hscoped hmem
    exact mem_of_visible (ih _ hscoped hmem)
  · exact fun value ih => ih
  · exact fun value ih => ih
  · exact fun value ih => ih
  · intro type function args ihFunction _ ihArgs visible hscoped hmem
    rw [Expr.isScoped, Bool.and_eq_true] at hscoped
    rw [Expr.references, List.mem_append] at hmem
    rw [Expr.boundNames, List.mem_append]
    rcases hmem with hmem | hmem
    · exact (ihFunction visible hscoped.1 hmem).imp_right .inl
    · exact (Value.RefersTo.list ihArgs hscoped.2 hmem).imp_right .inr
  · exact fun op operand ih => ih
  · intro left op right ihLeft ihRight visible hscoped hmem
    rw [Expr.isScoped, Bool.and_eq_true] at hscoped
    rw [Expr.references, List.mem_append] at hmem
    rw [Expr.boundNames, List.mem_append]
    rcases hmem with hmem | hmem
    · exact (ihLeft visible hscoped.1 hmem).imp_right .inl
    · exact (ihRight visible hscoped.2 hmem).imp_right .inr
  · intro condition consequent alternative ihCondition ihConsequent ihAlternative visible hscoped
      hmem
    rw [Expr.isScoped, Bool.and_eq_true, Bool.and_eq_true] at hscoped
    rw [Expr.references, List.mem_append, List.mem_append] at hmem
    rw [Expr.boundNames, List.mem_append, List.mem_append]
    rcases hmem with (hmem | hmem) | hmem
    · exact (ihCondition visible hscoped.1.1 hmem).imp_right fun h => .inl (.inl h)
    · exact (ihConsequent visible hscoped.1.2 hmem).imp_right fun h => .inl (.inr h)
    · exact (ihAlternative visible hscoped.2 hmem).imp_right .inr
  · intro scrutinee cases ihScrutinee ihCases visible hscoped hmem
    rw [Expr.isScoped, Bool.and_eq_true, Case.isScopedList_eq, List.all_eq_true] at hscoped
    rw [Expr.references, List.mem_append, Case.referencesList_eq, List.mem_flatMap] at hmem
    rw [Expr.boundNames, List.mem_append, Case.boundNamesList_eq, List.mem_flatMap]
    rcases hmem with hmem | ⟨⟨pattern, body⟩, hcase, hmem⟩
    · exact (ihScrutinee visible hscoped.1 hmem).imp_right .inl
    · have hbody := ihCases _ hcase _ (hscoped.2 _ hcase) hmem
      exact (mem_of_visible hbody).imp_right fun h => .inr ⟨_, hcase, h⟩
  · exact fun bindings result => Expr.refersTo_block

end RefersTo

end PolyFront.Lowered
