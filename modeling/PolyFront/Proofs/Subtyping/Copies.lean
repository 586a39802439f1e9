import PolyFront.Proofs.Solutions.TypeTerms

/-!
# Copies of a type

A quantifier is opened by putting fresh variables for some of the names that it binds.  Two copies
of one type that were opened in different ways still have the same shape, and what was put for a
name never reaches below a quantifier that binds the name again.  In a well-scoped type every bound
variable is its innermost binder, so that a fresh variable which is solved by the binder that it
stands for disappears from the copy as if it had never been put there.
-/

namespace PolyFront

theorem Table.get?_foldl_erase {ν : Type} (table : Table String ν) (names : List String)
    (name : String) :
    (names.foldl Table.erase table).get? name =
      if name ∈ names then none else table.get? name := by
  induction names generalizing table with
  | nil => simp
  | cons key rest ih =>
    rw [List.foldl_cons, ih, Table.get?_erase]
    by_cases hrest : name ∈ rest
    · rw [if_pos hrest, if_pos (List.mem_cons_of_mem _ hrest)]
    · by_cases hkey : name = key <;> simp [hrest, hkey]

namespace Ty

/-- What leaves a type alone leaves its variables and its kinds alone. -/
theorem bind_eq_self {f : Nat → Kind → Ty} {g : Kind → Kind} {type : Ty}
    (h : type.bind f g = type) :
    (∀ id kind, (id, kind) ∈ type.mentions → f id kind = .unsolved id kind) ∧
      ∀ kind ∈ type.carried, g kind = kind := by
  induction type with
  | var quantifier name kind =>
    rw [bind_var] at h
    injection h with _ _ hkind
    simpa [mentions, carried] using hkind
  | unsolved id kind => simpa [mentions, carried] using h
  | constructor name kind =>
    rw [bind_constructor] at h
    injection h with _ hkind
    simpa [mentions, carried] using hkind
  | builtIn type => simp [mentions, carried]
  | apply head args kind ihHead ihArgs =>
    rw [bind_apply] at h
    injection h with hhead hargs hkind
    have hargs : ∀ arg ∈ args, arg.bind f g = arg := List.map_inj_left.1 (by simpa using hargs)
    rw [mentions, carried]
    constructor
    · intro id kind hmem
      rcases List.mem_append.1 hmem with hmem | hmem
      · exact (ihHead hhead).1 id kind hmem
      · obtain ⟨arg, harg, hmem⟩ := List.mem_flatMap.1 hmem
        exact (ihArgs arg harg (hargs arg harg)).1 id kind hmem
    · intro kind' hmem
      rcases List.mem_cons.1 hmem with rfl | hmem
      · exact hkind
      rcases List.mem_append.1 hmem with hmem | hmem
      · exact (ihHead hhead).2 kind' hmem
      · obtain ⟨arg, harg, hmem⟩ := List.mem_flatMap.1 hmem
        exact (ihArgs arg harg (hargs arg harg)).2 kind' hmem
  | quantified binders body kind ihBinders ihBody =>
    rw [bind_quantified] at h
    injection h with hbinders hbody hkind
    have hbinders : ∀ binder ∈ binders, binder.bind f g = binder :=
      List.map_inj_left.1 (by simpa using hbinders)
    rw [mentions, carried]
    constructor
    · intro id kind hmem
      rcases List.mem_append.1 hmem with hmem | hmem
      · obtain ⟨binder, hbinder, hmem⟩ := List.mem_flatMap.1 hmem
        exact (ihBinders binder hbinder (hbinders binder hbinder)).1 id kind hmem
      · exact (ihBody hbody).1 id kind hmem
    · intro kind' hmem
      rcases List.mem_cons.1 hmem with rfl | hmem
      · exact hkind
      rcases List.mem_append.1 hmem with hmem | hmem
      · obtain ⟨binder, hbinder, hmem⟩ := List.mem_flatMap.1 hmem
        exact (ihBinders binder hbinder (hbinders binder hbinder)).2 kind' hmem
      · exact (ihBody hbody).2 kind' hmem

/-! ## Putting types for names -/

/-- What is put for the names that a binder does not hide. -/
def hidden (names : List String) (values : String → Option Ty) (name : String) : Option Ty :=
  if name ∈ names then none else values name

theorem hidden_of_mem {names : List String} {name : String} (h : name ∈ names)
    (values : String → Option Ty) : hidden names values name = none := if_pos h

theorem hidden_of_not_mem {names : List String} {name : String} (h : name ∉ names)
    (values : String → Option Ty) : hidden names values name = values name := if_neg h

@[simp]
theorem hidden_nil (values : String → Option Ty) : hidden [] values = values := by
  funext name
  exact hidden_of_not_mem List.not_mem_nil values

theorem hidden_hidden (names names' : List String) (values : String → Option Ty) :
    hidden names (hidden names' values) = hidden (names' ++ names) values := by
  funext name
  by_cases hname : name ∈ names <;> by_cases hname' : name ∈ names' <;>
    simp [hidden, hname, hname']

/-- The names that a list of binders binds. -/
abbrev bindersNames (binders : List Ty) : List String := binders.filterMap binderName?

/-- Put types for named variables, except for those that an inner quantifier binds. -/
def replace (values : String → Option Ty) : Ty → Ty
  | .var quantifier name kind => (values name).getD (.var quantifier name kind)
  | .unsolved id kind => .unsolved id kind
  | .constructor name kind => .constructor name kind
  | .apply head args kind => .apply (replace values head) (args.map (replace values)) kind
  | .quantified binders body kind =>
    .quantified binders (replace (hidden (bindersNames binders) values) body) kind
  | .builtIn type => .builtIn type

section Replace

variable (values : String → Option Ty)

@[simp]
theorem replace_var (quantifier : Quantifier) (name : String) (kind : Kind) :
    replace values (.var quantifier name kind) =
      (values name).getD (.var quantifier name kind) := by rw [replace]

@[simp]
theorem replace_unsolved (id : Nat) (kind : Kind) :
    replace values (.unsolved id kind) = .unsolved id kind := by rw [replace]

@[simp]
theorem replace_constructor (name : QualifiedName) (kind : Kind) :
    replace values (.constructor name kind) = .constructor name kind := by rw [replace]

@[simp]
theorem replace_apply (head : Ty) (args : List Ty) (kind : Kind) :
    replace values (.apply head args kind) =
      .apply (replace values head) (args.map (replace values)) kind := by rw [replace]

@[simp]
theorem replace_quantified (binders : List Ty) (body : Ty) (kind : Kind) :
    replace values (.quantified binders body kind) =
      .quantified binders (replace (hidden (bindersNames binders) values) body) kind := by
  rw [replace]

@[simp]
theorem replace_builtIn (type : BuiltIn) : replace values (.builtIn type) = .builtIn type := by
  rw [replace]

end Replace

theorem instantiate_eq_replace (assignment : Table String Ty) (type : Ty) :
    type.instantiate assignment = type.replace assignment.get? := by
  induction type generalizing assignment with
  | var quantifier name kind => rw [instantiate, replace_var]
  | unsolved id kind => rw [instantiate, replace_unsolved]
  | constructor name kind => rw [instantiate, replace_constructor]
  | builtIn type => rw [instantiate, replace_builtIn]
  | apply head args kind ihHead ihArgs =>
    rw [instantiate, instantiateList_eq_map, replace_apply, ihHead]
    exact congrArg (Ty.apply _ · kind) (List.map_congr_left fun arg harg => ihArgs arg harg _)
  | quantified binders body kind _ ihBody =>
    rw [instantiate, replace_quantified, ihBody]
    congr 2
    funext name
    exact Table.get?_foldl_erase assignment _ name

theorem replace_none (type : Ty) : type.replace (fun _ => none) = type := by
  induction type with
  | apply head args kind ihHead ihArgs =>
    rw [replace_apply, ihHead, List.map_congr_left ihArgs, List.map_id']
  | quantified binders body kind _ ihBody =>
    have hnone : hidden (bindersNames binders) (fun _ => none) = fun _ => none := by
      funext name
      exact ite_self none
    rw [replace_quantified, hnone, ihBody]
  | _ => simp

/-- All that is put for names are variables. -/
def Variables (values : String → Option Ty) : Prop :=
  ∀ name value, values name = some value → value.isUnsolved = true

theorem Variables.hidden {values : String → Option Ty} (h : Variables values)
    (names : List String) : Variables (hidden names values) := by
  intro name value hvalue
  rw [Ty.hidden] at hvalue
  split at hvalue
  · cases hvalue
  · exact h name value hvalue

/-- Variables can be put in two steps. -/
theorem replace_replace {values : String → Option Ty} (h : Variables values)
    (more : String → Option Ty) (type : Ty) :
    (type.replace values).replace more = type.replace fun name => (values name).or (more name) := by
  induction type generalizing values more with
  | var quantifier name kind =>
    rw [replace_var, replace_var]
    cases hvalue : values name with
    | none => rw [Option.getD_none, replace_var, Option.none_or]
    | some value =>
      cases value with
      | unsolved id kind => simp
      | _ => cases h name _ hvalue
  | apply head args kind ihHead ihArgs =>
    rw [replace_apply, replace_apply, replace_apply, ihHead h, List.map_map]
    exact congrArg (Ty.apply _ · kind) (List.map_congr_left fun arg harg => ihArgs arg harg h more)
  | quantified binders body kind _ ihBody =>
    rw [replace_quantified, replace_quantified, replace_quantified, ihBody (h.hidden _)]
    congr 2
    funext name
    by_cases hname : name ∈ bindersNames binders <;> simp [Ty.hidden, hname]
  | _ => simp

/-- A copy is a function type when the type is one. -/
theorem function?_replace {values : String → Option Ty} (h : Variables values) (head : Ty)
    (args : List Ty) (kind : Kind) :
    ((Ty.apply head args kind).replace values).function? =
      (Ty.apply head args kind).function?.map fun function =>
        (function.1.map (replace values), function.2.replace values) := by
  rw [replace_apply]
  cases head with
  | builtIn type =>
    rw [replace_builtIn]
    cases type <;> simp [function?, List.map_dropLast, Function.comp_def]
  | var quantifier name headKind =>
    rw [replace_var]
    cases hvalue : values name with
    | none => rfl
    | some value =>
      cases value with
      | unsolved id kind => rfl
      | _ => cases h name _ hvalue
  | _ => simp [function?]

/-- Only a quantified type has quantified copies. -/
theorem exists_of_replace_quantified {values : String → Option Ty} (h : Variables values)
    {type body : Ty} {binders : List Ty} {kind : Kind}
    (heq : type.replace values = .quantified binders body kind) :
    ∃ inner, type = .quantified binders inner kind ∧
      body = inner.replace (hidden (bindersNames binders) values) := by
  cases type with
  | quantified binders' inner kind' =>
    rw [replace_quantified] at heq
    cases heq
    exact ⟨inner, rfl, rfl⟩
  | var quantifier name kind' =>
    rw [replace_var] at heq
    cases hvalue : values name with
    | none =>
      rw [hvalue] at heq
      cases heq
    | some value =>
      rw [hvalue, Option.getD_some] at heq
      subst heq
      cases h name _ hvalue
  | _ => simp at heq

/-! ## Scopes -/

/-- The innermost binder of a name. The binders are given innermost first. -/
def binderOf? (bound : List Ty) (name : String) : Option Ty :=
  bound.find? fun binder => binder.binderName? == some name

theorem binderOf?_append_of_not_mem {binders bound : List Ty} {name : String}
    (h : name ∉ bindersNames binders) : binderOf? (binders ++ bound) name =
        binderOf? bound name := by
  have hnone : binders.find? (fun binder => binder.binderName? == some name) = none := by
    rw [List.find?_eq_none]
    intro binder hbinder hname
    exact h (List.mem_filterMap.2 ⟨binder, hbinder, eq_of_beq hname⟩)
  rw [binderOf?, List.find?_append, hnone, Option.none_or, binderOf?]

/-- Of distinct names each has one binder. -/
theorem binderOf?_of_mem {binders bound : List Ty} {quantifier : Quantifier} {name : String}
    {kind : Kind} (hnodup : (bindersNames binders).Nodup)
    (hmem : .var quantifier name kind ∈ binders) :
    binderOf? (binders ++ bound) name = some (.var quantifier name kind) := by
  suffices hfind : binders.find? (fun binder => binder.binderName? == some name) =
      some (.var quantifier name kind) by
    rw [binderOf?, List.find?_append, hfind, Option.some_or]
  induction binders with
  | nil => cases hmem
  | cons binder rest ih =>
    rcases List.mem_cons.1 hmem with rfl | hrest
    · exact List.find?_cons_of_pos (by simp [binderName?])
    · have hin : name ∈ bindersNames rest := List.mem_filterMap.2 ⟨_, hrest, rfl⟩
      have hne : (binder.binderName? == some name) = false := by
        rw [← Bool.not_eq_true]
        intro heq
        rw [bindersNames, List.filterMap_cons_some (eq_of_beq heq)] at hnodup
        exact (List.nodup_cons.1 hnodup).1 hin
      rw [List.find?_cons, hne]
      refine ih ?_ hrest
      cases hname : binder.binderName? with
      | none =>
        rw [bindersNames, List.filterMap_cons_none hname] at hnodup
        exact hnodup
      | some other =>
        rw [bindersNames, List.filterMap_cons_some hname] at hnodup
        exact (List.nodup_cons.1 hnodup).2

/-- Every quantifier binds distinct names, and every bound variable is its innermost binder, of the
same quantifier and kind. -/
def Scoped (bound : List Ty) : Ty → Prop
  | .var quantifier name kind =>
    ∀ binder, binderOf? bound name = some binder → binder = .var quantifier name kind
  | .unsolved _ _ => True
  | .constructor _ _ => True
  | .apply head args _ => head.Scoped bound ∧ ∀ arg ∈ args, arg.Scoped bound
  | .quantified binders body _ => (bindersNames binders).Nodup ∧ body.Scoped (binders ++ bound)
  | .builtIn _ => True

theorem scoped_var {bound : List Ty} {quantifier : Quantifier} {name : String} {kind : Kind} :
    Scoped bound (.var quantifier name kind) ↔
      ∀ binder, binderOf? bound name = some binder → binder = .var quantifier name kind := by
  rw [Scoped]

theorem scoped_apply {bound : List Ty} {head : Ty} {args : List Ty} {kind : Kind} :
    Scoped bound (.apply head args kind) ↔
      head.Scoped bound ∧ ∀ arg ∈ args, arg.Scoped bound := by rw [Scoped]

theorem scoped_quantified {bound binders : List Ty} {body : Ty} {kind : Kind} :
    Scoped bound (.quantified binders body kind) ↔
      (bindersNames binders).Nodup ∧ body.Scoped (binders ++ bound) := by rw [Scoped]

/-- After a substitution that leaves the type itself alone, a variable that was put for a name is
still there or has become the binder of the name. -/
theorem bind_replace {f : Nat → Kind → Ty} {g : Kind → Kind} {values values' : String → Option Ty}
    {bound : List Ty} {type : Ty} (hself : type.bind f g = type) (hscoped : type.Scoped bound)
    (hvalues : ∀ name, values name = none ∧ values' name = none ∨
      ∃ value, values name = some value ∧
        (value.bind f g = value ∧ values' name = some value ∨
          binderOf? bound name = some (value.bind f g) ∧ values' name = none)) :
    (type.replace values).bind f g = type.replace values' := by
  induction type generalizing values values' bound with
  | var quantifier name kind =>
    rw [replace_var, replace_var]
    rcases hvalues name with ⟨hnone, hnone'⟩ | ⟨value, hsome, ⟨hkept, hsome'⟩ | ⟨hbinder, hnone'⟩⟩
    · rw [hnone, hnone']
      exact hself
    · rw [hsome, hsome']
      exact hkept
    · rw [hsome, hnone']
      exact scoped_var.1 hscoped _ hbinder
  | apply head args kind ihHead ihArgs =>
    obtain ⟨hhead, hargs⟩ := scoped_apply.1 hscoped
    rw [bind_apply] at hself
    injection hself with hhead' hargs' hkind
    have hargs' : ∀ arg ∈ args, arg.bind f g = arg := List.map_inj_left.1 (by simpa using hargs')
    rw [replace_apply, replace_apply, bind_apply, ihHead hhead' hhead hvalues, hkind, List.map_map]
    refine congrArg (Ty.apply _ · kind) (List.map_congr_left fun arg harg => ?_)
    exact ihArgs arg harg (hargs' arg harg) (hargs arg harg) hvalues
  | quantified binders body kind _ ihBody =>
    obtain ⟨-, hbody⟩ := scoped_quantified.1 hscoped
    rw [bind_quantified] at hself
    injection hself with hbinders hbody' hkind
    rw [replace_quantified, replace_quantified, bind_quantified, hbinders, hkind]
    refine congrArg (Ty.quantified binders · kind) (ihBody hbody' hbody fun name => ?_)
    by_cases hname : name ∈ bindersNames binders
    · exact .inl ⟨hidden_of_mem hname _, hidden_of_mem hname _⟩
    · rw [hidden_of_not_mem hname, hidden_of_not_mem hname, binderOf?_append_of_not_mem hname]
      exact hvalues name
  | unsolved id kind => rwa [replace_unsolved, replace_unsolved]
  | constructor name kind => rwa [replace_constructor, replace_constructor]
  | builtIn type => rw [replace_builtIn, replace_builtIn, bind_builtIn]

/-! ## Nested quantifiers -/

/-- A type below the given quantifiers, each with its binders and its kind, outermost first. -/
def quantify (groups : List (List Ty × Kind)) (body : Ty) : Ty :=
  groups.foldr (fun group body => .quantified group.1 body group.2) body

@[simp]
theorem quantify_nil (body : Ty) : quantify [] body = body := rfl

@[simp]
theorem quantify_cons (group : List Ty × Kind) (groups : List (List Ty × Kind)) (body : Ty) :
    quantify (group :: groups) body = .quantified group.1 (quantify groups body) group.2 := rfl

theorem quantify_append_singleton (groups : List (List Ty × Kind)) (binders : List Ty)
    (body : Ty) (kind : Kind) :
    quantify (groups ++ [(binders, kind)]) body = quantify groups
        (.quantified binders body kind) := by
  rw [quantify, List.foldr_append]
  rfl

/-- The names that some of the quantifiers bind. -/
def groupsNames (groups : List (List Ty × Kind)) : List String :=
  groups.flatMap fun group => bindersNames group.1

theorem replace_quantify (values : String → Option Ty) (groups : List (List Ty × Kind))
    (body : Ty) : (quantify groups body).replace values =
      quantify groups (body.replace (hidden (groupsNames groups) values)) := by
  induction groups generalizing values with
  | nil => simp [groupsNames]
  | cons group rest ih =>
    rw [quantify_cons, quantify_cons, replace_quantified, ih, hidden_hidden]
    rfl

theorem bind_quantify {f : Nat → Kind → Ty} {g : Kind → Kind} {groups : List (List Ty × Kind)}
    (h : ∀ group ∈ groups, group.1.map (Ty.bind f g) = group.1 ∧ g group.2 = group.2) (body : Ty) :
    (quantify groups body).bind f g = quantify groups (body.bind f g) := by
  induction groups with
  | nil => rfl
  | cons group rest ih =>
    obtain ⟨hbinders, hkind⟩ := h group List.mem_cons_self
    rw [quantify_cons, bind_quantified, hbinders, hkind,
      ih fun other hother => h other (List.mem_cons_of_mem _ hother), quantify_cons]

end Ty

end PolyFront
