import PolyFront.Proofs.Constant.Settled
import PolyFront.Proofs.Constant.Terminates
import PolyFront.Proofs.Meaning.Renaming
import PolyFront.Proofs.Renaming.Collections

/-!
# Analyses of renamed code

When different names stay different, the analysis of renamed code does the same to the renamed
names as the analysis of the code does to its names: what is known about a name does not depend on
how names are spelled.  This is no longer so when names of different definitions are told apart
that were the same before.  The parameters of a function are those of the function that was
recorded first under its name, so that of two local functions of one name the second one is called
with nothing.
-/

namespace PolyFront

/-! ## Multimaps -/

namespace Multimap

variable {f : Name → Name}

def rename (f : Name → Name) (multimap : Multimap Name Name) : Multimap Name Name :=
  ⟨multimap.table.rename f (List.map f)⟩

variable (hf : Function.Injective f) (multimap : Multimap Name Name)
include hf

theorem get_rename (key : Name) : (multimap.rename f).get (f key) = (multimap.get key).map f := by
  rw [get, rename, Table.get?_rename hf, get]
  cases multimap.table.get? key <;> rfl

theorem insert_rename (key value : Name) :
    (multimap.rename f).insert (f key) (f value) = (multimap.insert key value).rename f := by
  have hcontains : (multimap.rename f).contains (f key) (f value) =
      multimap.contains key value := by
    rw [contains, get_rename hf, Lowered.contains_map hf, contains]
  have hvalues : ((multimap.get key).map f) ++ [f value] = (multimap.get key ++ [value]).map f := by
    simp
  rw [insert, insert, hcontains, get_rename hf, hvalues, rename, Table.insert_rename hf]
  split <;> rfl

theorem extend_rename (pairs : List (Name × Name)) :
    (multimap.rename f).extend (pairs.map (Prod.map f f)) = (multimap.extend pairs).rename f := by
  induction pairs generalizing multimap with
  | nil => rfl
  | cons pair rest ih =>
    rw [List.map_cons, extend, List.foldl_cons, Prod.map_fst, Prod.map_snd, insert_rename hf]
    exact ih _

end Multimap

/-! ## Analyses -/

def Analysis.rename (ρ : Name → Name) (analysis : Analysis) : Analysis where
  values := analysis.values.rename ρ id
  worklist := analysis.worklist.map ρ
  positions := analysis.positions.rename ρ id
  dependents := analysis.dependents.rename ρ
  functionParams := analysis.functionParams.rename ρ (List.map ρ)
  bound := analysis.bound.map ρ
  changes := analysis.changes

namespace Analysis

variable {ρ : Name → Name} (hρ : Function.Injective ρ) (analysis : Analysis)
include hρ

theorem get?_values_rename (name : Name) :
    (analysis.rename ρ).values.get? (ρ name) = analysis.values.get? name := by
  rw [rename, Table.get?_rename hρ, Option.map_id_fun, id]

theorem get?_functionParams_rename (name : Name) :
    (analysis.rename ρ).functionParams.get? (ρ name) =
      (analysis.functionParams.get? name).map (List.map ρ) :=
  Table.get?_rename hρ _ _ _

theorem lookup_rename (name : Name) :
    (analysis.rename ρ).lookup (ρ name) = analysis.lookup name := by
  rw [lookup, get?_values_rename hρ, lookup]

theorem reference_rename (name : Name) :
    (analysis.rename ρ).reference (ρ name) = analysis.reference name := by
  have hbound : (analysis.rename ρ).bound.contains (ρ name) = analysis.bound.contains name :=
    Lowered.contains_map hρ _ _
  rw [reference, get?_values_rename hρ, hbound, reference]

theorem record_rename (name : Name) (value : Lattice) :
    (analysis.rename ρ).record (ρ name) value =
      ((analysis.record name value).1, (analysis.record name value).2.rename ρ) := by
  have hassign : ∀ value : Lattice, (analysis.values.rename ρ id).insert (ρ name) value =
      (analysis.values.insert name value).rename ρ id := fun value =>
    Table.insert_rename hρ id analysis.values name value
  rw [record, get?_values_rename hρ, record]
  cases analysis.values.get? name with
  | none => simp [hassign, rename]
  | some known =>
    by_cases hjoin : known.join value = known
    · simp [hjoin]
    · simp [hjoin, hassign, rename]

end Analysis

namespace Lowered

/-! ## Runs -/

/-- The second run does to renamed analyses what the first one does, with the same result. -/
def Follows {α : Type} (ρ : Name → Name) (run run' : Analyse α) : Prop :=
  ∀ analysis : Analysis, run' (analysis.rename ρ) = ((run analysis).1, (run analysis).2.rename ρ)

section Rules

variable {α β : Type} {ρ : Name → Name}

theorem Follows.pure (a : α) : Follows ρ (Pure.pure a) (Pure.pure a) := fun _ => rfl

theorem Follows.bind {run run' : Analyse α} {next next' : α → Analyse β}
    (h : Follows ρ run run') (hnext : ∀ a, Follows ρ (next a) (next' a)) :
    Follows ρ (run >>= next) (run' >>= next') := by
  intro analysis
  show next' (run' (analysis.rename ρ)).1 (run' (analysis.rename ρ)).2 = _
  rw [h analysis]
  exact hnext _ _

/-- What a run looks at in an analysis, it finds in the renamed one. -/
theorem Follows.get {next next' : Analysis → Analyse β}
    (h : ∀ analysis, next' (analysis.rename ρ) (analysis.rename ρ) =
      ((next analysis analysis).1, (next analysis analysis).2.rename ρ)) :
    Follows ρ (MonadState.get >>= next) (MonadState.get >>= next') := h

theorem Follows.modify {change change' : Analysis → Analysis}
    (h : ∀ analysis : Analysis, change' (analysis.rename ρ) = (change analysis).rename ρ) :
    Follows ρ (modify change) (modify change') := by
  intro analysis
  show (PUnit.unit, change' (analysis.rename ρ)) = _
  rw [h]
  rfl

theorem Follows.discard {run run' : Analyse α} (h : Follows ρ run run') :
    Follows ρ (do let _ ← run) (do let _ ← run') :=
  h.bind fun _ => Follows.pure _

theorem Follows.forM {items : List α} {items' : List β} {run : α → Analyse PUnit}
    {run' : β → Analyse PUnit} (h : List.Forall₂ (fun item item' =>
        Follows ρ (run item) (run' item'))
      items items') : Follows ρ (items.forM run) (items'.forM run') := by
  induction h with
  | nil => exact Follows.pure _
  | cons hfirst _ ih => exact hfirst.bind fun _ => ih

/-- Arguments that are analysed alike. -/
abbrev FollowsAll (ρ : Name → Name) : List (Analyse Lattice) → List (Analyse Lattice) → Prop :=
  List.Forall₂ (Follows ρ)

theorem follows_forM {args args' : List (Analyse Lattice)} (hargs : FollowsAll ρ args args') :
    Follows ρ (args.forM fun arg => do let _ ← arg) (args'.forM fun arg => do let _ ← arg) :=
  Follows.forM (hargs.imp fun _ _ harg => harg.discard)

end Rules

/-! ## Records and calls -/

section Records

variable {ρ : Name → Name} (hρ : Function.Injective ρ)
include hρ

theorem follows_record (name : Name) (value : Lattice) :
    Follows ρ (Analyse.record name value) (Analyse.record (ρ name) value) :=
  fun analysis => analysis.record_rename hρ name value

theorem follows_recordUnknown (params : List Name) :
    Follows ρ (Analyse.recordUnknown params) (Analyse.recordUnknown (params.map ρ)) := by
  refine Follows.forM (List.forall₂_map_right_iff.2 (List.forall₂_same.2 fun p _ => ?_))
  exact (follows_record hρ p .nonConstant).discard

theorem follows_recordArgs (params : List Name) {args args' : List (Analyse Lattice)}
    (hargs : FollowsAll ρ args args') :
    Follows ρ (Analyse.recordArgs params args) (Analyse.recordArgs (params.map ρ) args') := by
  refine Follows.forM ?_
  induction params generalizing args args' with
  | nil => exact .nil
  | cons p rest ih =>
    cases hargs with
    | nil => exact .nil
    | cons hfirst hothers =>
      refine .cons (hfirst.bind fun value => ?_) (ih hothers)
      exact (follows_record hρ p value).discard

theorem follows_reference (name : Name) (type : Ty) :
    Follows ρ (Analyse.reference name type) (Analyse.reference (ρ name) type) := by
  unfold Analyse.reference
  split
  · refine Follows.get fun analysis => ?_
    rw [analysis.get?_functionParams_rename hρ]
    cases analysis.functionParams.get? name with
    | none => exact ((follows_recordUnknown hρ []).bind fun _ => Follows.pure _) analysis
    | some params => exact ((follows_recordUnknown hρ params).bind fun _ => Follows.pure _) analysis
  · refine Follows.get fun analysis => ?_
    rw [analysis.reference_rename hρ]
    rfl

theorem follows_call (name : Name) {args args' : List (Analyse Lattice)}
    (hargs : FollowsAll ρ args args') :
    Follows ρ (Analyse.call name args) (Analyse.call (ρ name) args') := by
  refine Follows.get fun analysis => ?_
  rw [analysis.get?_functionParams_rename hρ]
  cases analysis.functionParams.get? name with
  | none =>
    refine ((follows_forM hargs).bind fun _ => Follows.get fun after => ?_) analysis
    rw [after.reference_rename hρ]
    rfl
  | some params =>
    refine ((follows_record hρ name .unassigned).bind fun _ => Follows.get fun mid => ?_) analysis
    refine ((follows_recordArgs hρ params hargs).bind fun _ => ?_) mid
    refine (Follows.modify fun after => ?_).bind fun _ => Follows.get fun after => ?_
    · have hpositions : (after.rename ρ).positions.contains (ρ name) =
          after.positions.contains name := Table.contains_rename hρ id _ _
      have hchanges : ∀ analysis : Analysis, (analysis.rename ρ).changes = analysis.changes :=
        fun _ => rfl
      rw [hpositions, hchanges, hchanges]
      by_cases hpushed :
          (decide (mid.changes < after.changes) && after.positions.contains name) = true
      · rw [if_pos hpushed, if_pos hpushed]
        simp [Analysis.rename]
      · rw [if_neg hpushed, if_neg hpushed]
    · rw [after.lookup_rename hρ]
      rfl

end Records

/-! ## Branches and blocks -/

/-- The analysis of the renamed value follows that of the value. -/
def FollowsValue (ρ : Name → Name) (value : Value) : Prop :=
  Follows ρ (Analyse.value value) (Analyse.value (value.rename ρ))

/-- The analysis of the renamed expression follows that of the expression. -/
def FollowsExpr (ρ : Name → Name) (expr : Expr) : Prop :=
  Follows ρ (Analyse.expr expr) (Analyse.expr (expr.rename ρ))

section Branches

variable {ρ : Name → Name}

theorem follows_conditional (condition : Lattice)
    {consequent consequent' alternative alternative' : Analyse Lattice}
    (hconsequent : Follows ρ consequent consequent')
    (halternative : Follows ρ alternative alternative') :
    Follows ρ (Analyse.conditional condition consequent alternative)
      (Analyse.conditional condition consequent' alternative') := by
  unfold Analyse.conditional
  split
  · exact Follows.pure _
  · exact hconsequent
  · exact halternative
  · exact hconsequent.bind fun _ => halternative.bind fun _ => Follows.pure _

theorem follows_stabilise {pass pass' : Analyse Lattice} (h : Follows ρ pass pass') (fuel : Nat) :
    Follows ρ (Analyse.stabilise pass fuel) (Analyse.stabilise pass' fuel) := by
  induction fuel with
  | zero => exact h
  | succ fuel ih =>
    intro analysis
    rw [stabilise_succ, stabilise_succ, h analysis]
    have hchanges : ∀ analysis : Analysis, (analysis.rename ρ).changes = analysis.changes :=
      fun _ => rfl
    rw [hchanges, hchanges]
    split
    · exact ih _
    · rfl

mutual
theorem follows_pattern (hρ : Function.Injective ρ) (value : Lattice) : ∀ pattern : Pattern,
    Follows ρ (Analyse.pattern value pattern) (Analyse.pattern value (pattern.rename ρ))
  | .id name => (follows_record hρ name value).discard
  | .alias name inner =>
    (follows_record hρ name value).bind fun _ => follows_pattern hρ value inner
  | .literal _ => Follows.pure _
  | .constructor _ fields => follows_fieldPatterns hρ fields
theorem follows_fieldPattern (hρ : Function.Injective ρ) : ∀ field : FieldPattern,
    Follows ρ (Analyse.fieldPattern field) (Analyse.fieldPattern (field.rename ρ))
  | ⟨_, inner⟩ => follows_pattern hρ .nonConstant inner
theorem follows_fieldPatterns (hρ : Function.Injective ρ) : ∀ fields : List FieldPattern,
    Follows ρ (Analyse.fieldPatterns fields)
      (Analyse.fieldPatterns (FieldPattern.renameList ρ fields))
  | [] => Follows.pure _
  | field :: rest => (follows_fieldPattern hρ field).bind fun _ => follows_fieldPatterns hρ rest
end

variable (hρ : Function.Injective ρ)
include hρ

theorem follows_analyseCase (scrutinee : Lattice) {case : Case}
    (hbody : FollowsExpr ρ case.body) :
    Follows ρ (analyseCase scrutinee case) (analyseCase scrutinee (case.rename ρ)) := by
  obtain ⟨pattern, body⟩ := case
  exact (follows_pattern hρ scrutinee pattern).bind fun _ => hbody

theorem follows_analyseCases (scrutinee result : Lattice) {cases : List Case}
    (h : ∀ case ∈ cases, FollowsExpr ρ case.body) :
    Follows ρ (analyseCases scrutinee (Analyse.caseList cases) result)
      (analyseCases scrutinee (Analyse.caseList (cases.map (Case.rename ρ))) result) := by
  induction cases generalizing result with
  | nil => exact Follows.pure _
  | cons case rest ih =>
    rw [List.forall_mem_cons] at h
    intro analysis
    rw [List.map_cons, analyseCases_cons, analyseCases_cons,
      follows_analyseCase hρ scrutinee h.1 analysis]
    exact ih _ h.2 _

theorem follows_cases (scrutinee : Lattice) {cases : List Case}
    (h : ∀ case ∈ cases, FollowsExpr ρ case.body) :
    Follows ρ (Analyse.cases scrutinee (Analyse.caseList cases))
      (Analyse.cases scrutinee (Analyse.caseList (cases.map (Case.rename ρ)))) := by
  rw [cases_eq, cases_eq]
  split
  · exact Follows.pure _
  · have hrenamed : (candidates Case.pattern scrutinee (cases.map (Case.rename ρ))).map Prod.fst =
        ((candidates Case.pattern scrutinee cases).map Prod.fst).map (Case.rename ρ) := by
      rw [candidates_map fun case => case.matching_rename ρ scrutinee, List.map_map, List.map_map]
      rfl
    rw [candidates_caseList, candidates_caseList, hrenamed]
    exact follows_analyseCases hρ scrutinee .unassigned fun case hcase =>
      h case ((sublist_candidates scrutinee cases).subset hcase)

theorem follows_recordResult (name : Name) {body body' : Analyse Lattice}
    (h : Follows ρ body body') :
    Follows ρ (Analyse.recordResult name body) (Analyse.recordResult (ρ name) body') :=
  h.bind fun value => (follows_record hρ name value).discard

theorem follows_recordFunction (name : Name) (params : List Param) :
    Follows ρ (Analyse.recordFunction name params)
      (Analyse.recordFunction (ρ name) (params.map (Param.rename ρ))) := by
  refine Follows.modify fun analysis => ?_
  have hinsert := Table.insertIfNew_rename hρ (List.map ρ) analysis.functionParams name
    (params.map Param.name)
  rw [Param.map_name_rename]
  simp only [Analysis.rename, hinsert]

theorem follows_binding {binding : Binding} (h : FollowsExpr ρ binding.inner) :
    Follows ρ (Analyse.binding binding) (Analyse.binding (binding.rename ρ)) := by
  have hresult := follows_recordResult hρ binding.name h
  rw [Analyse.binding_eq, Analyse.binding_eq, binding.params?_rename, binding.name_rename,
    binding.inner_rename]
  cases binding.params? with
  | none => exact hresult
  | some params => exact (follows_recordFunction hρ binding.name params).bind fun _ => hresult

theorem follows_bindingList {bindings : List Binding}
    (h : ∀ binding ∈ bindings, FollowsExpr ρ binding.inner) :
    Follows ρ (Analyse.bindingList bindings)
      (Analyse.bindingList (Binding.renameList ρ bindings)) := by
  induction bindings with
  | nil => exact Follows.pure _
  | cons binding rest ih =>
    rw [List.forall_mem_cons] at h
    exact (follows_binding hρ h.1).bind fun _ => ih h.2

omit hρ in
theorem total_params_rename (analysis : Analysis) :
    total List.length (analysis.rename ρ).functionParams.values =
      total List.length analysis.functionParams.values := by
  have hentries : ∀ entries : List (Name × List Name),
      total List.length ((entries.map (Prod.map ρ (List.map ρ))).map Prod.snd) =
        total List.length (entries.map Prod.snd) := by
    intro entries
    induction entries with
    | nil => rfl
    | cons entry rest ih =>
      simp only [List.map_cons, total_cons, Prod.map_snd, List.length_map, ih]
  exact hentries analysis.functionParams.entries

omit hρ in
theorem changeBound_rename (analysis : Analysis) (expr : Expr) :
    (analysis.rename ρ).changeBound (expr.rename ρ) = analysis.changeBound expr := by
  rw [Analysis.changeBound, Analysis.changeBound, total_params_rename, (boundNames_rename ρ).2,
    (references_rename ρ).2, List.length_map, List.length_map]

end Branches

/-! ## Expressions -/

section Exprs

variable {ρ : Name → Name} (hρ : Function.Injective ρ)

theorem follows_values {args : List Value} (h : ∀ arg ∈ args, FollowsValue ρ arg) :
    FollowsAll ρ (Analyse.values args) (Analyse.values (Value.renameList ρ args)) := by
  induction args with
  | nil => exact .nil
  | cons arg rest ih =>
    rw [List.forall_mem_cons] at h
    exact .cons h.1 (ih h.2)

include hρ

theorem follows_apply {function : Value} {args : List Value} (hfunction : FollowsValue ρ function)
    (hbody : ∀ params body, function = .lambda params body → FollowsExpr ρ body)
    (hargs : ∀ arg ∈ args, FollowsValue ρ arg) :
    Follows ρ (Analyse.apply (Analyse.values args) function)
      (Analyse.apply (Analyse.values (Value.renameList ρ args)) (function.rename ρ)) := by
  have hall := follows_values hargs
  cases function with
  | reference name type => exact follows_call hρ name hall
  | lambda params body =>
    have hrecord := follows_recordArgs hρ (params.map Param.name) hall
    rw [← Param.map_name_rename] at hrecord
    exact hrecord.bind fun _ => hbody params body rfl
  | literal value => exact (follows_forM hall).bind fun _ => Follows.pure _
  | box inner => exact (follows_forM hall).bind fun _ => hfunction
  | unbox inner => exact (follows_forM hall).bind fun _ => hfunction

/-- The analysis of renamed code follows that of the code. -/
theorem follows_all : (∀ value, FollowsValue ρ value) ∧ ∀ expr, FollowsExpr ρ expr := by
  refine induct ?_ ?_ ?_ ?_ ?_ ?_ ?_ ?_ ?_ ?_ ?_ ?_
  · exact fun value => Follows.pure _
  · exact fun name type => follows_reference hρ name type
  · intro params body ih
    have hparams := follows_recordUnknown hρ (params.map Param.name)
    rw [← Param.map_name_rename] at hparams
    exact hparams.bind fun _ => Follows.bind ih fun _ => Follows.pure _
  · exact fun value ih => Follows.bind ih fun _ => Follows.pure _
  · exact fun value ih => Follows.bind ih fun _ => Follows.pure _
  · exact fun value ih => ih
  · exact fun type function args ihFunction ihBody ihArgs =>
      follows_apply hρ ihFunction ihBody ihArgs
  · exact fun op operand ih => Follows.bind ih fun _ => Follows.pure _
  · exact fun left op right ihLeft ihRight =>
      Follows.bind ihLeft fun _ => Follows.bind ihRight fun _ => Follows.pure _
  · exact fun condition consequent alternative ihCondition ihConsequent ihAlternative =>
      Follows.bind ihCondition fun value => follows_conditional value ihConsequent ihAlternative
  · intro scrutinee cases ihScrutinee ihCases
    rw [FollowsExpr, Expr.rename, Case.renameList_eq]
    exact Follows.bind ihScrutinee fun value => follows_cases hρ value ihCases
  · intro bindings result ihBindings ihResult
    refine Follows.get fun analysis => ?_
    rw [← Expr.rename, changeBound_rename]
    exact follows_stabilise ((follows_bindingList hρ ihBindings).bind fun _ => ihResult) _ analysis

end Exprs

/-! ## Worklists -/

/-- Different names stay different, and what a declaration declares keeps its name. -/
structure RenamesLocals (ρ : Name → Name) : Prop where
  injective : Function.Injective ρ
  binding (name : QualifiedName) : ρ (.binding name) = .binding name
  constructor (name : ConstructorName) : ρ (.constructor name) = .constructor name

section Worklist

variable {ρ : Name → Name} (hρ : RenamesLocals ρ)
include hρ

theorem follows_constructor (c : Constructor) :
    Follows ρ (Analyse.constructor c) (Analyse.constructor c) := by
  have hrecord := follows_record hρ.injective (.constructor c.name)
    (if c.fields.isEmpty then .constantConstructor c.name else .known c.name)
  rw [hρ.constructor] at hrecord
  refine (Follows.modify fun analysis => ?_).bind fun _ => hrecord.discard
  simp [Analysis.rename, hρ.constructor]

theorem follows_declare (declaration : Declaration) :
    Follows ρ (Analyse.declare declaration) (Analyse.declare (declaration.rename ρ)) := by
  cases declaration with
  | data d => exact Follows.forM (List.forall₂_same.2 fun c _ => follows_constructor hρ c)
  | definition d =>
    refine Follows.modify fun analysis => ?_
    simp [Analysis.rename, Definition.rename, hρ.binding]

/-- The dependents of a renamed definition are its dependents under their own names. -/
theorem dependents_rename (analysis : Analysis) (d : Definition) :
    (analysis.rename ρ).dependents.extend
        ((d.rename ρ).freeVariables.map fun free => (free, Name.binding d.name)) =
      (analysis.dependents.extend
        (d.freeVariables.map fun free => (free, Name.binding d.name))).rename ρ := by
  rw [← Multimap.extend_rename hρ.injective, Definition.freeVariables_rename hρ.injective,
    List.map_map, List.map_map]
  congr 2
  funext free
  simp [hρ.binding]

theorem insert_binding_rename {ν ν' : Type} (g : ν → ν') (table : Table Name ν)
    (name : QualifiedName) (value : ν) :
    (table.rename ρ g).insert (.binding name) (g value) =
      (table.insert (.binding name) value).rename ρ g := by
  rw [← Table.insert_rename hρ.injective, hρ.binding]

theorem follows_schedule (index : Nat) (d : Definition) :
    Follows ρ (Analyse.schedule index d) (Analyse.schedule index (d.rename ρ)) := by
  have hplace : Follows ρ
      (modify fun analysis : Analysis => { analysis with
        positions := analysis.positions.insert (.binding d.name) index
        worklist := analysis.worklist ++ [.binding d.name] })
      (modify fun analysis : Analysis => { analysis with
        positions := analysis.positions.insert (.binding d.name) index
        worklist := analysis.worklist ++ [.binding d.name] }) := by
    refine Follows.modify fun analysis => ?_
    have hposition := insert_binding_rename hρ id analysis.positions d.name index
    simp only [Analysis.rename, List.map_append, List.map_cons, List.map_nil, hρ.binding]
    rw [← hposition]
    rfl
  have hparams : (d.rename ρ).body.params? = d.body.params?.map (List.map (Param.rename ρ)) :=
    d.body.params?_rename ρ
  have hbound : (d.rename ρ).body.boundNames = d.body.boundNames.map ρ :=
    (boundNames_rename ρ).2 d.body
  unfold Analyse.schedule
  rw [hparams, hbound]
  refine (Follows.modify fun analysis => ?_).bind fun _ => ?_
  · have hdependents := dependents_rename hρ analysis d
    simp only [Analysis.rename, List.map_append] at hdependents ⊢
    rw [← hdependents]
    rfl
  · cases d.body.params? with
    | none => exact hplace
    | some params =>
      have hunknown := follows_recordUnknown hρ.injective (params.map Param.name)
      rw [← Param.map_name_rename] at hunknown
      refine hunknown.bind fun _ => (Follows.modify fun analysis => ?_).bind fun _ => hplace
      have hfunction := insert_binding_rename hρ (List.map ρ) analysis.functionParams d.name
        (params.map Param.name)
      rw [← Param.map_name_rename] at hfunction
      simp only [Analysis.rename]
      rw [← hfunction]
      rfl

theorem follows_scheduleAll (declarations : List Declaration) :
    Follows ρ (Analyse.scheduleAll declarations)
      (Analyse.scheduleAll (declarations.map (Declaration.rename ρ))) := by
  refine Follows.bind (Follows.forM ?_) fun _ => ?_
  · exact List.forall₂_map_right_iff.2 (List.forall₂_same.2 fun declaration _ =>
      follows_declare hρ declaration)
  · rw [List.zipIdx_map]
    refine Follows.forM (List.forall₂_map_right_iff.2 (List.forall₂_same.2 fun entry _ => ?_))
    obtain ⟨declaration, index⟩ := entry
    cases declaration with
    | data d => exact Follows.pure _
    | definition d => exact follows_schedule hρ index d

theorem follows_definition (name : Name) (d : Definition) :
    Follows ρ (Analyse.definition name d) (Analyse.definition (ρ name) (d.rename ρ)) := by
  refine Follows.get fun analysis => ?_
  have hinner : (d.rename ρ).body.inner = d.body.inner.rename ρ := d.body.inner_rename ρ
  rw [hinner, analysis.lookup_rename hρ.injective]
  refine (((follows_all hρ.injective).2 d.body.inner).bind fun value => ?_) analysis
  refine (follows_record hρ.injective name value).bind fun result => ?_
  split
  · refine Follows.modify fun after => ?_
    have hdependents := after.dependents.get_rename hρ.injective name
    simp only [Analysis.rename, hdependents, List.map_append]
  · exact Follows.pure _

/-- When the first run ends, the second one does to the renamed analysis what the first one does. -/
def FollowsRun (ρ : Name → Name) (run run' : Run Analysis Unit) : Prop :=
  ∀ analysis after : Analysis, run analysis = .ok () after →
    run' (analysis.rename ρ) = .ok () (after.rename ρ)

theorem follows_scheduled (declarations : List Declaration) (name : Name) :
    FollowsRun ρ (Analyse.scheduled declarations name)
      (Analyse.scheduled (declarations.map (Declaration.rename ρ)) (ρ name)) := by
  intro analysis after hrun
  have hposition : (analysis.rename ρ).positions.get? (ρ name) = analysis.positions.get? name := by
    rw [Analysis.rename, Table.get?_rename hρ.injective, Option.map_id_fun, id]
  rw [Analyse.scheduled_apply] at hrun ⊢
  rw [hposition]
  cases hindex : analysis.positions.get? name with
  | none =>
    rw [hindex] at hrun
    cases hrun
    rfl
  | some index =>
    rw [hindex] at hrun
    simp only [List.getElem?_map]
    cases hdeclaration : declarations[index]? with
    | none =>
      simp only [hdeclaration] at hrun
      cases hrun
    | some declaration =>
      simp only [hdeclaration] at hrun
      cases declaration with
      | data d =>
        cases hrun
        rfl
      | definition d =>
        have hafter : (Analyse.definition name d analysis).2 = after := by
          cases hrun
          rfl
        have hdefinition := follows_definition hρ name d analysis
        rw [hafter] at hdefinition
        show EStateM.Result.ok (Analyse.definition (ρ name) (d.rename ρ) (analysis.rename ρ)).1
          (Analyse.definition (ρ name) (d.rename ρ) (analysis.rename ρ)).2 = _
        rw [hdefinition]

theorem follows_drain (declarations : List Declaration) (fuel : Nat) :
    FollowsRun ρ (Analyse.drain declarations fuel)
      (Analyse.drain (declarations.map (Declaration.rename ρ)) fuel) := by
  induction fuel with
  | zero =>
    intro analysis after hrun
    cases hrun
    rfl
  | succ fuel ih =>
    intro analysis after hrun
    have hrenamed : (analysis.rename ρ).worklist = analysis.worklist.map ρ := rfl
    rw [Analyse.drain_succ] at hrun ⊢
    rw [hrenamed]
    cases hworklist : analysis.worklist with
    | nil =>
      rw [hworklist] at hrun
      cases hrun
      rfl
    | cons name rest =>
      rw [hworklist] at hrun
      change EStateM.bind (Analyse.scheduled declarations name)
        (fun _ => Analyse.drain declarations fuel) { analysis with worklist := rest } = _ at hrun
      show EStateM.bind (Analyse.scheduled (declarations.map (Declaration.rename ρ)) (ρ name))
        (fun _ => Analyse.drain (declarations.map (Declaration.rename ρ)) fuel)
        (Analysis.rename ρ { analysis with worklist := rest }) = _
      rw [EStateM.bind] at hrun ⊢
      cases hscheduled : Analyse.scheduled declarations name { analysis with worklist := rest } with
      | ok _ mid =>
        rw [hscheduled] at hrun
        rw [follows_scheduled hρ declarations name _ mid hscheduled]
        exact ih mid after hrun
      | error fault mid =>
        rw [hscheduled] at hrun
        cases hrun

omit hρ in
theorem analysisBound_rename (analysis : Analysis) (declarations : List Declaration) :
    (analysis.rename ρ).analysisBound (declarations.map (Declaration.rename ρ)) =
      analysis.analysisBound declarations := by
  have hcount : ∀ declaration : Declaration,
      (declaration.rename ρ).nameCount = declaration.nameCount := by
    intro declaration
    cases declaration with
    | data d => rfl
    | definition d =>
      show (d.body.rename ρ).boundNames.length + (d.body.rename ρ).references.length = _
      rw [(boundNames_rename ρ).2, (references_rename ρ).2, List.length_map, List.length_map]
      rfl
  have htotal : total Declaration.nameCount (declarations.map (Declaration.rename ρ)) =
      total Declaration.nameCount declarations := by
    induction declarations with
    | nil => rfl
    | cons declaration rest ih => rw [List.map_cons, total_cons, total_cons, hcount, ih]
  rw [Analysis.analysisBound, Analysis.analysisBound, htotal, total_params_rename]
  simp [Analysis.rename, Table.rename, Table.size]

/-- The analysis of renamed declarations ends with the renamed results of the analysis of the
declarations: how local names are spelled does not matter, as long as different names are
spelled differently. -/
theorem analysis_renamed (declarations : List Declaration) :
    ∃ known, Analyse.declarations declarations Analysis.start = .ok () known ∧
      Analyse.declarations (declarations.map (Declaration.rename ρ)) Analysis.start =
        .ok () (known.rename ρ) ∧
      ∀ name, (known.rename ρ).values.get? (ρ name) = known.values.get? name := by
  obtain ⟨known, hrun, -, -⟩ := declarations_drained declarations
  refine ⟨known, hrun, ?_, known.get?_values_rename hρ.injective⟩
  have hscheduled := follows_scheduleAll hρ declarations Analysis.start
  have hstart : Analysis.start.rename ρ = Analysis.start := rfl
  rw [hstart] at hscheduled
  change Analyse.drain declarations
    ((Analyse.scheduleAll declarations Analysis.start).2.analysisBound declarations)
    (Analyse.scheduleAll declarations Analysis.start).2 = _ at hrun
  show Analyse.drain (declarations.map (Declaration.rename ρ))
    ((Analyse.scheduleAll (declarations.map (Declaration.rename ρ)) Analysis.start).2.analysisBound
      (declarations.map (Declaration.rename ρ)))
    (Analyse.scheduleAll (declarations.map (Declaration.rename ρ)) Analysis.start).2 = _
  rw [hscheduled, analysisBound_rename]
  exact follows_drain hρ declarations _ _ known hrun

end Worklist

/-! ## Names of several definitions -/

/-- Two functions with a local function of one name, where only the first one calls it with a
literal. -/
def Namespace.reused : Namespace :=
  let int := Ty.builtIn .int
  let function := Ty.function [int] int
  let ns : NamespaceName := ⟨[], "reused"⟩
  let f := Name.bound "f" 1
  let definition (name : String) (outer inner : Name) (arg : Value) : Declaration :=
    .definition ⟨⟨ns, name⟩, function, .value (.lambda [⟨outer, int⟩]
      (.block [.assign f function (.value (.lambda [⟨inner, int⟩] (.value (.reference inner int))))]
        (.apply int (.reference f function) [arg])))⟩
  let p := Name.bound "p" 0
  ⟨ns, [definition "one" (.bound "q" 0) (.bound "x" 2) (.literal (.int 1)),
    definition "same" p (.bound "y" 2) (.reference p int)]⟩

/-- Local names of the second definition are told apart from those of the first one. -/
def tellApart (definition : QualifiedName) (name : Name) : Name :=
  match name with
  | .bound text index => if definition.name = "same" then .bound text (index + 3) else name
  | name => name

/-- What is known about a definition after the analysis of declarations. -/
def Analyse.known? (declarations : List Declaration) (name : QualifiedName) : Option Lattice :=
  match Analyse.declarations declarations Analysis.start with
  | .ok () known => known.values.get? (.binding name)
  | .error _ _ => none

theorem Analyse.eq_ok_of_known? {declarations : List Declaration} {name : QualifiedName}
    {value : Lattice} (h : Analyse.known? declarations name = some value) :
    ∃ known, Analyse.declarations declarations Analysis.start = .ok () known ∧
      known.values.get? (.binding name) = some value := by
  unfold known? at h
  split at h
  · exact ⟨_, ‹_›, h⟩
  · cases h

/-- The parameter of the second local function is never recorded when both have one name, so that
the second function is taken to return what the first one is called with. -/
theorem exists_reused_not_atMost :
    (Namespace.reused.definitions.map Definition.name).Nodup ∧
      (∀ d ∈ Namespace.reused.definitions,
        d.body.boundNames.Nodup ∧ d.body.isScoped Namespace.reused.locals [] = true) ∧
      (Namespace.reused.renameEach tellApart).WellScoped ∧
      ∃ known apart, Analyse.declarations Namespace.reused.declarations Analysis.start =
          .ok () known ∧
        Analyse.declarations (Namespace.reused.renameEach tellApart).declarations Analysis.start =
          .ok () apart ∧
        ∃ d ∈ Namespace.reused.definitions, ∃ low high,
          known.values.get? (.binding d.name) = some low ∧
          apart.values.get? (.binding d.name) = some high ∧
          low = .constant (.int 1) ∧ high = .nonConstant ∧ ¬ high.AtMost low := by
  have hlow : Analyse.known? Namespace.reused.declarations ⟨⟨[], "reused"⟩, "same"⟩ =
      some (.constant (.int 1)) := by decide +kernel
  have hhigh : Analyse.known? (Namespace.reused.renameEach tellApart).declarations
      ⟨⟨[], "reused"⟩, "same"⟩ = some .nonConstant := by decide +kernel
  obtain ⟨known, hknown, hconstant⟩ := Analyse.eq_ok_of_known? hlow
  obtain ⟨apart, hapart, hnonConstant⟩ := Analyse.eq_ok_of_known? hhigh
  refine ⟨by decide, by decide, by decide, known, apart, hknown, hapart, _, .tail _ (.head _), _, _,
    hconstant, hnonConstant, rfl, rfl, ?_⟩
  simp [Lattice.AtMost, Lattice.compare]

end Lowered

end PolyFront
