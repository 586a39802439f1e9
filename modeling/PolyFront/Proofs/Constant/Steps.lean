import PolyFront.Proofs.Constant.Passes

/-!
# Every analysis advances

The analysis of an expression advances from every state, however the expression is formed: its
names may be bound twice, shadow each other or be bound nowhere, and calls may pass any number of
arguments.  A repeated pass is covered as well, no matter how often it is repeated.
-/

namespace PolyFront.Lowered

/-- A run that advances. -/
def Steps {α : Type} (bound called : List Name) (calls : Nat) (before : Analysis)
    (run : Analyse α) : Prop :=
  Advances bound called calls before (run before).2

/-- A name that an analysis may record something about. -/
def Touches (bound called : List Name) (analysis : Analysis) (name : Name) : Prop :=
  name ∈ bound ∨ ∃ f ∈ called, ∃ params, analysis.functionParams.get? f = some params ∧
    (name ∈ params ∨ name = f)

section Rules

variable {α β : Type} {bound bound' called called' : List Name} {calls calls' : Nat}
  {before : Analysis}

theorem Touches.advances {after : Analysis} {name : Name} (h : Touches bound called before name)
    (hadvances : Advances bound called calls before after) : Touches bound called after name := by
  refine h.imp_right ?_
  rintro ⟨f, hf, params, hparams, hmem⟩
  exact ⟨f, hf, params, hadvances.kept f params hparams, hmem⟩

theorem Steps.pure (a : α) : Steps bound called calls before (Pure.pure a : Analyse α) :=
  Advances.refl _ _ _ _

theorem Steps.bind {run : Analyse α} {next : α → Analyse β}
    (hrun : Steps bound called calls before run)
    (hnext : ∀ a after, Advances bound called calls before after →
      Steps bound called calls after (next a)) :
    Steps bound called calls before (run >>= next) :=
  Advances.trans hrun (hnext _ _ hrun)

theorem Steps.get {next : Analysis → Analyse β}
    (h : Steps bound called calls before (next before)) :
    Steps bound called calls before (MonadState.get >>= next) := h

theorem Steps.mono {run : Analyse α} (h : Steps bound called calls before run)
    (hbound : bound ⊆ bound') (hcalled : called ⊆ called') (hcalls : calls ≤ calls') :
    Steps bound' called' calls' before run :=
  Advances.mono h hbound hcalled hcalls

/-- A run on a part of what is analysed. -/
theorem Steps.part {run : Analyse α} (h : Steps bound called called.length before run)
    (hbound : bound ⊆ bound') (hcalled : called.Sublist called') :
    Steps bound' called' called'.length before run :=
  h.mono hbound hcalled.subset hcalled.length_le

/-- A run of which the result is not used. -/
theorem Steps.discard {run : Analyse α} (h : Steps bound called calls before run) :
    Steps bound called calls before (do let _ ← run) :=
  h.bind fun _ _ _ => Steps.pure _

theorem Steps.forM {items : List α} {f : α → Analyse PUnit}
    (h : ∀ item ∈ items, ∀ before, Steps bound called calls before (f item)) :
    Steps bound called calls before (items.forM f) := by
  induction items generalizing before with
  | nil => exact Steps.pure _
  | cons item rest ih =>
    refine (h item List.mem_cons_self before).bind fun _ _ _ => ?_
    exact ih fun other ho => h other (List.mem_cons_of_mem _ ho)

end Rules

/-! ## Records and calls -/

section Records

variable {bound called : List Name} {calls : Nat} {before : Analysis}

theorem steps_record {name : Name} (hname : Touches bound called before name) (value : Lattice) :
    Steps bound called calls before (Analyse.record name value) :=
  Advances.record hname value

theorem steps_recordUnknown {params : List Name}
    (hparams : ∀ p ∈ params, Touches bound called before p) :
    Steps bound called calls before (Analyse.recordUnknown params) := by
  induction params generalizing before with
  | nil => exact Steps.pure _
  | cons p rest ih =>
    have hfirst : Steps bound called calls before (Analyse.record p .nonConstant) :=
      steps_record (hparams p List.mem_cons_self) .nonConstant
    refine hfirst.discard.bind fun _ after hafter => ih fun q hq => ?_
    exact (hparams q (List.mem_cons_of_mem p hq)).advances hafter

theorem steps_recordArgs {params : List Name} {args : List (Analyse Lattice)}
    (hparams : ∀ p ∈ params, Touches bound called before p)
    (hargs : ∀ arg ∈ args, ∀ before, Steps bound called calls before arg) :
    Steps bound called calls before (Analyse.recordArgs params args) := by
  induction params generalizing before args with
  | nil => exact Steps.pure _
  | cons p rest ih =>
    cases args with
    | nil => exact Steps.pure _
    | cons arg others =>
      have hrecord : Steps bound called calls before (do let _ ← Analyse.record p (← arg)) := by
        refine (hargs arg List.mem_cons_self before).bind fun value after hafter => ?_
        exact (steps_record ((hparams p List.mem_cons_self).advances hafter) value).discard
      refine hrecord.bind fun _ after hafter => ih (fun q hq => ?_) fun other ho => ?_
      · exact (hparams q (List.mem_cons_of_mem p hq)).advances hafter
      · exact hargs other (List.mem_cons_of_mem arg ho)

/-- Functions that are referred to can be touched, and so can their parameters. -/
theorem touches_params {name : Name} (hname : name ∈ called) :
    ∀ p ∈ (before.functionParams.get? name).getD [], Touches bound called before p := by
  intro p hp
  cases hparams : before.functionParams.get? name with
  | none =>
    rw [hparams] at hp
    cases hp
  | some params =>
    rw [hparams] at hp
    exact .inr ⟨name, hname, params, hparams, .inl hp⟩

theorem steps_reference {name : Name} (hname : name ∈ called) (type : Ty) :
    Steps bound called calls before (Analyse.reference name type) := by
  unfold Analyse.reference
  split
  · exact Steps.get ((steps_recordUnknown (touches_params hname)).bind fun _ _ _ => Steps.pure _)
  · exact Steps.get (Steps.pure _)

/-- A definition is scheduled only when its parameters have changed. -/
theorem steps_schedule {run : Analyse Unit} (hrun : Steps bound called calls before run)
    (name : Name) : Steps bound called (calls + 1) before (do
      run
      modify fun analysis =>
        if before.changes < analysis.changes && analysis.positions.contains name then
          { analysis with worklist := analysis.worklist ++ [name] }
        else analysis) := by
  show Advances _ _ _ _ (if _ then _ else _)
  split
  · rename_i hchanged
    rw [Bool.and_eq_true, decide_eq_true_iff] at hchanged
    exact Advances.push hrun hchanged.1 name
  · exact hrun.mono (List.Subset.refl _) (List.Subset.refl _) (Nat.le_succ _)

theorem steps_call {name : Name} {args : List (Analyse Lattice)} (hname : name ∈ called)
    (hargs : ∀ arg ∈ args, ∀ before, Steps bound called calls before arg) :
    Steps bound called (calls + 1) before (Analyse.call name args) := by
  refine Steps.get ?_
  cases hparams : before.functionParams.get? name with
  | none =>
    refine Steps.bind ((Steps.forM fun arg harg mid => (hargs arg harg mid).discard).mono
      (List.Subset.refl _) (List.Subset.refl _) (Nat.le_succ _)) fun _ after _ => ?_
    exact Steps.get (Steps.pure _)
  | some params =>
    have hself : Touches bound called before name := .inr ⟨name, hname, params, hparams, .inr rfl⟩
    refine (steps_record hself .unassigned).bind fun _ mid hmid => Steps.get ?_
    have hrecorded : Steps bound called calls mid (Analyse.recordArgs params args) :=
      steps_recordArgs (fun p hp => .inr ⟨name, hname, params, hmid.kept name params hparams,
        .inl hp⟩) hargs
    exact (steps_schedule hrecorded name).bind fun _ _ _ => Steps.get (Steps.pure _)

end Records

/-! ## Branches, cases and blocks -/

section Branches

variable {bound called : List Name} {calls : Nat} {before : Analysis}

theorem steps_conditional (condition : Lattice) {consequent alternative : Analyse Lattice}
    (hconsequent : ∀ before, Steps bound called calls before consequent)
    (halternative : ∀ before, Steps bound called calls before alternative) :
    Steps bound called calls before (Analyse.conditional condition consequent alternative) := by
  unfold Analyse.conditional
  split
  · exact Steps.pure _
  · exact hconsequent before
  · exact halternative before
  · refine (hconsequent before).bind fun left mid _ => ?_
    exact (halternative mid).bind fun right after _ => Steps.pure _

mutual
theorem steps_pattern (value : Lattice) : ∀ (pattern : Pattern) {before : Analysis},
    pattern.boundNames ⊆ bound → Steps bound called calls before (Analyse.pattern value pattern)
  | .id _, _, h => (steps_record (.inl (h List.mem_cons_self)) value).discard
  | .alias _ inner, _, h =>
    (steps_record (.inl (h List.mem_cons_self)) value).bind fun _ _ _ =>
      steps_pattern value inner fun _ hname => h (List.mem_cons_of_mem _ hname)
  | .literal _, _, _ => Steps.pure _
  | .constructor _ fields, _, h => steps_fieldPatterns fields h
theorem steps_fieldPattern : ∀ (field : FieldPattern) {before : Analysis},
    field.boundNames ⊆ bound → Steps bound called calls before (Analyse.fieldPattern field)
  | ⟨_, inner⟩, _, h => steps_pattern .nonConstant inner h
theorem steps_fieldPatterns : ∀ (fields : List FieldPattern) {before : Analysis},
    FieldPattern.boundNamesList fields ⊆ bound →
      Steps bound called calls before (Analyse.fieldPatterns fields)
  | [], _, _ => Steps.pure _
  | field :: rest, _, h =>
    (steps_fieldPattern field fun _ hname => h (List.mem_append_left _ hname)).bind
      fun _ _ _ => steps_fieldPatterns rest fun _ hname => h (List.mem_append_right _ hname)
end

theorem steps_analyseCases {scrutinee : Lattice} {cases : List (Pattern × Analyse Lattice)}
    (hcases : ∀ case ∈ cases, case.1.boundNames ⊆ bound ∧
      ∀ before, Steps bound called calls before case.2) (result : Lattice) :
    Steps bound called calls before (analyseCases scrutinee cases result) := by
  induction cases generalizing before result with
  | nil => exact Steps.pure _
  | cons case rest ih =>
    obtain ⟨hnames, hbody⟩ := hcases case List.mem_cons_self
    have hcase : Steps bound called calls before (do
        Analyse.pattern scrutinee case.1
        pure (result.join (← case.2))) :=
      (steps_pattern scrutinee case.1 hnames).bind fun _ mid _ =>
        (hbody mid).bind fun _ _ _ => Steps.pure _
    rw [analyseCases, List.foldlM_cons]
    refine hcase.bind fun joined after _ => ih (fun other ho => ?_) joined
    exact hcases other (List.mem_cons_of_mem _ ho)

theorem steps_cases (scrutinee : Lattice) {cases : List (Pattern × Analyse Lattice)}
    (hcases : ∀ case ∈ cases, case.1.boundNames ⊆ bound ∧
      ∀ before, Steps bound called calls before case.2) :
    Steps bound called calls before (Analyse.cases scrutinee cases) := by
  rw [cases_eq]
  split
  · exact Steps.pure _
  · refine steps_analyseCases (fun case hcase => ?_) .unassigned
    obtain ⟨candidate, hmem, rfl⟩ := List.mem_map.1 hcase
    exact hcases candidate.1 (candidates_subset hmem)

/-- What is known after a repeated pass. -/
theorem stabilise_succ (pass : Analyse Lattice) (fuel : Nat) (before : Analysis) :
    Analyse.stabilise pass (fuel + 1) before =
      if before.changes < (pass before).2.changes then
        Analyse.stabilise pass fuel (pass before).2
      else pass before := by
  show (if before.changes < (pass before).2.changes then Analyse.stabilise pass fuel
    else pure (pass before).1 : Analyse Lattice) (pass before).2 = _
  by_cases hchanged : before.changes < (pass before).2.changes
  · rw [if_pos hchanged, if_pos hchanged]
  · rw [if_neg hchanged, if_neg hchanged]
    rfl

theorem steps_stabilise {pass : Analyse Lattice}
    (hpass : ∀ before, Steps bound called calls before pass) (fuel : Nat) :
    Steps bound called calls before (Analyse.stabilise pass fuel) := by
  induction fuel generalizing before with
  | zero => exact hpass before
  | succ fuel ih =>
    rw [Steps, stabilise_succ]
    split
    · exact (hpass before).trans ih
    · exact hpass before

theorem steps_binding {binding : Binding} (hbound : binding.boundNames ⊆ bound)
    (hinner : ∀ before, Steps bound called calls before (Analyse.expr binding.inner)) :
    Steps bound called calls before (Analyse.binding binding) := by
  rw [Binding.boundNames_eq] at hbound
  have hresult : ∀ before, Steps bound called calls before
      (Analyse.recordResult binding.name (Analyse.expr binding.inner)) := fun before =>
    (hinner before).bind fun value _ _ =>
      (steps_record (.inl (hbound List.mem_cons_self)) value).discard
  rw [Analyse.binding_eq]
  cases hparams : binding.params? with
  | none => exact hresult before
  | some params =>
    have hown : params.map Param.name ⊆ bound := by
      intro p hp
      refine hbound (List.mem_cons_of_mem _ (List.mem_append_left _ ?_))
      rw [Binding.paramNames, hparams]
      exact hp
    have hfunction : Steps bound called calls before
        (Analyse.recordFunction binding.name params) :=
      Advances.withFunction (hbound List.mem_cons_self) hown
    exact hfunction.bind fun _ mid _ => hresult mid

theorem steps_bindingList {bindings : List Binding}
    (h : ∀ binding ∈ bindings, ∀ before,
      Steps bound called calls before (Analyse.binding binding)) :
    Steps bound called calls before (Analyse.bindingList bindings) := by
  induction bindings generalizing before with
  | nil => exact Steps.pure _
  | cons binding rest ih =>
    rw [Analyse.bindingList]
    refine (h binding List.mem_cons_self before).bind fun _ _ _ => ?_
    exact ih fun other ho => h other (List.mem_cons_of_mem _ ho)

end Branches

/-! ## Expressions -/

/-- The analysis of a value advances. -/
def StepsValue (value : Value) : Prop :=
  ∀ before, Steps value.boundNames value.references value.references.length before
    (Analyse.value value)

/-- The analysis of an expression advances. -/
def StepsExpr (expr : Expr) : Prop :=
  ∀ before, Steps expr.boundNames expr.references expr.references.length before
    (Analyse.expr expr)

theorem steps_values {args : List Value} (h : ∀ arg ∈ args, StepsValue arg) :
    ∀ run ∈ Analyse.values args, ∀ before, Steps (Value.boundNamesList args)
      (Value.referencesList args) (Value.referencesList args).length before run := by
  intro run hrun before
  rw [Analyse.values_eq] at hrun
  obtain ⟨arg, harg, rfl⟩ := List.mem_map.1 hrun
  have hbound : arg.boundNames ⊆ Value.boundNamesList args := by
    rw [Value.boundNamesList_eq]
    exact (sublist_flatMap_of_mem harg).subset
  have hcalled : arg.references.Sublist (Value.referencesList args) := by
    rw [Value.referencesList_eq]
    exact sublist_flatMap_of_mem harg
  exact (h arg harg before).part hbound hcalled

theorem steps_lambda {params : List Param} {body : Expr} (hbody : StepsExpr body) :
    StepsValue (.lambda params body) := by
  intro before
  rw [Analyse.value]
  refine (steps_recordUnknown fun p hp => .inl (List.mem_append_left _ hp)).bind
    fun _ mid _ => ?_
  refine ((hbody mid).part (List.subset_append_right _ _) (List.Sublist.refl _)).bind
    fun _ _ _ => Steps.pure _

/-- The function is applied after its arguments were analysed. -/
theorem steps_apply {type : Ty} {function : Value} {args : List Value}
    (hfunction : StepsValue function)
    (hbody : ∀ params body, function = .lambda params body → StepsExpr body)
    (hargs : ∀ arg ∈ args, StepsValue arg) : StepsExpr (.apply type function args) := by
  intro before
  have hruns : ∀ run ∈ Analyse.values args, ∀ before, Steps (function.boundNames ++
      Value.boundNamesList args) (function.references ++ Value.referencesList args)
      (Value.referencesList args).length before run := fun run hrun before =>
    (steps_values hargs run hrun before).mono (List.subset_append_right _ _)
      (List.subset_append_right _ _) (Nat.le_refl _)
  have hall : ∀ run ∈ Analyse.values args, ∀ before, Steps (function.boundNames ++
      Value.boundNamesList args) (function.references ++ Value.referencesList args)
      (function.references ++ Value.referencesList args).length before run :=
    fun run hrun before => (steps_values hargs run hrun before).part
      (List.subset_append_right _ _) (List.sublist_append_right _ _)
  have hafter : ∀ {next : PUnit → Analyse Lattice},
      (∀ mid, Steps (function.boundNames ++ Value.boundNamesList args)
        (function.references ++ Value.referencesList args)
        (function.references ++ Value.referencesList args).length mid (next ())) →
      Steps (function.boundNames ++ Value.boundNamesList args)
        (function.references ++ Value.referencesList args)
        (function.references ++ Value.referencesList args).length before
        ((Analyse.values args).forM (fun arg => do let _ ← arg) >>= next) := fun hnext =>
    (Steps.forM fun arg harg mid => (hall arg harg mid).discard).bind fun _ mid _ => hnext mid
  rw [Analyse.expr]
  cases function with
  | reference name ftype =>
    rw [Analyse.apply]
    refine (steps_call (List.mem_append_left _ List.mem_cons_self) hruns).mono
      (List.Subset.refl _) (List.Subset.refl _) ?_
    rw [Expr.references, List.length_append, Nat.add_comm]
    exact Nat.le_refl _
  | lambda params body =>
    rw [Analyse.apply]
    refine (steps_recordArgs (fun p hp => .inl ?_) hall).bind fun _ mid _ => ?_
    · exact List.mem_append_left _ (List.mem_append_left _ hp)
    · refine (hbody params body rfl mid).part ?_ (List.sublist_append_left _ _)
      exact fun _ hname => List.mem_append_left _ (List.mem_append_right _ hname)
  | literal value =>
    rw [Analyse.apply]
    exact hafter fun _ => Steps.pure _
  | box inner =>
    rw [Analyse.apply]
    refine hafter fun mid => ?_
    have hinner := (hfunction mid).part (List.subset_append_left _ (Value.boundNamesList args))
      (List.sublist_append_left _ (Value.referencesList args))
    rw [Analyse.value] at hinner
    exact hinner
  | unbox inner =>
    rw [Analyse.apply]
    refine hafter fun mid => ?_
    have hinner := (hfunction mid).part (List.subset_append_left _ (Value.boundNamesList args))
      (List.sublist_append_left _ (Value.referencesList args))
    rw [Analyse.value] at hinner
    exact hinner

theorem steps_casesOf {scrutinee : Value} {cases : List Case} (hscrutinee : StepsValue scrutinee)
    (hcases : ∀ case ∈ cases, StepsExpr case.body) : StepsExpr (.cases scrutinee cases) := by
  intro before
  rw [Analyse.expr]
  refine ((hscrutinee before).part (List.subset_append_left _ _)
    (List.sublist_append_left _ _)).bind fun value mid _ => ?_
  refine steps_cases value fun pair hpair => ?_
  rw [Analyse.caseList_eq] at hpair
  obtain ⟨case, hcase, rfl⟩ := List.mem_map.1 hpair
  have hbound : case.boundNames ⊆ scrutinee.boundNames ++ Case.boundNamesList cases := by
    rw [Case.boundNamesList_eq]
    exact List.Subset.trans (sublist_flatMap_of_mem hcase).subset (List.subset_append_right _ _)
  have hcalled : case.references.Sublist (scrutinee.references ++ Case.referencesList cases) := by
    rw [Case.referencesList_eq]
    exact (sublist_flatMap_of_mem hcase).trans (List.sublist_append_right _ _)
  have hbody := hcases case hcase
  obtain ⟨pattern, body⟩ := case
  constructor
  · exact fun _ hname => hbound (List.mem_append_left _ hname)
  · intro before
    exact (hbody before).part (fun _ hname => hbound (List.mem_append_right _ hname)) hcalled

/-- One pass over a block. -/
theorem steps_pass {bindings : List Binding} {result : Expr}
    (hbindings : ∀ binding ∈ bindings, StepsExpr binding.inner) (hresult : StepsExpr result)
    (before : Analysis) :
    Steps (Expr.block bindings result).boundNames (Expr.block bindings result).references
      (Expr.block bindings result).references.length before
      (do Analyse.bindingList bindings; Analyse.expr result) := by
  refine (steps_bindingList fun binding hbinding before => ?_).bind fun _ mid _ => ?_
  · have hbound : binding.boundNames ⊆ (Expr.block bindings result).boundNames := by
      refine List.Subset.trans ?_ (List.subset_append_left _ _)
      rw [Binding.boundNamesList_eq]
      exact (sublist_flatMap_of_mem hbinding).subset
    have hcalled : binding.inner.references.Sublist
        (Expr.block bindings result).references := by
      rw [← binding.references_eq]
      refine List.Sublist.trans ?_ (List.sublist_append_left _ _)
      rw [Binding.referencesList_eq]
      exact sublist_flatMap_of_mem hbinding
    refine steps_binding hbound fun before => (hbindings binding hbinding before).part
      (fun _ hname => hbound ?_) hcalled
    rw [binding.boundNames_eq]
    exact List.mem_cons_of_mem _ (List.mem_append_right _ hname)
  · exact (hresult mid).part (List.subset_append_right _ _) (List.sublist_append_right _ _)

/-- Whatever is analysed advances. -/
theorem steps_all : (∀ value, StepsValue value) ∧ ∀ expr, StepsExpr expr := by
  refine induct ?_ ?_ ?_ ?_ ?_ ?_ ?_ ?_ ?_ ?_ ?_ ?_
  · intro value before
    exact Steps.pure _
  · intro name type before
    exact steps_reference List.mem_cons_self type
  · intro params body ih
    exact steps_lambda ih
  · intro value ih before
    rw [Analyse.value]
    exact (ih before).bind fun _ _ _ => Steps.pure _
  · intro value ih before
    rw [Analyse.value]
    exact (ih before).bind fun _ _ _ => Steps.pure _
  · intro value ih before
    rw [Analyse.expr]
    exact ih before
  · intro type function args ihFunction ihBody ihArgs
    exact steps_apply ihFunction ihBody ihArgs
  · intro op operand ih before
    rw [Analyse.expr]
    exact (ih before).bind fun _ _ _ => Steps.pure _
  · intro left op right ihLeft ihRight before
    rw [Analyse.expr]
    refine ((ihLeft before).part (List.subset_append_left _ _)
      (List.sublist_append_left _ _)).bind fun _ mid _ => ?_
    exact ((ihRight mid).part (List.subset_append_right _ _)
      (List.sublist_append_right _ _)).bind fun _ _ _ => Steps.pure _
  · intro condition consequent alternative ihCondition ihConsequent ihAlternative before
    rw [Analyse.expr]
    refine ((ihCondition before).part ?_ ?_).bind fun value mid _ =>
      steps_conditional value (fun before => ?_) fun before => ?_
    · exact List.Subset.trans (List.subset_append_left _ _) (List.subset_append_left _ _)
    · exact (List.sublist_append_left _ _).trans (List.sublist_append_left _ _)
    · exact (ihConsequent before).part
        (List.Subset.trans (List.subset_append_right _ _) (List.subset_append_left _ _))
        ((List.sublist_append_right _ _).trans (List.sublist_append_left _ _))
    · exact (ihAlternative before).part (List.subset_append_right _ _)
        (List.sublist_append_right _ _)
  · intro scrutinee cases ihScrutinee ihCases
    exact steps_casesOf ihScrutinee ihCases
  · intro bindings result ihBindings ihResult before
    rw [Analyse.expr]
    exact Steps.get (steps_stabilise (steps_pass ihBindings ihResult) _)

/-! ## The names that can be changed -/

section Listed

variable {bound' called called' names : List Name} {calls' : Nat}

/-- The functions that are referred to and their parameters are among the names. -/
def Listed (names called : List Name) (analysis : Analysis) : Prop :=
  ∀ f ∈ called, ∀ params, analysis.functionParams.get? f = some params →
    f ∈ names ∧ params ⊆ names

theorem Listed.advances {before after : Analysis} (h : Listed names called before)
    (hadvances : Advances bound' called' calls before after) (hbound : bound' ⊆ names) :
    Listed names called after := by
  intro f hf params hparams
  rcases hadvances.added f params hparams with hold | ⟨hown, hparams⟩
  · exact h f hf params hold
  · exact ⟨hbound hown, fun _ hp => hbound (hparams hp)⟩

theorem total_length {α : Type} (lists : List (List α)) :
    total List.length lists = lists.flatten.length := by
  induction lists with
  | nil => rfl
  | cons first rest ih => rw [total_cons, List.flatten_cons, List.length_append, ih]

/-- The names that the analysis of an expression can be about. -/
def Expr.scope (expr : Expr) (analysis : Analysis) : List Name :=
  expr.boundNames ++ expr.references ++ analysis.functionParams.values.flatten

theorem Expr.listed_scope (expr : Expr) (analysis : Analysis) :
    Listed (expr.scope analysis) expr.references analysis := by
  intro f hf params hparams
  refine ⟨List.mem_append_left _ (List.mem_append_right _ hf), fun p hp => ?_⟩
  refine List.mem_append_right _ (List.mem_flatten.2 ⟨params, ?_, hp⟩)
  exact List.mem_map.2 ⟨_, mem_of_lookup hparams, rfl⟩

/-- The bound on changes is enough for all names to move. -/
theorem Expr.potential_scope (expr : Expr) (analysis : Analysis) :
    analysis.potential (expr.scope analysis) ≤ analysis.changeBound expr := by
  refine Nat.le_trans (analysis.potential_le _) (Nat.le_of_eq ?_)
  rw [Analysis.changeBound, scope, List.length_append, List.length_append, total_length]

end Listed

end PolyFront.Lowered
