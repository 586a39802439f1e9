import PolyFront.Proofs.Constant.Covered
import PolyFront.Proofs.Constant.Moves

/-!
# What the passes of an analysis do

The analysis of an expression that fits a namespace binds the names that the expression binds and
refers to the names that it refers to, and what is known keeps agreeing with the namespace.
-/

namespace PolyFront

theorem Analyse.values_eq (args : List Lowered.Value) :
    Analyse.values args = args.map Analyse.value := by
  induction args with
  | nil => rfl
  | cons arg rest ih => rw [Analyse.values, ih, List.map_cons]

theorem Analyse.caseList_eq (cases : List Lowered.Case) :
    Analyse.caseList cases = cases.map fun case => (case.pattern, Analyse.expr case.body) := by
  induction cases with
  | nil => rfl
  | cons case rest ih =>
    obtain ⟨pattern, body⟩ := case
    rw [Analyse.caseList, ih, List.map_cons]
    rfl

/-- A binding records the function that it binds, if it binds one, and its result. -/
theorem Analyse.binding_eq (binding : Lowered.Binding) :
    Analyse.binding binding = match binding.params? with
      | some params => do
        Analyse.recordFunction binding.name params
        Analyse.recordResult binding.name (Analyse.expr binding.inner)
      | none => Analyse.recordResult binding.name (Analyse.expr binding.inner) := by
  cases binding with
  | join name type params body => rw [Analyse.binding]; rfl
  | assign name type body =>
    rcases body.function_or_plain with ⟨params, inner, rfl⟩ | ⟨hplain, hparams, hinner⟩
    · rw [Analyse.binding]
      rfl
    · rw [Analyse.binding, Lowered.Binding.params?, hparams, Lowered.Binding.inner, hinner]
      · rfl
      · exact hplain

namespace Lowered

/-- A run of an analysis that ends well. -/
structure Ends {α : Type} (ns : Namespace) (bound called : List Name) (calls : Nat)
    (before : Analysis) (run : Analyse α) (good : α → Prop) : Prop where
  proper : (run before).2.Proper ns
  moves : Moves bound called calls before (run before).2
  good : good (run before).1

/-- A run that ends well wherever it starts. -/
def Does {α : Type} (ns : Namespace) (bound called : List Name) (calls : Nat) (run : Analyse α)
    (good : α → Prop) : Prop :=
  ∀ before : Analysis, before.Proper ns → Ends ns bound called calls before run good

section Rules

variable {α β : Type} {ns : Namespace} {bound bound' called called' : List Name}
  {calls calls' : Nat} {before : Analysis}

theorem Ends.pure {good : α → Prop} {a : α} (h : before.Proper ns) (ha : good a) :
    Ends ns bound called calls before (Pure.pure a) good :=
  ⟨h, Moves.refl _ _ _ _, ha⟩

theorem Ends.bind {mid : α → Prop} {good : β → Prop} {run : Analyse α} {next : α → Analyse β}
    (hrun : Ends ns bound called calls before run mid)
    (hnext : ∀ a after, after.Proper ns → Moves bound called calls before after → mid a →
      Ends ns bound called calls after (next a) good) :
    Ends ns bound called calls before (run >>= next) good := by
  have hend := hnext _ _ hrun.proper hrun.moves hrun.good
  exact ⟨hend.proper, hrun.moves.trans hend.moves, hend.good⟩

theorem Ends.get {good : β → Prop} {next : Analysis → Analyse β}
    (h : Ends ns bound called calls before (next before) good) :
    Ends ns bound called calls before (MonadState.get >>= next) good :=
  ⟨h.proper, h.moves, h.good⟩

theorem Ends.mono {good : α → Prop} {run : Analyse α}
    (h : Ends ns bound called calls before run good) (hbound : bound ⊆ bound')
    (hcalled : called ⊆ called') (hcalls : calls ≤ calls') :
    Ends ns bound' called' calls' before run good :=
  ⟨h.proper, h.moves.mono hbound hcalled hcalls, h.good⟩

theorem Does.mono {good : α → Prop} {run : Analyse α} (h : Does ns bound called calls run good)
    (hbound : bound ⊆ bound') (hcalled : called ⊆ called') (hcalls : calls ≤ calls') :
    Does ns bound' called' calls' run good :=
  fun before hbefore => (h before hbefore).mono hbound hcalled hcalls

/-- A run on a part of what is analysed. -/
theorem Does.part {good : α → Prop} {run : Analyse α}
    (h : Does ns bound called called.length run good) (hbound : bound ⊆ bound')
    (hcalled : called.Sublist called') : Does ns bound' called' called'.length run good :=
  h.mono hbound hcalled.subset hcalled.length_le

/-- A run of which the result is not used. -/
theorem Ends.discard {good : α → Prop} {run : Analyse α}
    (h : Ends ns bound called calls before run good) :
    Ends ns bound called calls before (do let _ ← run) fun _ : PUnit => True :=
  h.bind fun _ _ hafter _ _ => Ends.pure hafter True.intro

end Rules

/-! ## Records -/

/-- A name that is no function and that an analysis may record something about. -/
def Reaches (ns : Namespace) (bound called : List Name) (analysis : Analysis) (name : Name) :
    Prop :=
  name ∈ ns.boundNames ∧ ns.params? name = none ∧
    (name ∈ bound ∨ ∃ f ∈ called, ∃ params, analysis.functionParams.get? f = some params ∧
      name ∈ params)

section Records

variable {ns : Namespace} {bound called : List Name} {calls : Nat}
  {before : Analysis}

theorem Reaches.moves {after : Analysis} {name : Name} (h : Reaches ns bound called before name)
    (hmoves : Moves bound called calls before after) : Reaches ns bound called after name := by
  refine ⟨h.1, h.2.1, ?_⟩
  rcases h.2.2 with hown | ⟨f, hf, params, hparams, hmem⟩
  · exact .inl hown
  · exact .inr ⟨f, hf, params, hmoves.kept f params hparams, hmem⟩

/-- The parameters of a function that is referred to can be reached. -/
theorem reaches_of_functionParams (hns : ns.WellScoped) (h : before.Proper ns) {f : Name}
    (hf : f ∈ called) {params : List Name} (hparams : before.functionParams.get? f = some params)
    {p : Name} (hp : p ∈ params) : Reaches ns bound called before p := by
  have hfunction := h.functions f params hparams
  refine ⟨?_, hns.params?_param hfunction hp, .inr ⟨f, hf, params, hparams, hp⟩⟩
  exact Namespace.mem_boundNames_of_mem_locals (Namespace.params_mem_locals hfunction hp)

theorem reaches_getD (hns : ns.WellScoped) (h : before.Proper ns) {f : Name} (hf : f ∈ called) :
    ∀ p ∈ (before.functionParams.get? f).getD [], Reaches ns bound called before p := by
  intro p hp
  cases hparams : before.functionParams.get? f with
  | none =>
    rw [hparams] at hp
    cases hp
  | some params =>
    rw [hparams] at hp
    exact reaches_of_functionParams hns h hf hparams hp

theorem ends_record {name : Name} {value : Lattice} (h : before.Proper ns)
    (hvalue : value.Declared ns) (hname : Reaches ns bound called before name) :
    Ends ns bound called calls before (Analyse.record name value) (Lattice.Declared ns) where
  proper := h.record hvalue hname.1 fun hparams => (hparams hname.2.1).elim
  moves := by
    refine Moves.record h hvalue (hname.2.2.imp_right ?_)
    rintro ⟨f, hf, params, hparams, hmem⟩
    exact ⟨f, hf, params, hparams, .inl hmem⟩
  good := (h.record_eq name hvalue).1

theorem ends_recordUnknown {params : List Name} (h : before.Proper ns)
    (hparams : ∀ p ∈ params, Reaches ns bound called before p) :
    Ends ns bound called calls before (Analyse.recordUnknown params) fun _ => True := by
  induction params generalizing before with
  | nil => exact Ends.pure h True.intro
  | cons p rest ih =>
    have hrecord : Ends ns bound called calls before (Analyse.record p .nonConstant) _ :=
      ends_record h True.intro (hparams p List.mem_cons_self)
    refine hrecord.discard.bind fun _ after hafter hmoves _ => ih hafter fun q hq => ?_
    exact (hparams q (List.mem_cons_of_mem p hq)).moves hmoves

theorem ends_recordArgs {params : List Name} {args : List (Analyse Lattice)}
    (h : before.Proper ns) (hparams : ∀ p ∈ params, Reaches ns bound called before p)
    (hargs : ∀ arg ∈ args, Does ns bound called calls arg (Lattice.Declared ns)) :
    Ends ns bound called calls before (Analyse.recordArgs params args) fun _ => True := by
  induction params generalizing before args with
  | nil => exact Ends.pure h True.intro
  | cons p rest ih =>
    cases args with
    | nil => exact Ends.pure h True.intro
    | cons arg others =>
      have hrecord : Ends ns bound called calls before
          (do let _ ← Analyse.record p (← arg)) fun _ : PUnit => True := by
        refine (hargs arg List.mem_cons_self before h).bind
            fun value after hafter hmoves hvalue => ?_
        exact (ends_record hafter hvalue ((hparams p List.mem_cons_self).moves hmoves)).discard
      refine hrecord.bind fun _ after hafter hmoves _ =>
          ih hafter (fun q hq => ?_) fun other ho => ?_
      · exact (hparams q (List.mem_cons_of_mem p hq)).moves hmoves
      · exact hargs other (List.mem_cons_of_mem arg ho)

theorem ends_forM {args : List (Analyse Lattice)} (h : before.Proper ns)
    (hargs : ∀ arg ∈ args, Does ns bound called calls arg (Lattice.Declared ns)) :
    Ends ns bound called calls before (args.forM fun arg => do let _ ← arg) fun _ => True := by
  induction args generalizing before with
  | nil => exact Ends.pure h True.intro
  | cons arg rest ih =>
    refine (hargs arg List.mem_cons_self before h).discard.bind fun _ after hafter _ _ => ?_
    exact ih hafter fun other ho => hargs other (List.mem_cons_of_mem arg ho)

theorem does_reference (hns : ns.WellScoped) {name : Name} (hname : name ∈ called) (type : Ty) :
    Does ns bound called calls (Analyse.reference name type) (Lattice.Declared ns) := by
  intro before h
  have hreference : (before.reference name).Declared ns := by
    rw [h.reference_eq]
    split
    · exact h.lookup_declared name
    · exact True.intro
  unfold Analyse.reference
  split
  · refine Ends.get ((ends_recordUnknown h (reaches_getD hns h hname)).bind
      fun _ _ hafter _ _ => ?_)
    exact Ends.pure hafter True.intro
  · exact ⟨h, Moves.refl _ _ _ _, hreference⟩

end Records

/-! ## Calls -/

section Calls

variable {ns : Namespace} {bound called : List Name} {calls : Nat} {before : Analysis}

theorem ends_recordFunctionName (h : before.Proper ns) {name : Name} {params : List Name}
    (hname : name ∈ called) (hparams : before.functionParams.get? name = some params) :
    Ends ns bound called calls before (Analyse.record name .unassigned) (Lattice.Declared ns) where
  proper := by
    refine h.record True.intro ?_ fun _ => by rw [hparams]; exact nofun
    exact Namespace.mem_boundNames_of_params? (h.functions name params hparams)
  moves := Moves.record h True.intro (.inr ⟨name, hname, params, hparams, .inr ⟨rfl, rfl⟩⟩)
  good := (h.record_eq name (Lattice.declared_unassigned ns)).1

/-- A definition is scheduled only when its parameters have changed. -/
theorem ends_schedule {run : Analyse Unit}
    (hrun : Ends ns bound called calls before run fun _ => True) (name : Name) :
    Ends ns bound called (calls + 1) before (do
      run
      modify fun analysis =>
        if before.changes < analysis.changes && analysis.positions.contains name then
          { analysis with worklist := analysis.worklist ++ [name] }
        else analysis) fun _ => True := by
  have hafter := hrun.proper
  have hmoves := hrun.moves
  refine ⟨?_, ?_, True.intro⟩
  · show Analysis.Proper ns (if _ then _ else _)
    split
    · exact hafter.push [name]
    · exact hafter
  · show Moves _ _ _ _ (if _ then _ else _)
    split
    · rename_i hchanged
      rw [Bool.and_eq_true, decide_eq_true_iff] at hchanged
      exact hmoves.push hchanged.1 name
    · exact hmoves.mono (List.Subset.refl _) (List.Subset.refl _) (Nat.le_succ _)

theorem does_call (hns : ns.WellScoped) {name : Name} {args : List (Analyse Lattice)}
    (hname : name ∈ called)
    (hargs : ∀ arg ∈ args, Does ns bound called calls arg (Lattice.Declared ns)) :
    Does ns bound called (calls + 1) (Analyse.call name args) (Lattice.Declared ns) := by
  intro before h
  refine Ends.get ?_
  cases hparams : before.functionParams.get? name with
  | none =>
    refine Ends.bind ((ends_forM h hargs).mono (List.Subset.refl _) (List.Subset.refl _)
      (Nat.le_succ _)) fun _ after hafter _ _ => ?_
    refine Ends.get (Ends.pure hafter ?_)
    rw [hafter.reference_eq]
    split
    · exact hafter.lookup_declared name
    · exact True.intro
  | some params =>
    refine Ends.bind (ends_recordFunctionName h hname hparams) fun _ mid hmid hmoves _ => ?_
    have hrecord : Ends ns bound called calls mid (Analyse.recordArgs params args) fun _ => True :=
      ends_recordArgs hmid (fun p hp => reaches_of_functionParams hns hmid hname
        (hmoves.kept name params hparams) hp) hargs
    refine Ends.get ?_
    have hend := (ends_schedule hrecord name).bind fun _ after hafter _ _ =>
      Ends.get (Ends.pure (a := after.lookup name) hafter (hafter.lookup_declared name))
    exact ⟨hend.proper, hend.moves, hend.good⟩

end Calls

/-! ## Branches and blocks -/

section Blocks

variable {ns : Namespace} {bound called : List Name} {calls : Nat} {before : Analysis}

theorem declared_unary (op : UnaryOp) (value : Lattice) :
    (Lattice.unary op value).Declared ns := by
  unfold Lattice.unary
  split
  · unfold Fold.unary
    split <;> exact True.intro
  · exact True.intro
  · exact True.intro

theorem declared_getD {α : Type} (result : Option α) (literal : α → Literal) {other : Lattice}
    (hother : other.Declared ns) :
    ((result.map fun value => Lattice.constant (literal value)).getD other).Declared ns := by
  cases result with
  | none => exact hother
  | some value => exact True.intro

theorem declared_arithmetic (ops : Fold.Arithmetic) (left right : Literal) :
    (ops.fold left right).Declared ns := by
  unfold Fold.Arithmetic.fold
  split
  · exact declared_getD _ _ True.intro
  · exact declared_getD _ _ True.intro
  · exact True.intro
  · exact True.intro
  · exact True.intro

theorem declared_power (left right : Literal) : (Fold.foldPower left right).Declared ns := by
  unfold Fold.foldPower
  split
  · exact declared_getD _ _ True.intro
  · exact declared_getD _ _ True.intro
  · exact True.intro
  · exact True.intro
  · exact True.intro

/-- Operators on literals give literals only. -/
theorem declared_fold (left : Literal) (op : BinaryOp) (right : Literal) :
    (Fold.binary left op right).Declared ns := by
  unfold Fold.binary
  split
  case h_1 => exact declared_power left right
  case h_2 | h_3 | h_4 | h_5 | h_6 => exact declared_arithmetic _ left right
  all_goals
    try unfold Fold.foldShift
    try unfold Fold.foldBitwise
    try unfold Fold.foldComparison
    try unfold Fold.foldBoolean
    try split
    all_goals exact True.intro

theorem declared_binary (left : Lattice) (op : BinaryOp) (right : Lattice) :
    (Lattice.binary left op right).Declared ns := by
  unfold Lattice.binary
  split
  · exact True.intro
  · exact True.intro
  · exact declared_fold _ op _
  · exact True.intro
  · exact True.intro
  · exact True.intro

theorem ends_conditional (h : before.Proper ns) (condition : Lattice)
    {consequent alternative : Analyse Lattice}
    (hconsequent : Does ns bound called calls consequent (Lattice.Declared ns))
    (halternative : Does ns bound called calls alternative (Lattice.Declared ns)) :
    Ends ns bound called calls before (Analyse.conditional condition consequent alternative)
      (Lattice.Declared ns) := by
  unfold Analyse.conditional
  split
  · exact Ends.pure h True.intro
  · exact hconsequent before h
  · exact halternative before h
  · refine (hconsequent before h).bind fun left mid hmid _ hleft => ?_
    refine (halternative mid hmid).bind fun right after hafter _ hright => ?_
    exact Ends.pure hafter (Lattice.declared_join hleft hright)

mutual
theorem ends_pattern {value : Lattice} (hvalue : value.Declared ns) :
    ∀ (pattern : Pattern) {before : Analysis}, before.Proper ns →
      (∀ name ∈ pattern.boundNames, Reaches ns bound called before name) →
      Ends ns bound called calls before (Analyse.pattern value pattern) fun _ => True
  | .id name, _, h, hnames =>
    (ends_record h hvalue (hnames name List.mem_cons_self)).discard
  | .alias name inner, _, h, hnames => by
    refine (ends_record h hvalue (hnames name List.mem_cons_self)).bind
      fun _ after hafter hmoves _ => ends_pattern hvalue inner hafter fun other hother => ?_
    exact (hnames other (List.mem_cons_of_mem name hother)).moves hmoves
  | .literal _, _, h, _ => Ends.pure h True.intro
  | .constructor _ fields, _, h, hnames => ends_fieldPatterns fields h hnames
theorem ends_fieldPattern :
    ∀ (field : FieldPattern) {before : Analysis}, before.Proper ns →
      (∀ name ∈ field.boundNames, Reaches ns bound called before name) →
      Ends ns bound called calls before (Analyse.fieldPattern field) fun _ => True
  | ⟨_, inner⟩, _, h, hnames =>
    ends_pattern (Lattice.declared_nonConstant ns) inner h hnames
theorem ends_fieldPatterns :
    ∀ (fields : List FieldPattern) {before : Analysis}, before.Proper ns →
      (∀ name ∈ FieldPattern.boundNamesList fields, Reaches ns bound called before name) →
      Ends ns bound called calls before (Analyse.fieldPatterns fields) fun _ => True
  | [], _, h, _ => Ends.pure h True.intro
  | field :: rest, _, h, hnames => by
    refine (ends_fieldPattern field h fun name hname => ?_).bind
      fun _ after hafter hmoves _ => ends_fieldPatterns rest hafter fun name hname => ?_
    · exact hnames name (List.mem_append_left _ hname)
    · exact (hnames name (List.mem_append_right _ hname)).moves hmoves
end

/-- The analysis of one case after the other, with the join of their results. -/
def analyseCases (scrutinee : Lattice) (cases : List (Pattern × Analyse Lattice))
    (result : Lattice) : Analyse Lattice :=
  cases.foldlM (fun result case => do
    Analyse.pattern scrutinee case.1
    pure (result.join (← case.2))) result

theorem cases_eq (scrutinee : Lattice) (cases : List (Pattern × Analyse Lattice)) :
    Analyse.cases scrutinee cases =
      if scrutinee = .unassigned then pure .unassigned
      else analyseCases scrutinee ((candidates Prod.fst scrutinee cases).map Prod.fst)
        .unassigned := by
  rw [Analyse.cases, analyseCases, List.foldlM_map]

theorem ends_analyseCases (h : before.Proper ns) {scrutinee result : Lattice}
    (hscrutinee : scrutinee.Declared ns) (hresult : result.Declared ns)
    {cases : List (Pattern × Analyse Lattice)}
    (hcases : ∀ case ∈ cases, (∀ name ∈ case.1.boundNames, name ∈ ns.boundNames ∧
        ns.params? name = none ∧ name ∈ bound) ∧
      Does ns bound called calls case.2 (Lattice.Declared ns)) :
    Ends ns bound called calls before (analyseCases scrutinee cases result)
      (Lattice.Declared ns) := by
  induction cases generalizing before result with
  | nil => exact Ends.pure h hresult
  | cons case rest ih =>
    obtain ⟨hnames, hbody⟩ := hcases case List.mem_cons_self
    have hcase : Ends ns bound called calls before (do
        Analyse.pattern scrutinee case.1
        pure (result.join (← case.2))) (Lattice.Declared ns) := by
      refine (ends_pattern hscrutinee case.1 h fun name hname => ?_).bind
        fun _ mid hmid _ _ => ?_
      · exact ⟨(hnames name hname).1, (hnames name hname).2.1, .inl (hnames name hname).2.2⟩
      · refine (hbody mid hmid).bind fun value after hafter _ hvalue => ?_
        exact Ends.pure hafter (Lattice.declared_join hresult hvalue)
    rw [analyseCases, List.foldlM_cons]
    refine hcase.bind fun joined after hafter _ hjoined => ih hafter hjoined fun other ho => ?_
    exact hcases other (List.mem_cons_of_mem _ ho)

theorem ends_cases (h : before.Proper ns) {scrutinee : Lattice}
    (hscrutinee : scrutinee.Declared ns) {cases : List (Pattern × Analyse Lattice)}
    (hcases : ∀ case ∈ cases, (∀ name ∈ case.1.boundNames, name ∈ ns.boundNames ∧
        ns.params? name = none ∧ name ∈ bound) ∧
      Does ns bound called calls case.2 (Lattice.Declared ns)) :
    Ends ns bound called calls before (Analyse.cases scrutinee cases) (Lattice.Declared ns) := by
  rw [cases_eq]
  split
  · exact Ends.pure h True.intro
  · refine ends_analyseCases h hscrutinee (Lattice.declared_unassigned ns) fun case hcase => ?_
    obtain ⟨candidate, hmem, rfl⟩ := List.mem_map.1 hcase
    exact hcases candidate.1 (candidates_subset hmem)

theorem does_stabilise {pass : Analyse Lattice}
    (hpass : Does ns bound called calls pass (Lattice.Declared ns)) (fuel : Nat) :
    Does ns bound called calls (Analyse.stabilise pass fuel) (Lattice.Declared ns) := by
  induction fuel with
  | zero => exact hpass
  | succ fuel ih =>
    intro before h
    refine Ends.get ((hpass before h).bind fun value after hafter _ hvalue => Ends.get ?_)
    split
    · exact ih after hafter
    · exact Ends.pure hafter hvalue

theorem ends_recordResult (h : before.Proper ns) {name : Name} (hname : name ∈ ns.boundNames)
    (hbound : name ∈ bound)
    (hfunction : ns.params? name ≠ none → before.functionParams.get? name ≠ none)
    {body : Analyse Lattice} (hbody : Does ns bound called calls body (Lattice.Declared ns)) :
    Ends ns bound called calls before (Analyse.recordResult name body) fun _ => True := by
  refine (hbody before h).bind fun value after hafter hmoves hvalue => Ends.discard
    ⟨hafter.record hvalue hname fun hparams => ?_, Moves.record hafter hvalue (.inl hbound),
      (hafter.record_eq name hvalue).1⟩
  obtain ⟨params, hrecorded⟩ := Option.ne_none_iff_exists'.1 (hfunction hparams)
  rw [hmoves.kept name params hrecorded]
  exact nofun

theorem ends_function (h : before.Proper ns) {name : Name} {params : List Param}
    (hname : ns.params? name = some (params.map Param.name)) (hbound : name ∈ bound)
    (hparams : params.map Param.name ⊆ bound) {body : Analyse Lattice}
    (hbody : Does ns bound called calls body (Lattice.Declared ns)) :
    Ends ns bound called calls before (do
      Analyse.recordFunction name params
      Analyse.recordResult name body) fun _ => True := by
  have hrecorded : (before.withFunction name (params.map Param.name)).functionParams.get? name ≠
      none := by
    by_cases hnone : before.functionParams.get? name = none
    · rw [Analysis.get?_withFunction _ hnone, if_pos rfl]
      exact nofun
    · rw [Analysis.withFunction_of_some hnone]
      exact hnone
  have hrun := ends_recordResult (h.withFunction hname)
    (Namespace.mem_boundNames_of_params? hname) hbound (fun _ => hrecorded) hbody
  exact ⟨hrun.proper, hrun.moves.withFunction h hname hbound hparams
    (Analysis.record_values_ne_none _ _ _), True.intro⟩

end Blocks

/-! ## Expressions -/

section Exprs

variable {ns : Namespace} {visible : List Name}

theorem mem_boundNames_of_fits {binders : List (Name × Option (List Name))} {inScope : Bool}
    (h : Fits ns visible binders inScope) {name : Name}
    (hname : name ∈ binders.map Prod.fst) : name ∈ ns.boundNames :=
  Namespace.mem_boundNames_of_mem_locals (h.locals name hname)

theorem Value.FitsList.mem {values : List Value}
    (h : Value.FitsList ns visible values) {value : Value}
    (hvalue : value ∈ values) : value.Fits ns visible := by
  induction values with
  | nil => cases hvalue
  | cons first rest ih =>
    rcases List.mem_cons.1 hvalue with rfl | hvalue
    · exact h.cons.1
    · exact ih h.cons.2.1 hvalue

theorem Case.FitsList.mem {cases : List Case}
    (h : Case.FitsList ns visible cases) {case : Case}
    (hcase : case ∈ cases) : case.Fits ns visible := by
  induction cases with
  | nil => cases hcase
  | cons first rest ih =>
    rcases List.mem_cons.1 hcase with rfl | hcase
    · exact h.cons.1
    · exact ih h.cons.2.1 hcase

/-- The analysis of a value binds and refers to what the value does. -/
def DoesValue (ns : Namespace) (value : Value) : Prop :=
  Does ns value.boundNames value.references value.references.length (Analyse.value value)
    (Lattice.Declared ns)

/-- The analysis of an expression binds and refers to what the expression does. -/
def DoesExpr (ns : Namespace) (expr : Expr) : Prop :=
  Does ns expr.boundNames expr.references expr.references.length (Analyse.expr expr)
    (Lattice.Declared ns)

theorem does_values {args : List Value} (h : ∀ arg ∈ args, DoesValue ns arg) :
    ∀ run ∈ Analyse.values args, Does ns (Value.boundNamesList args)
      (Value.referencesList args) (Value.referencesList args).length run
      (Lattice.Declared ns) := by
  intro run hrun
  rw [Analyse.values_eq] at hrun
  obtain ⟨arg, harg, rfl⟩ := List.mem_map.1 hrun
  have hbound : arg.boundNames ⊆ Value.boundNamesList args := by
    rw [Value.boundNamesList_eq]
    exact (sublist_flatMap_of_mem harg).subset
  have hcalled : arg.references.Sublist (Value.referencesList args) := by
    rw [Value.referencesList_eq]
    exact sublist_flatMap_of_mem harg
  exact (h arg harg).part hbound hcalled

theorem does_lambda {params : List Param} {body : Expr}
    (h : (Value.lambda params body).Fits ns visible) (hbody : DoesExpr ns body) :
    DoesValue ns (.lambda params body) := by
  intro before hbefore
  have hparams : ∀ p ∈ params.map Param.name,
      Reaches ns (Value.lambda params body).boundNames body.references before p := by
    intro p hp
    refine ⟨mem_boundNames_of_fits h ?_, h.lambda.2 p hp, .inl (List.mem_append_left _ hp)⟩
    rw [Value.map_fst_binders]
    exact List.mem_append_left _ hp
  rw [Analyse.value]
  refine (ends_recordUnknown hbefore hparams).bind fun _ mid hmid _ _ => ?_
  refine ((hbody.part (List.subset_append_right _ _) (List.Sublist.refl _)) mid hmid).bind
    fun _ after hafter _ _ => Ends.pure hafter True.intro

/-- The function is applied after its arguments were analysed. -/
theorem does_apply (hns : ns.WellScoped) {type : Ty} {function : Value}
    {args : List Value} (h : (Expr.apply type function args).Fits ns visible)
    (hfunction : DoesValue ns function)
    (hbody : ∀ params body, function = .lambda params body → DoesExpr ns body)
    (hargs : ∀ arg ∈ args, DoesValue ns arg) : DoesExpr ns (.apply type function args) := by
  have hruns : ∀ run ∈ Analyse.values args, Does ns (function.boundNames ++
      Value.boundNamesList args) (function.references ++ Value.referencesList args)
      (Value.referencesList args).length run (Lattice.Declared ns) := fun run hrun =>
    (does_values hargs run hrun).mono (List.subset_append_right _ _)
      (List.subset_append_right _ _) (Nat.le_refl _)
  have hall : ∀ run ∈ Analyse.values args, Does ns (function.boundNames ++
      Value.boundNamesList args) (function.references ++ Value.referencesList args)
      (function.references ++ Value.referencesList args).length run
      (Lattice.Declared ns) := fun run hrun =>
    (does_values hargs run hrun).part (List.subset_append_right _ _) (List.sublist_append_right _ _)
  intro before hbefore
  rw [Analyse.expr]
  cases function with
  | reference name ftype =>
    rw [Analyse.apply]
    refine (does_call hns (List.mem_append_left _ List.mem_cons_self) hruns before hbefore).mono
      (List.Subset.refl _) (List.Subset.refl _) ?_
    rw [Expr.references, List.length_append, Nat.add_comm]
    exact Nat.le_refl _
  | lambda params body =>
    have hfits := h.function
    have hparams : ∀ p ∈ params.map Param.name, Reaches ns
        ((Value.lambda params body).boundNames ++ Value.boundNamesList args)
        (body.references ++ Value.referencesList args) before p := by
      intro p hp
      refine ⟨mem_boundNames_of_fits hfits ?_, hfits.lambda.2 p hp,
        .inl (List.mem_append_left _ (List.mem_append_left _ hp))⟩
      rw [Value.map_fst_binders]
      exact List.mem_append_left _ hp
    rw [Analyse.apply]
    refine (ends_recordArgs hbefore hparams hall).bind fun _ mid hmid _ _ => ?_
    refine (hbody params body rfl).part ?_ (List.sublist_append_left _ _) mid hmid
    exact fun _ hname => List.mem_append_left _ (List.mem_append_right _ hname)
  | literal value =>
    rw [Analyse.apply]
    exact (ends_forM hbefore hall).bind fun _ _ hafter _ _ => Ends.pure hafter True.intro
  | box inner =>
    have hinner := hfunction.part (List.subset_append_left _ (Value.boundNamesList args))
      (List.sublist_append_left _ (Value.referencesList args))
    rw [Analyse.value] at hinner
    rw [Analyse.apply]
    exact (ends_forM hbefore hall).bind fun _ mid hmid _ _ => hinner mid hmid
  | unbox inner =>
    have hinner := hfunction.part (List.subset_append_left _ (Value.boundNamesList args))
      (List.sublist_append_left _ (Value.referencesList args))
    rw [Analyse.value] at hinner
    rw [Analyse.apply]
    exact (ends_forM hbefore hall).bind fun _ mid hmid _ _ => hinner mid hmid

/-- The cases bind and refer to what is in them. -/
theorem does_caseList {cases : List Case} (h : Case.FitsList ns visible cases)
    (hcases : ∀ case ∈ cases, DoesExpr ns case.body) :
    ∀ pair ∈ Analyse.caseList cases, (∀ name ∈ pair.1.boundNames, name ∈ ns.boundNames ∧
        ns.params? name = none ∧ name ∈ Case.boundNamesList cases) ∧
      Does ns (Case.boundNamesList cases) (Case.referencesList cases)
        (Case.referencesList cases).length pair.2 (Lattice.Declared ns) := by
  intro pair hpair
  rw [Analyse.caseList_eq] at hpair
  obtain ⟨case, hcase, rfl⟩ := List.mem_map.1 hpair
  have hfits := h.mem hcase
  have hbound : case.boundNames ⊆ Case.boundNamesList cases := by
    rw [Case.boundNamesList_eq]
    exact (sublist_flatMap_of_mem hcase).subset
  have hcalled : case.references.Sublist (Case.referencesList cases) := by
    rw [Case.referencesList_eq]
    exact sublist_flatMap_of_mem hcase
  have hbody := hcases case hcase
  obtain ⟨pattern, body⟩ := case
  constructor
  · intro name hname
    refine ⟨mem_boundNames_of_fits hfits ?_, hfits.body.2 name hname, ?_⟩
    · rw [Case.binders, List.map_append, map_fst_plainBinders]
      exact List.mem_append_left _ hname
    · exact hbound (List.mem_append_left _ hname)
  · exact hbody.part (fun _ hname => hbound (List.mem_append_right _ hname)) hcalled

theorem does_cases {scrutinee : Value} {cases : List Case}
    (h : Case.FitsList ns visible cases) (hscrutinee : DoesValue ns scrutinee)
    (hcases : ∀ case ∈ cases, DoesExpr ns case.body) :
    DoesExpr ns (.cases scrutinee cases) := by
  intro before hbefore
  rw [Analyse.expr]
  refine ((hscrutinee.part (List.subset_append_left _ _) (List.sublist_append_left _ _))
    before hbefore).bind fun value mid hmid _ hvalue => ?_
  refine ends_cases hmid hvalue fun pair hpair => ?_
  obtain ⟨hnames, hbody⟩ := does_caseList h hcases pair hpair
  refine ⟨fun name hname => ?_, ?_⟩
  · exact ⟨(hnames name hname).1, (hnames name hname).2.1,
      List.mem_append_right _ (hnames name hname).2.2⟩
  · exact hbody.part (List.subset_append_right _ _) (List.sublist_append_right _ _)

theorem does_binding {binding : Binding}
    (hname : ns.params? binding.name = binding.params?.map (·.map Param.name))
    (hbound : binding.name ∈ ns.boundNames) (hinner : DoesExpr ns binding.inner) :
    Does ns binding.boundNames binding.references binding.references.length
      (Analyse.binding binding) fun _ => True := by
  have hbody : Does ns binding.boundNames binding.references binding.references.length
      (Analyse.expr binding.inner) (Lattice.Declared ns) := by
    rw [binding.boundNames_eq, binding.references_eq]
    refine hinner.part (fun _ hname => ?_) (List.Sublist.refl _)
    exact List.mem_cons_of_mem _ (List.mem_append_right _ hname)
  have hown : binding.name ∈ binding.boundNames := by
    rw [binding.boundNames_eq]
    exact List.mem_cons_self
  intro before hbefore
  rw [Analyse.binding_eq]
  cases hparams : binding.params? with
  | none =>
    rw [hparams] at hname
    exact ends_recordResult hbefore hbound hown (fun hne => (hne hname).elim) hbody
  | some params =>
    rw [hparams] at hname
    refine ends_function hbefore hname hown (fun p hp => ?_) hbody
    rw [binding.boundNames_eq, Binding.paramNames, hparams]
    exact List.mem_cons_of_mem _ (List.mem_append_left _ hp)

theorem does_bindingList {bound called : List Name} {calls : Nat}
    {bindings : List Binding} (h : ∀ binding ∈ bindings,
      Does ns bound called calls (Analyse.binding binding) fun _ => True) :
    Does ns bound called calls (Analyse.bindingList bindings) fun _ => True := by
  induction bindings with
  | nil => exact fun _ hbefore => Ends.pure hbefore True.intro
  | cons binding rest ih =>
    intro before hbefore
    rw [Analyse.bindingList]
    refine (h binding List.mem_cons_self before hbefore).bind fun _ mid hmid _ _ => ?_
    exact ih (fun other ho => h other (List.mem_cons_of_mem _ ho)) mid hmid

theorem does_blockBinding {bindings : List Binding} {result : Expr}
    (h : (Expr.block bindings result).Fits ns visible) {binding : Binding}
    (hbinding : binding ∈ bindings) (hinner : DoesExpr ns binding.inner) :
    Does ns (Expr.block bindings result).boundNames (Expr.block bindings result).references
      (Expr.block bindings result).references.length (Analyse.binding binding) fun _ => True := by
  have hsub : binding.binders.Sublist (Expr.block bindings result).binders :=
    (sublist_bindersList hbinding).trans (List.sublist_append_left _ _)
  have hname : binding.name ∈ ns.boundNames := by
    refine mem_boundNames_of_fits h ((hsub.map Prod.fst).subset ?_)
    rw [binding.binders_eq]
    exact List.mem_cons_self
  refine (does_binding (h.block.1 binding hbinding).2.1 hname hinner).part ?_ ?_
  · refine List.Subset.trans ?_ (List.subset_append_left _ _)
    rw [Binding.boundNamesList_eq]
    exact (sublist_flatMap_of_mem hbinding).subset
  · refine List.Sublist.trans ?_ (List.sublist_append_left _ _)
    rw [Binding.referencesList_eq]
    exact sublist_flatMap_of_mem hbinding

/-- One pass over a block. -/
theorem does_pass {bindings : List Binding} {result : Expr}
    (h : (Expr.block bindings result).Fits ns visible)
    (hbindings : ∀ binding ∈ bindings, DoesExpr ns binding.inner) (hresult : DoesExpr ns result) :
    Does ns (Expr.block bindings result).boundNames
      (Expr.block bindings result).references
      (Expr.block bindings result).references.length
      (do Analyse.bindingList bindings; Analyse.expr result) (Lattice.Declared ns) := by
  intro before hbefore
  refine (does_bindingList (fun binding hbinding => does_blockBinding h hbinding
    (hbindings binding hbinding)) before hbefore).bind fun _ mid hmid _ _ => ?_
  exact hresult.part (List.subset_append_right _ _) (List.sublist_append_right _ _) mid hmid

/-- Whatever fits a namespace is analysed by its own means. -/
theorem does_all (hns : ns.WellScoped) :
    (∀ (value : Value) (visible : List Name), value.Fits ns visible →
      DoesValue ns value) ∧
    ∀ (expr : Expr) (visible : List Name), expr.Fits ns visible → DoesExpr ns expr := by
  refine induct ?_ ?_ ?_ ?_ ?_ ?_ ?_ ?_ ?_ ?_ ?_ ?_
  · intro value visible _ before hbefore
    exact Ends.pure hbefore True.intro
  · intro name type visible _
    exact does_reference hns List.mem_cons_self type
  · intro params body ih visible h
    exact does_lambda h (ih _ h.lambda.1)
  · intro value ih visible h before hbefore
    rw [Analyse.value]
    exact (ih visible h before hbefore).bind fun _ _ hafter _ _ => Ends.pure hafter True.intro
  · intro value ih visible h before hbefore
    rw [Analyse.value]
    exact (ih visible h before hbefore).bind fun _ _ hafter _ _ => Ends.pure hafter True.intro
  · intro value ih visible h before hbefore
    rw [Analyse.expr]
    exact ih visible h before hbefore
  · intro type function args ihFunction ihBody ihArgs visible h
    refine does_apply hns h (ihFunction visible h.function) ?_ ?_
    · rintro params body rfl
      exact ihBody params body rfl _ h.function.lambda.1
    · exact fun arg harg => ihArgs arg harg visible (h.args.mem harg)
  · intro op operand ih visible h before hbefore
    rw [Analyse.expr]
    exact (ih visible h before hbefore).bind fun value _ hafter _ _ =>
      Ends.pure hafter (declared_unary op value)
  · intro left op right ihLeft ihRight visible h before hbefore
    rw [Analyse.expr]
    refine ((ihLeft visible h.binary.1).part (List.subset_append_left _ _)
      (List.sublist_append_left _ _) before hbefore).bind fun value mid hmid _ _ => ?_
    refine ((ihRight visible h.binary.2.1).part (List.subset_append_right _ _)
      (List.sublist_append_right _ _) mid hmid).bind fun other after hafter _ _ => ?_
    exact Ends.pure hafter (declared_binary value op other)
  · intro condition consequent alternative ihCondition ihConsequent ihAlternative visible h before
      hbefore
    obtain ⟨hcondition, hconsequent, halternative, -⟩ := h.conditional
    rw [Analyse.expr]
    refine ((ihCondition visible hcondition).part ?_ ?_ before hbefore).bind
      fun value mid hmid _ _ => ends_conditional hmid value
        ((ihConsequent visible hconsequent).part ?_ ?_)
        ((ihAlternative visible halternative).part ?_ ?_)
    · exact fun _ hname => List.mem_append_left _ (List.mem_append_left _ hname)
    · exact (List.sublist_append_left _ _).trans (List.sublist_append_left _ _)
    · exact fun _ hname => List.mem_append_left _ (List.mem_append_right _ hname)
    · exact (List.sublist_append_right _ _).trans (List.sublist_append_left _ _)
    · exact List.subset_append_right _ _
    · exact List.sublist_append_right _ _
  · intro scrutinee cases ihScrutinee ihCases visible h
    exact does_cases h.cases.2.1 (ihScrutinee visible h.cases.1) fun case hcase =>
      ihCases case hcase _ (h.cases.2.1.mem hcase).body.1
  · intro bindings result ihBindings ihResult visible h before hbefore
    rw [Analyse.expr]
    refine Ends.get (does_stabilise (does_pass h (fun binding hbinding => ?_) ?_) _ before hbefore)
    · exact ihBindings binding hbinding _ (h.block.1 binding hbinding).1
    · exact ihResult _ h.block.2

end Exprs

end Lowered

end PolyFront
