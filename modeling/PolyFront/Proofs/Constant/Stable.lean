import PolyFront.Proofs.Constant.Drained

/-!
# The analysis of a namespace is a fixpoint

Code that is covered is analysed without a change: every entry that would be recorded is there and
allows for what is recorded, so that no result moves and nothing is put on the worklist.  What the
analysis returns lies below the result that the code is covered with.  Since the analysis of a
namespace leaves all definitions covered, none of them is stale when it ends.
-/

namespace PolyFront.Lowered

/-- The run changes nothing, and what it returns is good. -/
def Stays {α : Type} (known : Analysis) (run : Analyse α) (good : α → Prop) : Prop :=
  ∃ a, run known = (a, known) ∧ good a

section Rules

variable {α β : Type} {known : Analysis} {good : α → Prop} {good' : β → Prop}

theorem Stays.pure {a : α} (h : good a) : Stays known (Pure.pure a) good := ⟨a, rfl, h⟩

theorem Stays.bind {run : Analyse α} {next : α → Analyse β} (h : Stays known run good)
    (hnext : ∀ a, good a → Stays known (next a) good') : Stays known (run >>= next) good' := by
  obtain ⟨a, hrun, ha⟩ := h
  obtain ⟨b, hrest, hb⟩ := hnext a ha
  refine ⟨b, ?_, hb⟩
  show next (run known).1 (run known).2 = (b, known)
  rw [hrun]
  exact hrest

theorem Stays.mono {good' : α → Prop} {run : Analyse α} (h : Stays known run good)
    (hgood : ∀ a, good a → good' a) : Stays known run good' := by
  obtain ⟨a, hrun, ha⟩ := h
  exact ⟨a, hrun, hgood a ha⟩

theorem Stays.get {next : Analysis → Analyse β} (h : Stays known (next known) good') :
    Stays known (MonadState.get >>= next) good' := h

theorem Stays.modify {change : Analysis → Analysis} (h : change known = known) :
    Stays known (modify change) fun _ : PUnit => True :=
  ⟨⟨⟩, by show (PUnit.unit, change known) = _; rw [h], True.intro⟩

/-- A run of which the result is not used. -/
theorem Stays.discard {run : Analyse α} (h : Stays known run good) :
    Stays known (do let _ ← run) fun _ : PUnit => True :=
  h.bind fun _ _ => Stays.pure True.intro

theorem Stays.forM {items : List α} {run : α → Analyse PUnit}
    (h : ∀ item ∈ items, Stays known (run item) fun _ => True) :
    Stays known (items.forM run) fun _ => True := by
  induction items with
  | nil => exact Stays.pure True.intro
  | cons item rest ih =>
    rw [List.forall_mem_cons] at h
    exact h.1.bind fun _ _ => ih h.2

end Rules

/-! ## Records -/

section Records

variable {known : Analysis}

theorem stays_record {name : Name} {value : Lattice} (h : known.Holds name value) :
    Stays known (Analyse.record name value) fun _ => True :=
  ⟨_, h.record_eq, True.intro⟩

theorem stays_recordUnknown {params : List Name}
    (h : ∀ p ∈ params, known.lookup p = .nonConstant) :
    Stays known (Analyse.recordUnknown params) fun _ => True :=
  Stays.forM fun p hp => (stays_record (Analysis.holds_of_lookup (h p hp))).discard

/-- The analysis of the value changes nothing, and returns what is known about it. -/
def StaysValue (known : Analysis) (value : Value) : Prop :=
  Stays known (Analyse.value value) (· = known.valueOf value)

/-- The analysis of the expression changes nothing, and returns a value below the result. -/
def StaysExpr (known : Analysis) (expr : Expr) (result : Lattice) : Prop :=
  Stays known (Analyse.expr expr) (·.Below result)

theorem stays_recordArgs {params : List Name} {args : List Value}
    (hargs : ∀ pair ∈ params.zip args, StaysValue known pair.2)
    (hpassed : ∀ pair ∈ params.zip args, known.Holds pair.1 (known.valueOf pair.2)) :
    Stays known (Analyse.recordArgs params (Analyse.values args)) fun _ => True := by
  refine Stays.forM fun pair hpair => ?_
  rw [Analyse.values_eq, List.zip_map_right, List.mem_map] at hpair
  obtain ⟨⟨p, arg⟩, hmem, rfl⟩ := hpair
  refine (hargs _ hmem).bind fun value hvalue => ?_
  rw [hvalue]
  exact (stays_record (hpassed _ hmem)).discard

theorem stays_forM {args : List Value} (h : ∀ arg ∈ args, StaysValue known arg) :
    Stays known ((Analyse.values args).forM fun arg => do let _ ← arg) fun _ => True := by
  refine Stays.forM fun run hrun => ?_
  rw [Analyse.values_eq, List.mem_map] at hrun
  obtain ⟨arg, harg, rfl⟩ := hrun
  exact (h arg harg).discard

/-- Every function that escapes can be called with anything already. -/
theorem stays_reference {name : Name} {type : Ty}
    (h : (Value.reference name type).Covered known) : StaysValue known (.reference name type) := by
  rw [StaysValue, Analyse.value, Analyse.reference, Analysis.valueOf]
  cases h with
  | plain htype =>
    simp only [htype]
    exact Stays.get (Stays.pure rfl)
  | escaping htype hparams =>
    simp only [htype]
    refine Stays.get ((stays_recordUnknown fun p hp => ?_).bind fun _ _ => Stays.pure rfl)
    cases hfunction : known.functionParams.get? name with
    | none =>
      rw [hfunction] at hp
      cases hp
    | some params =>
      rw [hfunction] at hp
      exact hparams params hfunction p hp

end Records

/-! ## Calls -/

section Calls

variable {known : Analysis}

/-- Without a change, no function is put on the worklist. -/
theorem stays_call {name : Name} {params : List Name} {args : List Value}
    (hname : known.functionParams.get? name = some params) (hcalled : known.Holds name .unassigned)
    (hargs : ∀ pair ∈ params.zip args, StaysValue known pair.2)
    (hpassed : ∀ pair ∈ params.zip args, known.Holds pair.1 (known.valueOf pair.2)) :
    Stays known (Analyse.call name (Analyse.values args)) (· = known.lookup name) := by
  refine Stays.get ?_
  rw [hname]
  refine (stays_record hcalled).bind fun _ _ => Stays.get ?_
  refine (stays_recordArgs hargs hpassed).bind fun _ _ => ?_
  exact (Stays.modify (by simp)).bind fun _ _ => Stays.get (Stays.pure rfl)

theorem stays_callName {name : Name} {args : List Value}
    (hname : known.functionParams.get? name = none) (hargs : ∀ arg ∈ args, StaysValue known arg) :
    Stays known (Analyse.call name (Analyse.values args)) (· = known.reference name) := by
  refine Stays.get ?_
  rw [hname]
  exact (stays_forM hargs).bind fun _ _ => Stays.get (Stays.pure rfl)

/-- A call of covered code. -/
theorem stays_apply {type : Ty} {function : Value} {args : List Value} {result : Lattice}
    (h : (Expr.apply type function args).Covered known result)
    (hfunction : function.Covered known → StaysValue known function)
    (hbody : ∀ params body, function = .lambda params body →
      ∀ result, body.Covered known result → StaysExpr known body result)
    (hargs : ∀ arg ∈ args, arg.Covered known → StaysValue known arg) :
    StaysExpr known (.apply type function args) result := by
  rw [StaysExpr, Analyse.expr]
  cases h with
  | applyLambda _ hcovered hpassed hinner =>
    refine Stays.bind (stays_recordArgs (fun pair hpair => ?_) hpassed) fun _ _ =>
      hbody _ _ rfl _ hinner
    exact hargs _ (List.of_mem_zip hpair).2 (hcovered pair hpair)
  | applyFunction hname hcalled hcovered hpassed =>
    refine (stays_call hname hcalled (fun pair hpair => ?_) hpassed).mono fun _ heq =>
      .inr (.inl heq)
    exact hargs _ (List.of_mem_zip hpair).2 (hcovered pair hpair)
  | applyName hname hcovered =>
    exact (stays_callName hname fun arg harg => hargs arg harg (hcovered arg harg)).mono
      fun _ heq => .inr (.inl heq)
  | applyValue hother hcalled hcovered =>
    have hall := fun arg harg => hargs arg harg (hcovered arg harg)
    by_cases hlambda : ∃ params body, function = .lambda params body
    · -- Nothing is known about the parameters of a function that escapes.
      obtain ⟨params, body, rfl⟩ := hlambda
      cases hcalled with
      | lambda hparams hinner =>
        refine Stays.bind (stays_recordArgs (fun pair hpair => hall _ (List.of_mem_zip hpair).2)
          fun pair hpair => ?_) fun _ _ => ?_
        · exact Analysis.holds_of_lookup (hparams _ (List.of_mem_zip hpair).1).2
        · exact Stays.mono (hbody params body rfl _ hinner) fun value _ =>
            Lattice.below_nonConstant value
    · rw [apply_eq hother fun params body heq => hlambda ⟨params, body, heq⟩]
      refine (stays_forM hall).bind fun _ _ => Stays.bind (hfunction hcalled) fun _ _ => ?_
      exact Stays.pure (Lattice.Below.refl _)

end Calls

/-! ## Branches and blocks -/

section Branches

variable {known : Analysis}

theorem stays_conditional {condition : Lattice} {consequent alternative : Analyse Lattice}
    {result : Lattice}
    (hconsequent : condition ≠ .unassigned → condition ≠ .constant (.boolean false) →
      Stays known consequent (·.Below result))
    (halternative : condition ≠ .unassigned → condition ≠ .constant (.boolean true) →
      Stays known alternative (·.Below result)) :
    Stays known (Analyse.conditional condition consequent alternative) (·.Below result) := by
  unfold Analyse.conditional
  split
  · exact Stays.pure (Lattice.unassigned_below result)
  · exact hconsequent nofun (by simp)
  · exact halternative nofun (by simp)
  · rename_i hunassigned htrue hfalse
    refine (hconsequent hunassigned hfalse).bind fun left hleft => ?_
    refine (halternative hunassigned htrue).bind fun right hright => ?_
    exact Stays.pure (Lattice.join_below hleft hright)

mutual
theorem stays_pattern {value : Lattice} : ∀ pattern : Pattern, pattern.Covered known value →
    Stays known (Analyse.pattern value pattern) fun _ => True
  | .id _, h => (stays_record h.2).discard
  | .alias _ inner, h => (stays_record h.1.2).bind fun _ _ => stays_pattern inner h.2
  | .literal _, _ => Stays.pure True.intro
  | .constructor _ fields, h => stays_fieldPatterns fields h
theorem stays_fieldPattern : ∀ field : FieldPattern, field.Covered known →
    Stays known (Analyse.fieldPattern field) fun _ => True
  | ⟨_, inner⟩, h => stays_pattern inner h
theorem stays_fieldPatterns : ∀ fields : List FieldPattern,
    FieldPattern.CoveredList known fields →
    Stays known (Analyse.fieldPatterns fields) fun _ => True
  | [], _ => Stays.pure True.intro
  | field :: rest, h => (stays_fieldPattern field h.1).bind fun _ _ => stays_fieldPatterns rest h.2
end

/-- Results of cases are joined below what lies above all of them. -/
theorem stays_analyseCases {scrutinee result high : Lattice} {cases : List Case}
    (hresult : result.Below high)
    (hcases : ∀ case ∈ cases, Stays known (analyseCase scrutinee case) (·.Below high)) :
    Stays known (analyseCases scrutinee (Analyse.caseList cases) result) (·.Below high) := by
  induction cases generalizing result with
  | nil => exact Stays.pure hresult
  | cons case rest ih =>
    rw [List.forall_mem_cons] at hcases
    obtain ⟨value, hrun, hvalue⟩ := hcases.1
    have hrest := ih (Lattice.join_below hresult hvalue) hcases.2
    rw [Stays, analyseCases_cons, hrun]
    exact hrest

theorem stays_cases {scrutinee result : Lattice} {cases : List Case}
    (h : scrutinee ≠ .unassigned → ∀ candidate ∈ candidates Case.pattern scrutinee cases,
      Stays known (analyseCase scrutinee candidate.1) (·.Below result)) :
    Stays known (Analyse.cases scrutinee (Analyse.caseList cases)) (·.Below result) := by
  rw [cases_eq]
  split
  · exact Stays.pure (Lattice.unassigned_below result)
  · rename_i hassigned
    rw [candidates_caseList]
    refine stays_analyseCases (Lattice.unassigned_below result) fun case hcase => ?_
    obtain ⟨candidate, hcandidate, rfl⟩ := List.mem_map.1 hcase
    exact h hassigned candidate hcandidate

/-- A pass that changes nothing is not repeated. -/
theorem stays_stabilise {pass : Analyse Lattice} {good : Lattice → Prop}
    (h : Stays known pass good) (fuel : Nat) : Stays known (Analyse.stabilise pass fuel) good := by
  cases fuel with
  | zero => exact h
  | succ fuel =>
    have ⟨value, hrun, _⟩ := h
    rw [Stays, stabilise_succ, hrun, if_neg (Nat.lt_irrefl _), ← hrun]
    exact h

theorem stays_binding {binding : Binding} {result : Lattice}
    (hname : known.functionParams.get? binding.name =
      binding.params?.map fun params => params.map Param.name)
    (hinner : StaysExpr known binding.inner result) (hresult : known.Holds binding.name result) :
    Stays known (Analyse.binding binding) fun _ => True := by
  have hrecord : Stays known (Analyse.recordResult binding.name (Analyse.expr binding.inner))
      fun _ => True :=
    hinner.bind fun value hvalue => (stays_record (hresult.mono hvalue)).discard
  rw [Analyse.binding_eq]
  cases hparams : binding.params? with
  | none => exact hrecord
  | some params =>
    rw [hparams] at hname
    refine Stays.bind (Stays.modify ?_) fun _ _ => hrecord
    exact Analysis.withFunction_of_some (by rw [hname]; exact nofun)

theorem stays_bindingList {bindings : List Binding}
    (h : ∀ binding ∈ bindings, Stays known (Analyse.binding binding) fun _ => True) :
    Stays known (Analyse.bindingList bindings) fun _ => True := by
  induction bindings with
  | nil => exact Stays.pure True.intro
  | cons binding rest ih =>
    rw [List.forall_mem_cons] at h
    exact h.1.bind fun _ _ => ih h.2

end Branches

/-! ## Covered code -/

/-- Code that is covered is analysed without a change. -/
theorem stays_all (known : Analysis) :
    (∀ value : Value, value.Covered known → StaysValue known value) ∧
    ∀ (expr : Expr) (result : Lattice), expr.Covered known result →
      StaysExpr known expr result := by
  refine induct ?_ ?_ ?_ ?_ ?_ ?_ ?_ ?_ ?_ ?_ ?_ ?_
  · exact fun value _ => Stays.pure rfl
  · exact fun name type h => stays_reference h
  · intro params body ih h
    cases h with
    | lambda hparams hbody =>
      refine (stays_recordUnknown fun p hp => (hparams p hp).2).bind fun _ _ => ?_
      exact Stays.bind (ih _ hbody) fun _ _ => Stays.pure rfl
  · intro value ih h
    cases h with
    | box hvalue => exact Stays.bind (ih hvalue) fun _ _ => Stays.pure rfl
  · intro value ih h
    cases h with
    | unbox hvalue => exact Stays.bind (ih hvalue) fun _ _ => Stays.pure rfl
  · intro value ih result h
    cases h with
    | value hvalue => exact Stays.mono (ih hvalue) fun _ heq => .inr (.inl heq)
  · exact fun type function args ihFunction ihBody ihArgs result h =>
      stays_apply h ihFunction ihBody ihArgs
  · intro op operand ih result h
    cases h with
    | unary hoperand =>
      exact Stays.bind (ih hoperand) fun value hvalue => Stays.pure (hvalue ▸ .refl _)
  · intro left op right ihLeft ihRight result h
    cases h with
    | binary hleft hright =>
      refine Stays.bind (ihLeft hleft) fun value hvalue => ?_
      refine Stays.bind (ihRight hright) fun value' hvalue' => ?_
      exact Stays.pure (hvalue ▸ hvalue' ▸ .refl _)
  · intro condition consequent alternative ihCondition ihConsequent ihAlternative result h
    obtain ⟨hcondition, hconsequent, halternative⟩ := h.branches
    refine Stays.bind (ihCondition hcondition) fun value hvalue => ?_
    rw [hvalue]
    refine stays_conditional (fun hassigned hvalue => ?_) fun hassigned hvalue => ?_
    · obtain ⟨own, hcovered, hbelow⟩ := hconsequent hassigned hvalue
      exact Stays.mono (ihConsequent own hcovered) fun _ h => h.trans hbelow
    · obtain ⟨own, hcovered, hbelow⟩ := halternative hassigned hvalue
      exact Stays.mono (ihAlternative own hcovered) fun _ h => h.trans hbelow
  · intro scrutinee cases ihScrutinee ihCases result h
    obtain ⟨hscrutinee, hcases⟩ := h.candidates
    refine Stays.bind (ihScrutinee hscrutinee) fun value hvalue => ?_
    rw [hvalue]
    refine stays_cases fun hassigned candidate hcandidate => ?_
    cases hcases hassigned candidate hcandidate with
    | mk hpattern hbody hown =>
      refine (stays_pattern _ hpattern).bind fun _ _ => ?_
      exact Stays.mono (ihCases _ (candidates_subset hcandidate) _ hbody) fun _ h => h.trans hown
  · intro bindings result ihBindings ihResult value h
    cases h with
    | block hbindings hresult =>
      refine Stays.get (stays_stabilise ?_ _)
      refine (stays_bindingList fun binding hbinding => ?_).bind fun _ _ => ihResult _ hresult
      cases hbindings binding hbinding with
      | mk hname _ hinner hheld =>
        exact stays_binding hname (ihBindings binding hbinding _ hinner) hheld

/-! ## Namespaces -/

/-- When the analysis of a namespace ends, another analysis of any definition changes nothing, and
its result is at most what the entry of the definition holds. -/
theorem analysis_fixpoint {ns : Namespace} (hns : ns.WellScoped) :
    ∃ known, Analyse.declarations ns.declarations Analysis.start = .ok () known ∧
      ∀ d ∈ ns.definitions, (Analyse.expr d.body.inner known).2 = known ∧
        ∃ entry, known.values.get? (.binding d.name) = some entry ∧
          (Analyse.expr d.body.inner known).1.AtMost entry := by
  obtain ⟨known, hrun, hsolved⟩ := declarations_solved hns
  refine ⟨known, hrun, fun d hd => ?_⟩
  obtain ⟨result, hcovered, entry, hentry, hbelow⟩ := (hsolved.covered d hd).inner
  obtain ⟨value, hstays, hvalue⟩ := (stays_all known).2 d.body.inner result hcovered
  rw [hstays]
  exact ⟨rfl, entry, hentry, (hvalue.trans hbelow).atMost⟩

/-- A definition that refers to a later one, which calls a local function. -/
def Namespace.chain : Namespace :=
  let int := Ty.builtIn .int
  let ns : NamespaceName := ⟨[], "chain"⟩
  let sum := Expr.binary (.reference (.binding ⟨ns, "last"⟩) int) .add (.literal (.int 1))
  let call := Expr.apply int (.reference (.bound "f" 0) (.function [int] int)) [.literal (.int 1)]
  let body := Expr.value (.reference (.bound "x" 0) int)
  ⟨ns, [.definition ⟨⟨ns, "first"⟩, int, sum⟩,
    .definition ⟨⟨ns, "last"⟩, int,
      .block [.join (.bound "f" 0) (.function [int] int) [⟨.bound "x" 0, int⟩] body] call⟩]⟩

theorem analysis_fixpoint_chain : Namespace.chain.WellScoped ∧
    ∃ known, Analyse.declarations Namespace.chain.declarations Analysis.start = .ok () known ∧
      ∀ d ∈ Namespace.chain.definitions, (Analyse.expr d.body.inner known).2 = known ∧
        ∃ entry, known.values.get? (.binding d.name) = some entry ∧
          (Analyse.expr d.body.inner known).1.AtMost entry :=
  ⟨by decide, analysis_fixpoint (by decide)⟩

end PolyFront.Lowered
