import PolyFront.Proofs.Constant.Order

/-!
# Code that is covered by what is known

What is known covers a piece of code when it allows for everything that the code can do: the entry
of a parameter allows for what is passed to it, the entry of a binding for what the binding
computes, and a function that is referred to other than by a call has parameters about which
nothing is known.  The rules follow the code and leave out what is never reached.  Whether code is
covered depends on what is known about the names in it only.
-/

namespace PolyFront.Lowered

theorem candidates_subset {β : Type} {pattern : β → Pattern} {scrutinee : Lattice}
    {items : List β} {candidate : β × Matching}
    (h : candidate ∈ candidates pattern scrutinee items) : candidate.1 ∈ items := by
  induction items with
  | nil => cases h
  | cons item rest ih =>
    unfold candidates at h
    split at h
    · exact List.mem_cons_of_mem _ (ih h)
    · rcases List.mem_cons.1 h with rfl | h
      · exact List.mem_cons_self
      · exact List.mem_cons_of_mem _ (ih h)
    · rw [List.mem_singleton.1 h]
      exact List.mem_cons_self

/-- The candidates stay the same when items change and their patterns match the same. -/
theorem candidates_map {α β : Type} {f : α → β} {pattern : α → Pattern} {pattern' : β → Pattern}
    {scrutinee : Lattice}
    (h : ∀ item, (pattern' (f item)).matching scrutinee = (pattern item).matching scrutinee)
    (items : List α) :
    candidates pattern' scrutinee (items.map f) =
      (candidates pattern scrutinee items).map (Prod.map f id) := by
  induction items with
  | nil => rfl
  | cons item rest ih =>
    rw [List.map_cons, candidates, candidates, h, ih]
    cases (pattern item).matching scrutinee <;> rfl

mutual
/-- The names of a pattern allow for the parts of what is matched. -/
def Pattern.Covered (known : Analysis) (value : Lattice) : Pattern → Prop
  | .id name => known.functionParams.get? name = none ∧ known.Holds name value
  | .alias name inner =>
    (known.functionParams.get? name = none ∧ known.Holds name value) ∧ inner.Covered known value
  | .literal _ => True
  | .constructor _ fields => FieldPattern.CoveredList known fields
def FieldPattern.Covered (known : Analysis) : FieldPattern → Prop
  | ⟨_, inner⟩ => inner.Covered known .nonConstant
def FieldPattern.CoveredList (known : Analysis) : List FieldPattern → Prop
  | [] => True
  | field :: rest => field.Covered known ∧ FieldPattern.CoveredList known rest
end

mutual
/-- What is known allows for what the operand refers to or holds. -/
inductive Value.Covered (known : Analysis) : Value → Prop
  | literal {value : Literal} : Value.Covered known (.literal value)
  | plain {name : Name} {type : Ty} (htype : type.isFunctional = false) :
      Value.Covered known (.reference name type)
  /-- A function that escapes can be called with anything. -/
  | escaping {name : Name} {type : Ty} (htype : type.isFunctional = true)
      (hparams : ∀ params, known.functionParams.get? name = some params →
        ∀ p ∈ params, known.lookup p = .nonConstant) : Value.Covered known (.reference name type)
  | lambda {params : List Param} {body : Expr} {result : Lattice}
      (hparams : ∀ p ∈ params.map Param.name,
        known.functionParams.get? p = none ∧ known.lookup p = .nonConstant)
      (hbody : Expr.Covered known body result) : Value.Covered known (.lambda params body)
  | box {value : Value} (hvalue : Value.Covered known value) : Value.Covered known (.box value)
  | unbox {value : Value} (hvalue : Value.Covered known value) :
      Value.Covered known (.unbox value)
/-- What is known allows for all values of the expression, which lie below the result. -/
inductive Expr.Covered (known : Analysis) : Expr → Lattice → Prop
  | value {value : Value} (hvalue : Value.Covered known value) :
      Expr.Covered known (.value value) (known.valueOf value)
  | applyLambda {type : Ty} {params : List Param} {body : Expr} {args : List Value}
      {result : Lattice}
      (hparams : ∀ p ∈ params.map Param.name, known.functionParams.get? p = none)
      (hargs : ∀ pair ∈ (params.map Param.name).zip args, Value.Covered known pair.2)
      (hpassed : ∀ pair ∈ (params.map Param.name).zip args,
        known.Holds pair.1 (known.valueOf pair.2))
      (hbody : Expr.Covered known body result) :
      Expr.Covered known (.apply type (.lambda params body) args) result
  | applyFunction {type functionType : Ty} {name : Name} {params : List Name} {args : List Value}
      (hname : known.functionParams.get? name = some params)
      (hcalled : known.Holds name .unassigned)
      (hargs : ∀ pair ∈ params.zip args, Value.Covered known pair.2)
      (hpassed : ∀ pair ∈ params.zip args, known.Holds pair.1 (known.valueOf pair.2)) :
      Expr.Covered known (.apply type (.reference name functionType) args) (known.lookup name)
  /-- What is called is no function of the code. -/
  | applyName {type functionType : Ty} {name : Name} {args : List Value}
      (hname : known.functionParams.get? name = none)
      (hargs : ∀ arg ∈ args, Value.Covered known arg) :
      Expr.Covered known (.apply type (.reference name functionType) args) (known.reference name)
  | applyValue {type : Ty} {function : Value} {args : List Value}
      (hother : ∀ name type, function ≠ .reference name type)
      (hfunction : Value.Covered known function)
      (hargs : ∀ arg ∈ args, Value.Covered known arg) :
      Expr.Covered known (.apply type function args) .nonConstant
  | unary {op : UnaryOp} {operand : Value} (hoperand : Value.Covered known operand) :
      Expr.Covered known (.unary op operand) (Lattice.unary op (known.valueOf operand))
  | binary {left : Value} {op : BinaryOp} {right : Value} (hleft : Value.Covered known left)
      (hright : Value.Covered known right) :
      Expr.Covered known (.binary left op right)
        (Lattice.binary (known.valueOf left) op (known.valueOf right))
  | stuck {condition : Value} {consequent alternative : Expr}
      (hstuck : known.valueOf condition = .unassigned) :
      Expr.Covered known (.conditional condition consequent alternative) .unassigned
  | consequent {condition : Value} {consequent alternative : Expr} {result : Lattice}
      (htrue : known.valueOf condition = .constant (.boolean true))
      (hconsequent : Expr.Covered known consequent result) :
      Expr.Covered known (.conditional condition consequent alternative) result
  | alternative {condition : Value} {consequent alternative : Expr} {result : Lattice}
      (hfalse : known.valueOf condition = .constant (.boolean false))
      (halternative : Expr.Covered known alternative result) :
      Expr.Covered known (.conditional condition consequent alternative) result
  | either {condition : Value} {consequent alternative : Expr} {left right result : Lattice}
      (hcondition : Value.Covered known condition)
      (hconsequent : Expr.Covered known consequent left) (hleft : left.Below result)
      (halternative : Expr.Covered known alternative right) (hright : right.Below result) :
      Expr.Covered known (.conditional condition consequent alternative) result
  | unmatched {scrutinee : Value} {cases : List Case}
      (hstuck : known.valueOf scrutinee = .unassigned) :
      Expr.Covered known (.cases scrutinee cases) .unassigned
  | cases {scrutinee : Value} {cases : List Case} {result : Lattice}
      (hscrutinee : Value.Covered known scrutinee)
      (hcases : ∀ candidate ∈ candidates Case.pattern (known.valueOf scrutinee) cases,
        Case.Covered known (known.valueOf scrutinee) candidate.1 result) :
      Expr.Covered known (.cases scrutinee cases) result
  | block {bindings : List Binding} {expr : Expr} {result : Lattice}
      (hbindings : ∀ binding ∈ bindings, Binding.Covered known binding)
      (hresult : Expr.Covered known expr result) :
      Expr.Covered known (.block bindings expr) result
inductive Case.Covered (known : Analysis) : Lattice → Case → Lattice → Prop
  | mk {scrutinee : Lattice} {case : Case} {own result : Lattice}
      (hpattern : case.pattern.Covered known scrutinee)
      (hbody : Expr.Covered known case.body own) (hown : own.Below result) :
      Case.Covered known scrutinee case result
inductive Binding.Covered (known : Analysis) : Binding → Prop
  | mk {binding : Binding} {result : Lattice}
      (hname : known.functionParams.get? binding.name =
        binding.params?.map fun params => params.map Param.name)
      (hparams : ∀ p ∈ binding.paramNames, known.functionParams.get? p = none)
      (hinner : Expr.Covered known binding.inner result)
      (hresult : known.Holds binding.name result) : Binding.Covered known binding
end

/-- A value about which anything is known is a literal or refers to a name. -/
theorem covered_of_valueOf {known : Analysis} {value : Value}
    (h : known.valueOf value ≠ .nonConstant) :
    value.Covered known := by
  cases value with
  | literal value => exact .literal
  | reference name type =>
    rw [Analysis.valueOf] at h
    exact .plain (by simpa using fun htype => h (if_pos htype))
  | _ => exact (h rfl).elim

/-- What covers a condition and the branches that can be taken. -/
theorem Expr.Covered.branches {known : Analysis} {condition : Value} {consequent alternative : Expr}
    {result : Lattice} (h :
        (Expr.conditional condition consequent alternative).Covered known result) :
    condition.Covered known ∧
      (known.valueOf condition ≠ .unassigned →
        known.valueOf condition ≠ .constant (.boolean false) →
        ∃ own, consequent.Covered known own ∧ own.Below result) ∧
      (known.valueOf condition ≠ .unassigned →
        known.valueOf condition ≠ .constant (.boolean true) →
        ∃ own, alternative.Covered known own ∧ own.Below result) := by
  cases h with
  | stuck hstuck =>
    exact ⟨covered_of_valueOf (by rw [hstuck]; exact nofun), fun hne => (hne hstuck).elim,
      fun hne => (hne hstuck).elim⟩
  | consequent htrue hconsequent =>
    exact ⟨covered_of_valueOf (by rw [htrue]; exact nofun),
      fun _ _ => ⟨_, hconsequent, .refl _⟩, fun _ hne => (hne htrue).elim⟩
  | alternative hfalse halternative =>
    exact ⟨covered_of_valueOf (by rw [hfalse]; exact nofun), fun _ hne => (hne hfalse).elim,
      fun _ _ => ⟨_, halternative, .refl _⟩⟩
  | either hcondition hconsequent hleft halternative hright =>
    exact ⟨hcondition, fun _ _ => ⟨_, hconsequent, hleft⟩, fun _ _ => ⟨_, halternative, hright⟩⟩

/-- What covers a scrutinee and the cases that can be taken. -/
theorem Expr.Covered.candidates {known : Analysis} {scrutinee : Value} {cases : List Case}
    {result : Lattice} (h : (Expr.cases scrutinee cases).Covered known result) :
    scrutinee.Covered known ∧ (known.valueOf scrutinee ≠ .unassigned →
      ∀ candidate ∈ Lowered.candidates Case.pattern (known.valueOf scrutinee) cases,
        Case.Covered known (known.valueOf scrutinee) candidate.1 result) := by
  cases h with
  | unmatched hstuck =>
    exact ⟨covered_of_valueOf (by rw [hstuck]; exact nofun), fun hne => (hne hstuck).elim⟩
  | cases hscrutinee hcases => exact ⟨hscrutinee, fun _ => hcases⟩

/-- A definition is covered like a binding. -/
structure Definition.Covered (known : Analysis) (d : Definition) : Prop where
  name : known.functionParams.get? (.binding d.name) =
    d.body.params?.map fun params => params.map Param.name
  params : ∀ params, d.body.params? = some params → ∀ p ∈ params.map Param.name,
    known.functionParams.get? p = none ∧ known.lookup p = .nonConstant
  inner : ∃ result, d.body.inner.Covered known result ∧ known.Holds (.binding d.name) result

/-! ## Agreement -/

/-- Two analyses know the same about some names, and the second knows no more about others. -/
structure Agree (names : List Name) (before after : Analysis) : Prop where
  grows : before.Grows after
  lookup : ∀ name ∈ names, after.lookup name = before.lookup name
  reference : ∀ name ∈ names, after.reference name = before.reference name
  functions : ∀ name ∈ names, after.functionParams.get? name = before.functionParams.get? name

section Agree

variable {names : List Name} {before after : Analysis}

theorem Agree.refl (names : List Name) (analysis : Analysis) : Agree names analysis analysis :=
  ⟨.refl analysis, fun _ _ => rfl, fun _ _ => rfl, fun _ _ => rfl⟩

theorem Agree.trans {last : Analysis} (h : Agree names before after)
    (h' : Agree names after last) : Agree names before last where
  grows := h.grows.trans h'.grows
  lookup name hname := (h'.lookup name hname).trans (h.lookup name hname)
  reference name hname := (h'.reference name hname).trans (h.reference name hname)
  functions name hname := (h'.functions name hname).trans (h.functions name hname)

theorem Agree.nonConstant (h : Agree names before after) {name : Name}
    (hname : before.lookup name = .nonConstant) : after.lookup name = .nonConstant := by
  have hbelow := h.grows.below name
  rw [hname] at hbelow
  exact hbelow.eq_nonConstant

theorem Agree.valueOf (h : Agree names before after) {value : Value}
    (hvalue : value.references ⊆ names) : after.valueOf value = before.valueOf value := by
  cases value with
  | reference name type =>
    rw [Analysis.valueOf, Analysis.valueOf, h.reference name (hvalue List.mem_cons_self)]
  | _ => rfl

/-- What is known about names moves up, and some of them stay functions or no functions. -/
structure Raises (names : List Name) (before after : Analysis) : Prop where
  grows : before.Grows after
  functions : ∀ name ∈ names, after.functionParams.get? name = before.functionParams.get? name

mutual
theorem Pattern.Covered.raised (h : Raises names before after) {value : Lattice} :
    ∀ pattern : Pattern, pattern.boundNames ⊆ names → pattern.Covered before value →
      pattern.Covered after value
  | .id name, hnames, hcovered =>
    ⟨(h.functions name (hnames List.mem_cons_self)).trans hcovered.1, hcovered.2.grows h.grows⟩
  | .alias name inner, hnames, hcovered =>
    ⟨⟨(h.functions name (hnames List.mem_cons_self)).trans hcovered.1.1,
        hcovered.1.2.grows h.grows⟩,
      Pattern.Covered.raised h inner (fun _ hname => hnames (List.mem_cons_of_mem _ hname))
        hcovered.2⟩
  | .literal _, _, _ => True.intro
  | .constructor _ fields, hnames, hcovered =>
    FieldPattern.CoveredList.raised h fields hnames hcovered
theorem FieldPattern.Covered.raised (h : Raises names before after) :
    ∀ field : FieldPattern, field.boundNames ⊆ names → field.Covered before →
      field.Covered after
  | ⟨_, inner⟩, hnames, hcovered => Pattern.Covered.raised h inner hnames hcovered
theorem FieldPattern.CoveredList.raised (h : Raises names before after) :
    ∀ fields : List FieldPattern, FieldPattern.boundNamesList fields ⊆ names →
      FieldPattern.CoveredList before fields → FieldPattern.CoveredList after fields
  | [], _, _ => True.intro
  | field :: rest, hnames, hcovered =>
    ⟨FieldPattern.Covered.raised h field (fun _ hname => hnames (List.mem_append_left _ hname))
        hcovered.1,
      FieldPattern.CoveredList.raised h rest
        (fun _ hname => hnames (List.mem_append_right _ hname)) hcovered.2⟩
end

/-- The value stays covered as long as what is known about the names does not change. -/
def Value.StaysCovered (names : List Name) (before after : Analysis) (value : Value) : Prop :=
  value.references ⊆ names → value.boundNames ⊆ names → value.Covered before → value.Covered after

/-- The expression stays covered as long as what is known about the names does not change. -/
def Expr.StaysCovered (names : List Name) (before after : Analysis) (expr : Expr) : Prop :=
  expr.references ⊆ names → expr.boundNames ⊆ names →
    ∀ result, expr.Covered before result → expr.Covered after result

theorem Agree.passed (h : Agree names before after) {params : List Name} {args : List Value}
    (hargs : Value.referencesList args ⊆ names)
    (hpassed : ∀ pair ∈ params.zip args, before.Holds pair.1 (before.valueOf pair.2)) :
    ∀ pair ∈ params.zip args, after.Holds pair.1 (after.valueOf pair.2) := by
  intro pair hpair
  rw [h.valueOf]
  · exact (hpassed pair hpair).grows h.grows
  · rw [Value.referencesList_eq] at hargs
    have hmem : pair.2 ∈ args := (List.of_mem_zip hpair).2
    exact fun _ hname => hargs (List.mem_flatMap.2 ⟨pair.2, hmem, hname⟩)

theorem Value.StaysCovered.list {args : List Value}
    (hargs : ∀ arg ∈ args, arg.StaysCovered names before after)
    (hreferences : Value.referencesList args ⊆ names) (hbound : Value.boundNamesList args ⊆ names) :
    ∀ arg ∈ args, arg.Covered before → arg.Covered after := by
  intro arg harg
  rw [Value.referencesList_eq] at hreferences
  rw [Value.boundNamesList_eq] at hbound
  exact hargs arg harg (fun _ hname => hreferences (List.mem_flatMap.2 ⟨arg, harg, hname⟩))
    fun _ hname => hbound (List.mem_flatMap.2 ⟨arg, harg, hname⟩)

theorem Agree.staysCovered_apply (h : Agree names before after) {type : Ty} {function : Value}
    {args : List Value} (hfunction : function.StaysCovered names before after)
    (hbody : ∀ params body, function = .lambda params body → body.StaysCovered names before after)
    (hargs : ∀ arg ∈ args, arg.StaysCovered names before after) :
    (Expr.apply type function args).StaysCovered names before after := by
  intro hreferences hbound result hcovered
  rw [Expr.references, List.append_subset] at hreferences
  rw [Expr.boundNames, List.append_subset] at hbound
  have hall := Value.StaysCovered.list hargs hreferences.2 hbound.2
  cases hcovered with
  | @applyLambda _ params body _ _ hparams hcovered hbelow hinner =>
    have hlambda := hbound.1
    rw [Value.boundNames, List.append_subset] at hlambda
    refine .applyLambda (fun p hp => ?_) (fun pair hpair => ?_) (h.passed hreferences.2 hbelow)
      (hbody params body rfl hreferences.1 hlambda.2 _ hinner)
    · exact (h.functions p (hlambda.1 hp)).trans (hparams p hp)
    · exact hall pair.2 (List.of_mem_zip hpair).2 (hcovered pair hpair)
  | @applyFunction _ _ name params _ hname hcalled hcovered hbelow =>
    have hmem : name ∈ names := hreferences.1 List.mem_cons_self
    rw [← h.lookup name hmem]
    refine .applyFunction ((h.functions name hmem).trans hname) (hcalled.grows h.grows)
      (fun pair hpair => ?_) (h.passed hreferences.2 hbelow)
    exact hall pair.2 (List.of_mem_zip hpair).2 (hcovered pair hpair)
  | @applyName _ _ name _ hname hcovered =>
    have hmem : name ∈ names := hreferences.1 List.mem_cons_self
    rw [← h.reference name hmem]
    exact .applyName ((h.functions name hmem).trans hname) fun arg harg =>
      hall arg harg (hcovered arg harg)
  | applyValue hother hcalled hcovered =>
    exact .applyValue hother (hfunction hreferences.1 hbound.1 hcalled) fun arg harg =>
      hall arg harg (hcovered arg harg)

theorem Agree.staysCovered_conditional (h : Agree names before after) {condition : Value}
    {consequent alternative : Expr} (hcondition : condition.StaysCovered names before after)
    (hconsequent : consequent.StaysCovered names before after)
    (halternative : alternative.StaysCovered names before after) :
    (Expr.conditional condition consequent alternative).StaysCovered names before after := by
  intro hreferences hbound result hcovered
  rw [Expr.references, List.append_subset, List.append_subset] at hreferences
  rw [Expr.boundNames, List.append_subset, List.append_subset] at hbound
  have hvalue := h.valueOf hreferences.1.1
  cases hcovered with
  | stuck hstuck => exact .stuck (hvalue.trans hstuck)
  | consequent htrue htaken =>
    exact .consequent (hvalue.trans htrue) (hconsequent hreferences.1.2 hbound.1.2 _ htaken)
  | alternative hfalse htaken =>
    exact .alternative (hvalue.trans hfalse) (halternative hreferences.2 hbound.2 _ htaken)
  | either hgiven hfirst hleft hsecond hright =>
    exact .either (hcondition hreferences.1.1 hbound.1.1 hgiven)
      (hconsequent hreferences.1.2 hbound.1.2 _ hfirst) hleft
      (halternative hreferences.2 hbound.2 _ hsecond) hright

theorem Agree.staysCovered_cases (h : Agree names before after) {scrutinee : Value}
    {cases : List Case} (hscrutinee : scrutinee.StaysCovered names before after)
    (hcases : ∀ case ∈ cases, case.body.StaysCovered names before after) :
    (Expr.cases scrutinee cases).StaysCovered names before after := by
  intro hreferences hbound result hcovered
  rw [Expr.references, List.append_subset, Case.referencesList_eq] at hreferences
  rw [Expr.boundNames, List.append_subset, Case.boundNamesList_eq] at hbound
  have hvalue := h.valueOf hreferences.1
  cases hcovered with
  | unmatched hstuck => exact .unmatched (hvalue.trans hstuck)
  | cases hgiven hcandidates =>
    refine .cases (hscrutinee hreferences.1 hbound.1 hgiven) fun candidate hmem => ?_
    rw [hvalue] at hmem ⊢
    have hcase := candidates_subset hmem
    have hown : candidate.1.boundNames ⊆ names := fun _ hname =>
      hbound.2 (List.mem_flatMap.2 ⟨_, hcase, hname⟩)
    have hrefs : candidate.1.references ⊆ names := fun _ hname =>
      hreferences.2 (List.mem_flatMap.2 ⟨_, hcase, hname⟩)
    have hbody := hcases _ hcase
    cases hcandidates candidate hmem with
    | mk hpattern hinner hresult =>
      obtain ⟨⟨pattern, body⟩, _⟩ := candidate
      rw [Case.boundNames, List.append_subset] at hown
      exact .mk (hpattern.raised ⟨h.grows, h.functions⟩ _ hown.1) (hbody hrefs hown.2 _ hinner)
        hresult

theorem Agree.staysCovered_block (h : Agree names before after) {bindings : List Binding}
    {expr : Expr} (hbindings : ∀ binding ∈ bindings, binding.inner.StaysCovered names before after)
    (hexpr : expr.StaysCovered names before after) :
    (Expr.block bindings expr).StaysCovered names before after := by
  intro hreferences hbound result hcovered
  rw [Expr.references, List.append_subset, Binding.referencesList_eq] at hreferences
  rw [Expr.boundNames, List.append_subset, Binding.boundNamesList_eq] at hbound
  cases hcovered with
  | block hcovered hresult =>
    refine .block (fun binding hbinding => ?_) (hexpr hreferences.2 hbound.2 _ hresult)
    have hown : binding.boundNames ⊆ names := fun _ hname =>
      hbound.1 (List.mem_flatMap.2 ⟨_, hbinding, hname⟩)
    have hrefs : binding.references ⊆ names := fun _ hname =>
      hreferences.1 (List.mem_flatMap.2 ⟨_, hbinding, hname⟩)
    rw [binding.boundNames_eq, List.cons_subset, List.append_subset] at hown
    rw [binding.references_eq] at hrefs
    cases hcovered binding hbinding with
    | mk hname hparams hinner hbelow =>
      refine .mk ((h.functions _ hown.1).trans hname) (fun p hp => ?_)
        (hbindings binding hbinding hrefs hown.2.2 _ hinner) (hbelow.grows h.grows)
      exact (h.functions p (hown.2.1 hp)).trans (hparams p hp)

/-- Code stays covered as long as what is known about its names does not change. -/
theorem covered_agree (h : Agree names before after) :
    (∀ value : Value, value.StaysCovered names before after) ∧
      ∀ expr : Expr, expr.StaysCovered names before after := by
  refine induct ?_ ?_ ?_ ?_ ?_ ?_ ?_ ?_ ?_ ?_ ?_ ?_
  · intro value _ _ _
    exact .literal
  · intro name type hreferences _ hcovered
    cases hcovered with
    | plain htype => exact .plain htype
    | escaping htype hparams =>
      refine .escaping htype fun params hrecorded p hp => ?_
      rw [h.functions name (hreferences List.mem_cons_self)] at hrecorded
      exact h.nonConstant (hparams params hrecorded p hp)
  · intro params body ih hreferences hbound hcovered
    rw [Value.boundNames, List.append_subset] at hbound
    cases hcovered with
    | lambda hparams hbody =>
      refine .lambda (fun p hp => ?_) (ih hreferences hbound.2 _ hbody)
      exact ⟨(h.functions p (hbound.1 hp)).trans (hparams p hp).1,
        h.nonConstant (hparams p hp).2⟩
  · intro value ih hreferences hbound hcovered
    cases hcovered with
    | box hvalue => exact .box (ih hreferences hbound hvalue)
  · intro value ih hreferences hbound hcovered
    cases hcovered with
    | unbox hvalue => exact .unbox (ih hreferences hbound hvalue)
  · intro value ih hreferences hbound result hcovered
    cases hcovered with
    | value hvalue =>
      rw [← h.valueOf hreferences]
      exact .value (ih hreferences hbound hvalue)
  · exact fun type function args => h.staysCovered_apply
  · intro op operand ih hreferences hbound result hcovered
    cases hcovered with
    | unary hoperand =>
      rw [← h.valueOf hreferences]
      exact .unary (ih hreferences hbound hoperand)
  · intro left op right ihLeft ihRight hreferences hbound result hcovered
    rw [Expr.references, List.append_subset] at hreferences
    rw [Expr.boundNames, List.append_subset] at hbound
    cases hcovered with
    | binary hleft hright =>
      rw [← h.valueOf hreferences.1, ← h.valueOf hreferences.2]
      exact .binary (ihLeft hreferences.1 hbound.1 hleft) (ihRight hreferences.2 hbound.2 hright)
  · exact fun condition consequent alternative => h.staysCovered_conditional
  · exact fun scrutinee cases => h.staysCovered_cases
  · exact fun bindings expr => h.staysCovered_block

end Agree

end PolyFront.Lowered
