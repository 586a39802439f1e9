import PolyFront.Proofs.Constant.Simulated

/-!
# Simplification preserves meaning

One step of the evaluation of an expression is simulated by one step of the evaluation of its
simplification, case by case.  By induction on the number of steps, a definition of a well-formed
namespace has the same value after simplification, and so does every call of it.
-/

namespace PolyFront.Lowered

section Steps

variable (ns : Namespace) (known : Analysis) (outside : Name → Option Datum)
  (eval eval' : List Frame → Expr → Option Datum)

/-- A step of the expression is simulated by a step of its simplification, and the result allows
for its value. -/
def StepSimulated (frames frames' : List Frame) (expr : Expr) (result : Lattice) : Prop :=
  ∀ datum, (ns.program outside).step eval frames expr = some datum →
    result.Allows datum ∧ ∃ datum', ((ns.simplified known).program outside).step eval' frames'
      (known.simplifyExpr expr) = some datum' ∧ Related ns known datum datum'

variable {ns known outside eval eval'} (hns : ns.WellFormed) (hsolved : Solved ns known)
  (h : Simulates ns known ((ns.simplified known).program outside) eval eval') {visible : List Name}
  {frames frames' : List Frame} (hframes : RelatedFrames ns known visible frames frames')

include h in
/-- Code that is evaluated further on both sides. -/
theorem Simulates.branch (hframes : RelatedFrames ns known visible frames frames') {expr : Expr}
    {result : Lattice} (hfits : expr.Fits ns visible) (htyped : Typed ns expr.plainReferences)
    (hcovered : expr.Covered known result) {datum : Datum}
        (hdatum : eval frames expr = some datum) :
    result.Allows datum ∧ ∃ datum', ((ns.simplified known).program outside).step eval' frames'
      (known.simplifyExpr expr) = some datum' ∧ Related ns known datum datum' := by
  obtain ⟨hallows, datum', hdatum', hrelated⟩ := h.code hframes hfits htyped hcovered hdatum
  exact ⟨hallows, datum', h.more _ _ _ hdatum', hrelated⟩

include hns hsolved h hframes

/-! ## Operators -/

theorem step_unary {op : UnaryOp} {operand : Value}
    (hfits : (Expr.unary op operand).Fits ns visible)
    (htyped : Typed ns (Expr.unary op operand).plainReferences)
    (hoperand : operand.Covered known) :
    StepSimulated ns known outside eval eval' frames frames' (.unary op operand)
      (Lattice.unary op (known.valueOf operand)) := by
  intro datum hdatum
  obtain ⟨given, hgiven, hresult⟩ := Option.bind_eq_some_iff.1 hdatum
  obtain ⟨hallows, given', hgiven', hrelated⟩ :=
    value_related hns hsolved h hframes hfits htyped hoperand hgiven
  have hfolded := hallows.unary hresult
  refine ⟨hfolded, ?_⟩
  rw [Analysis.simplifyExpr]
  split
  · rename_i value hvalue
    rw [hvalue] at hfolded
    obtain rfl : datum = .literal value := hfolded
    exact ⟨_, rfl, .literal⟩
  · cases given with
    | literal value =>
      obtain rfl := hrelated.eq_literal
      exact ⟨datum, Option.bind_eq_some_iff.2 ⟨_, hgiven', hresult⟩, Related.refl datum⟩
    | _ => cases hresult

theorem step_binary {left right : Value} {op : BinaryOp}
    (hfits : (Expr.binary left op right).Fits ns visible)
    (htyped : Typed ns (Expr.binary left op right).plainReferences)
    (hleft : left.Covered known) (hright : right.Covered known) :
    StepSimulated ns known outside eval eval' frames frames' (.binary left op right)
      (Lattice.binary (known.valueOf left) op (known.valueOf right)) := by
  intro datum hdatum
  obtain ⟨l, hl, hrest⟩ := Option.bind_eq_some_iff.1 hdatum
  obtain ⟨r, hr, hresult⟩ := Option.bind_eq_some_iff.1 hrest
  obtain ⟨hfitsLeft, hfitsRight, -⟩ := hfits.binary
  obtain ⟨htypedLeft, htypedRight⟩ := List.forall_mem_append.1 htyped
  obtain ⟨hallowsLeft, l', hl', hrelatedLeft⟩ :=
    value_related hns hsolved h hframes hfitsLeft htypedLeft hleft hl
  obtain ⟨hallowsRight, r', hr', hrelatedRight⟩ :=
    value_related hns hsolved h hframes hfitsRight htypedRight hright hr
  have hfolded := hallowsLeft.binary hallowsRight hresult
  refine ⟨hfolded, ?_⟩
  rw [Analysis.simplifyExpr]
  split
  · rename_i value hvalue
    rw [hvalue] at hfolded
    obtain rfl : datum = .literal value := hfolded
    exact ⟨_, rfl, .literal⟩
  · obtain ⟨_, _, _, rfl, rfl, -, -⟩ := binaryDatum_eq hresult
    obtain rfl := hrelatedLeft.eq_literal
    obtain rfl := hrelatedRight.eq_literal
    refine ⟨datum, Option.bind_eq_some_iff.2 ⟨_, hl', ?_⟩, Related.refl datum⟩
    exact Option.bind_eq_some_iff.2 ⟨_, hr', hresult⟩

/-! ## Conditions -/

theorem step_conditional {condition : Value} {consequent alternative : Expr} {result : Lattice}
    (hfits : (Expr.conditional condition consequent alternative).Fits ns visible)
    (htyped : Typed ns (Expr.conditional condition consequent alternative).plainReferences)
    (hcovered : (Expr.conditional condition consequent alternative).Covered known result) :
    StepSimulated ns known outside eval eval' frames frames'
      (.conditional condition consequent alternative) result := by
  intro datum hdatum
  obtain ⟨given, hgiven, hbranch⟩ := Option.bind_eq_some_iff.1 hdatum
  obtain ⟨hcondition, hconsequent, halternative⟩ := hcovered.branches
  obtain ⟨hfitsCondition, hfitsConsequent, hfitsAlternative, -⟩ := hfits.conditional
  obtain ⟨htypedBoth, htypedAlternative⟩ := List.forall_mem_append.1 htyped
  obtain ⟨htypedCondition, htypedConsequent⟩ := List.forall_mem_append.1 htypedBoth
  obtain ⟨hallows, given', hgiven', hrelated⟩ :=
    value_related hns hsolved h hframes hfitsCondition htypedCondition hcondition hgiven
  have htaken : given = .literal (.boolean true) ∧ eval frames consequent = some datum ∨
      given = .literal (.boolean false) ∧ eval frames alternative = some datum := by
    split at hbranch
    · exact .inl ⟨rfl, hbranch⟩
    · exact .inr ⟨rfl, hbranch⟩
    · cases hbranch
  rw [Analysis.simplifyExpr]
  rcases htaken with ⟨rfl, htaken⟩ | ⟨rfl, htaken⟩
  · have hvalue : known.valueOf condition ≠ .constant (.boolean false) := by
      intro hvalue
      rw [hvalue] at hallows
      cases hallows
    obtain ⟨own, hbranch, hbelow⟩ := hconsequent hallows.ne_unassigned hvalue
    obtain ⟨hown, datum', hdatum', hrelated'⟩ :=
      h.code hframes hfitsConsequent htypedConsequent hbranch htaken
    refine ⟨hown.below hbelow, datum', ?_, hrelated'⟩
    obtain rfl := hrelated.eq_literal
    split
    · exact h.more _ _ _ hdatum'
    · exact (hvalue ‹_›).elim
    · exact Option.bind_eq_some_iff.2 ⟨_, hgiven', hdatum'⟩
  · have hvalue : known.valueOf condition ≠ .constant (.boolean true) := by
      intro hvalue
      rw [hvalue] at hallows
      cases hallows
    obtain ⟨own, hbranch, hbelow⟩ := halternative hallows.ne_unassigned hvalue
    obtain ⟨hown, datum', hdatum', hrelated'⟩ :=
      h.code hframes hfitsAlternative htypedAlternative hbranch htaken
    refine ⟨hown.below hbelow, datum', ?_, hrelated'⟩
    obtain rfl := hrelated.eq_literal
    split
    · exact (hvalue ‹_›).elim
    · exact h.more _ _ _ hdatum'
    · exact Option.bind_eq_some_iff.2 ⟨_, hgiven', hdatum'⟩

/-! ## Calls -/

omit hns hsolved h hframes in
/-- All arguments are passed when there are as many parameters. -/
theorem mem_zip_of_length {params : List Name} {args : List Value}
    (hlength : args.length = params.length) {arg : Value} (harg : arg ∈ args) :
    ∃ pair ∈ params.zip args, pair.2 = arg := by
  have hsnd : (params.zip args).map Prod.snd = args :=
    List.map_snd_zip (Nat.le_of_eq hlength)
  rw [← hsnd] at harg
  obtain ⟨pair, hpair, rfl⟩ := List.mem_map.1 harg
  exact ⟨pair, hpair, rfl⟩

omit hns hsolved h hframes in
theorem length_evalList {resolve : Name → Option Datum} {args : List Value}
    {contents : List Datum} (hcontents : Value.evalList resolve frames args = some contents) :
    contents.length = args.length := by
  induction args generalizing contents with
  | nil =>
    obtain rfl := Option.some.inj hcontents
    rfl
  | cons arg rest ih =>
    obtain ⟨datum, -, hrest⟩ := Option.bind_eq_some_iff.1 hcontents
    obtain ⟨others, hothers, rfl⟩ := Option.map_eq_some_iff.1 hrest
    rw [List.length_cons, List.length_cons, ih hothers]

omit hns hsolved h hframes in
theorem Program.step_apply {program : Program} {type : Ty} {function : Value} {args : List Value}
    {datum : Datum} :
    program.step eval frames (.apply type function args) = some datum ↔
      ∃ callee contents, function.callee (program.resolve eval frames) frames = some callee ∧
        Value.evalList (program.resolve eval frames) frames args = some contents ∧
          callee.call eval contents = some datum := by
  rw [Program.step, Option.bind_eq_some_iff]
  refine exists_congr fun callee => ?_
  rw [Option.bind_eq_some_iff, exists_and_left]

/-- The body of a function is entered with arguments that its parameters allow for. -/
theorem call_simulated {type : Ty} {function : Value} {args : List Value}
    (hfits : (Expr.apply type function args).Fits ns visible)
    (htyped : Typed ns (Value.plainReferencesList args)) {around params : List Name} {body : Expr}
    {result : Lattice} (hcode : Code ns known around params body result)
    {inside inside' : List Frame} (hinside : RelatedFrames ns known around inside inside')
    (hcovered : ∀ pair ∈ params.zip args, Value.Covered known pair.2)
    (hpassed : ∀ pair ∈ params.zip args, known.Holds pair.1 (known.valueOf pair.2))
    {contents : List Datum} (hcontents : Value.evalList ((ns.program outside).resolve eval frames)
      frames args = some contents) {datum : Datum}
    (hdatum : (Datum.closure params body inside).call eval contents = some datum) :
    result.Allows datum ∧ ∃ contents', Value.evalList
        (((ns.simplified known).program outside).resolve eval' frames') frames'
        (known.simplifyValues args) = some contents' ∧
      ∃ datum', (Datum.closure params (known.simplifyExpr body) inside').call eval' contents' =
        some datum' ∧ Related ns known datum datum' := by
  have hlength := (Option.ite_none_right_eq_some.1 hdatum).1
  have hcount : args.length = params.length := (length_evalList hcontents).symm.trans hlength
  have hargs : ∀ arg ∈ args, arg.Covered known := by
    intro arg harg
    obtain ⟨pair, hpair, rfl⟩ := mem_zip_of_length hcount harg
    exact hcovered pair hpair
  obtain ⟨hallows, contents', hcontents', hrelated⟩ :=
    args_related hns hsolved h hframes hfits.args htyped hargs hcontents
  obtain ⟨hresult, datum', hdatum', hdatums⟩ :=
    h.enter hcode hinside (.of_passed hpassed hallows hlength) hrelated hdatum
  exact ⟨hresult, contents', hcontents', datum', hdatum', hdatums⟩

theorem step_applyLambda {type : Ty} {params : List Param} {body : Expr} {args : List Value}
    {result : Lattice} (hfits : (Expr.apply type (.lambda params body) args).Fits ns visible)
    (htyped : Typed ns (Expr.apply type (.lambda params body) args).plainReferences)
    (hparams : ∀ p ∈ params.map Param.name, known.functionParams.get? p = none)
    (hcovered : ∀ pair ∈ (params.map Param.name).zip args, Value.Covered known pair.2)
    (hpassed : ∀ pair ∈ (params.map Param.name).zip args,
      known.Holds pair.1 (known.valueOf pair.2))
    (hbody : body.Covered known result) :
    StepSimulated ns known outside eval eval' frames frames'
        (.apply type (.lambda params body) args)
      result := by
  intro datum hdatum
  obtain ⟨htypedBody, htypedArgs⟩ := List.forall_mem_append.1 htyped
  obtain ⟨callee, contents, hcallee, hcontents, hcall⟩ := Program.step_apply.1 hdatum
  obtain rfl := Option.some.inj hcallee
  obtain ⟨hallows, contents', hcontents', datum', hdatum', hrelated⟩ :=
    call_simulated hns hsolved h hframes hfits htypedArgs
      (.of_lambda hfits.function htypedBody hparams hbody) hframes hcovered hpassed hcontents hcall
  exact ⟨hallows, datum', Program.step_apply.2 ⟨_, contents', rfl, hcontents', hdatum'⟩, hrelated⟩

omit hns hsolved h hframes in
/-- What becomes of a call by name. -/
theorem constantCall?_cases {name : Name} {params : List Name}
    (hname : known.functionParams.get? name = some params) (type functionType : Ty) :
    (∃ value, known.values.get? name = some (.constant value) ∧
      known.constantCall? type (.reference name functionType) = some (.value (.literal value))) ∨
    (∃ constructor, known.values.get? name = some (.constantConstructor constructor) ∧
      known.constantCall? type (.reference name functionType) =
        some (.apply type (.reference (.constructor constructor) type) [])) ∨
    known.constantCall? type (.reference name functionType) = none ∧
      ∀ value, known.values.get? name ≠ some (.constant value) := by
  have hcontains : known.functionParams.contains name = true := by
    rw [Table.contains, hname]
    rfl
  rw [Analysis.constantCall?, if_pos hcontains]
  split
  · exact .inl ⟨_, ‹_›, rfl⟩
  · exact .inr (.inl ⟨_, ‹_›, rfl⟩)
  · rename_i hother _
    exact .inr (.inr ⟨rfl, hother⟩)

/-- A call with a constant result is replaced by the result. -/
theorem step_applyFunction {type functionType : Ty} {name : Name} {params : List Name}
    {args : List Value}
    (hfits : (Expr.apply type (.reference name functionType) args).Fits ns visible)
    (htyped : Typed ns (Expr.apply type (.reference name functionType) args).plainReferences)
    (hname : known.functionParams.get? name = some params)
    (hcovered : ∀ pair ∈ params.zip args, Value.Covered known pair.2)
    (hpassed : ∀ pair ∈ params.zip args, known.Holds pair.1 (known.valueOf pair.2)) :
    StepSimulated ns known outside eval eval' frames frames'
      (.apply type (.reference name functionType) args) (known.lookup name) := by
  intro datum hdatum
  obtain ⟨callee, contents, hcallee, hcontents, hcall⟩ := Program.step_apply.1 hdatum
  have hbound := h.resolve hns hsolved hframes hfits.function.reference hcallee
  generalize hfound : ((ns.simplified known).program outside).resolve eval' frames' name = found
    at hbound
  cases hbound with
  | plain hplain _ _ =>
    rw [hname] at hplain
    cases hplain
  | dropped hplain _ =>
    rw [hname] at hplain
    cases hplain
  | function hfunction hcode hresult hinside =>
    obtain rfl := Option.some.inj (hname.symm.trans hfunction)
    obtain ⟨hallows, contents', hcontents', datum', hdatum', hrelated⟩ :=
      call_simulated hns hsolved h hframes hfits htyped hcode hinside hcovered hpassed hcontents
        hcall
    have hlookup := hallows.below hresult
    refine ⟨hlookup, ?_⟩
    rcases constantCall?_cases hname type functionType with
      ⟨value, hvalue, hcalled⟩ | ⟨constructor, hvalue, hcalled⟩ | ⟨hcalled, hvalue⟩
    · rw [simplifyExpr_replaced hcalled]
      rw [Analysis.lookup, hvalue] at hlookup
      obtain rfl : datum = .literal value := hlookup
      exact ⟨_, rfl, .literal⟩
    · rw [simplifyExpr_replaced hcalled]
      rw [Analysis.lookup, hvalue] at hlookup
      obtain rfl : datum = .data constructor [] [] := hlookup
      have hdeclared : ns.fields? constructor = some [] := hsolved.proper.declared _ _ hvalue
      have hconstructor : ((ns.simplified known).program outside).constructor?
          (.constructor constructor) = some (.data constructor [] []) := by
        rw [ns.simplified_constructor? known outside]
        show Option.map _ (ns.fields? constructor) = _
        rw [hdeclared]
        rfl
      refine ⟨_, Program.step_apply.2 ⟨.data constructor [] [], [], ?_, rfl, rfl⟩, Related.refl _⟩
      show ((ns.simplified known).program outside).resolve eval' frames' _ = _
      rw [Program.resolve, hconstructor]
    · rw [simplifyExpr_kept hcalled,
        simplifyValue_reference fun value hconstant => (hvalue value hconstant).elim]
      exact ⟨datum', Program.step_apply.2 ⟨_, contents', hfound, hcontents', hdatum'⟩, hrelated⟩

/-- What is called is not replaced, since a literal cannot be called. -/
theorem step_applyName {type functionType : Ty} {name : Name} {args : List Value}
    (hfits : (Expr.apply type (.reference name functionType) args).Fits ns visible)
    (htyped : Typed ns (Expr.apply type (.reference name functionType) args).plainReferences)
    (hname : known.functionParams.get? name = none)
    (hargs : ∀ arg ∈ args, Value.Covered known arg) :
    StepSimulated ns known outside eval eval' frames frames'
      (.apply type (.reference name functionType) args) (known.reference name) := by
  intro datum hdatum
  obtain ⟨callee, contents, hcallee, hcontents, hcall⟩ := Program.step_apply.1 hdatum
  have hbound := h.resolve hns hsolved hframes hfits.function.reference hcallee
  have hvalue : ∀ value, known.values.get? name ≠ some (.constant value) := by
    intro value hvalue
    rw [hbound.eq_literal hname hvalue] at hcall
    cases hcall
  obtain ⟨hallows, callee', hcallee', hrelated⟩ := hbound.related hname hvalue
  obtain ⟨-, contents', hcontents', hrelatedArgs⟩ :=
    args_related hns hsolved h hframes hfits.args htyped hargs hcontents
  obtain ⟨datum', hdatum', hresult⟩ := h.call hrelated hrelatedArgs hcall
  have hcalled : known.constantCall? type (.reference name functionType) = none := by
    rw [Analysis.constantCall?, Table.contains, hname]
    rfl
  refine ⟨hallows.call hcall, datum', ?_, hresult⟩
  rw [simplifyExpr_kept hcalled,
    simplifyValue_reference fun value hconstant => (hvalue value hconstant).elim]
  exact Program.step_apply.2 ⟨callee', contents', hcallee', hcontents', hdatum'⟩

omit hns hsolved h hframes in
theorem Value.callee_eq {function : Value} (hother : ∀ name type, function ≠ .reference name type)
    (resolve : Name → Option Datum) :
    function.callee resolve frames = function.eval resolve frames := by
  cases function with
  | reference name type => exact (hother name type rfl).elim
  | _ => rfl

theorem step_applyValue {type : Ty} {function : Value} {args : List Value}
    (hfits : (Expr.apply type function args).Fits ns visible)
    (htyped : Typed ns (Expr.apply type function args).plainReferences)
    (hother : ∀ name type, function ≠ .reference name type)
    (hfunction : function.Covered known) (hargs : ∀ arg ∈ args, Value.Covered known arg) :
    StepSimulated ns known outside eval eval' frames frames' (.apply type function args)
      .nonConstant := by
  intro datum hdatum
  obtain ⟨callee, contents, hcallee, hcontents, hcall⟩ := Program.step_apply.1 hdatum
  have htyped' : Typed ns (function.plainReferences ++ Value.plainReferencesList args) := by
    rwa [Expr.plainReferences] at htyped
    exact hother
  obtain ⟨htypedFunction, htypedArgs⟩ := List.forall_mem_append.1 htyped'
  have hcalled : known.constantCall? type function = none := by
    cases function with
    | reference name type => exact (hother name type rfl).elim
    | _ => rfl
  have hother' : ∀ name type, known.simplifyValue function ≠ .reference name type := by
    cases function with
    | reference name type => exact (hother name type rfl).elim
    | _ => exact nofun
  rw [Value.callee_eq hother] at hcallee
  obtain ⟨-, callee', hcallee', hrelated⟩ :=
    value_related hns hsolved h hframes hfits.function htypedFunction hfunction hcallee
  obtain ⟨-, contents', hcontents', hrelatedArgs⟩ :=
    args_related hns hsolved h hframes hfits.args htypedArgs hargs hcontents
  obtain ⟨datum', hdatum', hresult⟩ := h.call hrelated hrelatedArgs hcall
  refine ⟨True.intro, datum', ?_, hresult⟩
  rw [simplifyExpr_kept hcalled]
  refine Program.step_apply.2 ⟨callee', contents', ?_, hcontents', hdatum'⟩
  rw [Value.callee_eq hother']
  exact hcallee'

/-! ## Cases -/

omit hns hsolved h hframes in
theorem simplifyCases_eq (cases : List Case) :
    known.simplifyCases cases =
      cases.map fun case => ⟨case.pattern, known.simplifyExpr case.body⟩ := by
  induction cases with
  | nil => rfl
  | cons case rest ih =>
    obtain ⟨pattern, body⟩ := case
    rw [Analysis.simplifyCases, ih, List.map_cons, Analysis.simplifyCase]

omit hns hsolved h hframes in
/-- The case that is selected is the only candidate, and binds constants only. -/
theorem selectedCase?_eq {scrutinee : Lattice} {cases : List Case} {selected : Case}
    (hselected : known.selectedCase? scrutinee (known.simplifyCases cases) = some selected)
    {candidate : Case × Matching} (hmem : candidate ∈ candidates Case.pattern scrutinee cases) :
    selected.body = known.simplifyExpr candidate.1.body ∧
      ∀ name ∈ candidate.1.pattern.boundNames, known.isConstant name = true := by
  rw [Analysis.selectedCase?, simplifyCases_eq, candidates_map fun _ => rfl] at hselected
  split at hselected
  · rename_i only hcandidates
    obtain ⟨hconstants, heq⟩ := Option.ite_none_right_eq_some.1 hselected
    obtain rfl := Option.some.inj heq
    have hsingle := List.mem_map_of_mem (f := Prod.map
      (fun case : Case => (⟨case.pattern, known.simplifyExpr case.body⟩ : Case)) id) hmem
    rw [hcandidates, List.mem_singleton] at hsingle
    obtain ⟨rfl, -⟩ := Prod.mk.inj hsingle
    exact ⟨rfl, List.all_eq_true.1 hconstants⟩
  · cases hselected

theorem step_cases {scrutinee : Value} {cases : List Case} {result : Lattice}
    (hfits : (Expr.cases scrutinee cases).Fits ns visible)
    (htyped : Typed ns (Expr.cases scrutinee cases).plainReferences)
    (hcovered : (Expr.cases scrutinee cases).Covered known result) :
    StepSimulated ns known outside eval eval' frames frames' (.cases scrutinee cases) result := by
  intro datum hdatum
  obtain ⟨given, hgiven, hrest⟩ := Option.bind_eq_some_iff.1 hdatum
  obtain ⟨selected, hselect, htaken⟩ := Option.bind_eq_some_iff.1 hrest
  obtain ⟨hscrutinee, hcases⟩ := hcovered.candidates
  obtain ⟨hfitsScrutinee, hfitsCases, -⟩ := hfits.cases
  obtain ⟨htypedScrutinee, htypedCases⟩ := List.forall_mem_append.1 htyped
  obtain ⟨hallows, given', hgiven', hrelated⟩ :=
    value_related hns hsolved h hframes hfitsScrutinee htypedScrutinee hscrutinee hgiven
  obtain ⟨⟨⟨pattern, body⟩, matching⟩, hcandidate, names, contents, hrun, rfl⟩ :=
    Case.select_candidate hallows hselect
  have hmem := candidates_subset hcandidate
  have htypedBody : Typed ns body.plainReferences := by
    rw [Case.plainReferencesList_eq, List.forall_mem_flatMap] at htypedCases
    exact htypedCases _ hmem
  obtain ⟨hfitsBody, hparams⟩ := (hfitsCases.mem hmem).body
  obtain ⟨hpattern, hbody, hown⟩ := hcases hallows.ne_unassigned _ hcandidate
  obtain ⟨rfl, hpermits⟩ := pattern.run_binds hpattern hallows hrun
  have hplain : ∀ name ∈ pattern.boundNames, known.functionParams.get? name = none :=
    fun name hname => hsolved.proper.functionParams_eq_none (hparams name hname)
  rw [Analysis.simplifyExpr]
  cases honly : known.selectedCase? (known.valueOf scrutinee) (known.simplifyCases cases) with
  | some only =>
    obtain ⟨hbodyEq, hconstants⟩ := selectedCase?_eq honly hcandidate
    obtain ⟨hresult, datum', hdatum', hrelated'⟩ :=
      h.branch (hframes.skip hplain hpermits hconstants) hfitsBody htypedBody hbody htaken
    refine ⟨hresult.below hown, datum', ?_, hrelated'⟩
    show ((ns.simplified known).program outside).step eval' frames' only.body = some datum'
    rw [hbodyEq]
    exact hdatum'
  | none =>
    obtain ⟨contents', hcontents, hselect'⟩ :=
      Case.select_related hrelated hselect known.simplifyExpr
    rw [← simplifyCases_eq] at hselect'
    obtain ⟨hresult, datum', hdatum', hrelated'⟩ :=
      h.code (hframes.enter hplain hpermits hcontents) hfitsBody htypedBody hbody htaken
    refine ⟨hresult.below hown, datum', ?_, hrelated'⟩
    exact Option.bind_eq_some_iff.2
      ⟨given', hgiven', Option.bind_eq_some_iff.2 ⟨_, hselect', hdatum'⟩⟩

/-! ## Blocks -/

omit hns hsolved h hframes in
theorem FrameScope.of_block {bindings : List Binding} {result : Expr}
    (hfits : (Expr.block bindings result).Fits ns visible)
    (htyped : Typed ns (Expr.block bindings result).plainReferences)
    (hcovered : ∀ binding ∈ bindings, binding.Covered known) {names : List Name}
    (hnames : ∀ name ∈ names, name ∈ bindings.map Binding.name) :
    FrameScope ns known (bindings.map Binding.name) visible bindings names := by
  refine ⟨fun name hname => .inr (List.mem_map.1 hname), hnames,
    fun binding hbinding => List.mem_map_of_mem hbinding, hcovered,
    fun binding hbinding => (hfits.block.1 binding hbinding).1, fun binding hbinding => ?_⟩
  have htypedBindings := (List.forall_mem_append.1 htyped).1
  rw [Binding.plainReferencesList_eq, List.forall_mem_flatMap] at htypedBindings
  rw [← Binding.plainReferences_eq]
  exact htypedBindings binding hbinding

omit hns hsolved hframes in
/-- A binding is bound to the same on both sides; nothing refers to one that is inlined. -/
theorem binding_simulated {front names : List Name} {bindings : List Binding}
    (hscope : FrameScope ns known front visible bindings names)
    (hframes : RelatedFrames ns known (front ++ visible) frames frames') {binding : Binding}
    (hbinding : binding ∈ bindings) {datum : Datum}
        (hdatum : binding.eval eval frames = some datum) :
    (∃ datum', (known.simplifyBinding binding).eval eval' frames' = some datum' ∧
      BoundTo ns known binding.name datum (some datum')) ∧
      (known.isInlined binding = true → BoundTo ns known binding.name datum none) := by
  cases hparams : binding.params? with
  | some params =>
    have hbound := hscope.boundTo hbinding hparams hframes
    have hkept := hscope.kept hbinding hparams
    refine ⟨?_, fun hinlined => ?_⟩
    · cases binding with
      | join name type params' body =>
        obtain rfl := Option.some.inj hparams
        obtain rfl := Option.some.inj hdatum
        exact ⟨_, rfl, hbound⟩
      | assign name type body =>
        rcases body.function_or_plain with ⟨params', inner, rfl⟩ | ⟨-, hnone, -⟩
        · obtain rfl := Option.some.inj hparams
          obtain ⟨rfl, heval⟩ := h.function hdatum
          exact ⟨_, heval _ _, hbound⟩
        · rw [Binding.params?, hnone] at hparams
          cases hparams
    · rw [hkept] at hinlined
      cases hinlined
  | none =>
    have hfits := hscope.fits binding hbinding
    have htyped := hscope.typed binding hbinding
    obtain ⟨hname, -, hinner, hresult⟩ := hscope.covered binding hbinding
    rw [hparams] at hname
    rw [Binding.paramNames, hparams] at hfits
    cases binding with
    | join name type params body => cases hparams
    | assign name type body =>
      rcases body.function_or_plain with ⟨params, inner, rfl⟩ | ⟨-, -, heq⟩
      · cases hparams
      · rw [Binding.inner, heq] at hfits htyped hinner
        obtain ⟨hallows, datum', hdatum', hrelated⟩ := h.code hframes hfits htyped hinner hdatum
        have hlookup := hallows.below hresult.below
        refine ⟨⟨datum', hdatum', .plain hname hlookup.reference hrelated⟩, fun hinlined => ?_⟩
        obtain ⟨-, value, hvalue⟩ := isInlined_eq hinlined
        rw [Analysis.lookup, hvalue] at hlookup
        obtain rfl : datum = .literal value := hlookup
        exact .dropped hname hvalue

omit hns hsolved in
/-- The bindings of a block are evaluated one after the other on both sides. -/
theorem bindings_simulated {front : List Name} {bindings : List Binding}
    (hscope : ∀ names : List Name, (∀ name ∈ names, name ∈ front) →
      FrameScope ns known front visible bindings names)
    {rest : List Binding} (hrest : ∀ binding ∈ rest, binding ∈ bindings)
    {names names' : List Name} (hnames : ∀ name ∈ names, name ∈ front)
    {contents contents' : List Datum} (hentries : Entries ns known names contents names' contents')
    {frame : Frame} (hframe : Binding.evalList eval bindings frames rest names contents =
      some frame) :
    ∃ names₁ contents₁ names₁' contents₁', frame = .mk bindings names₁ contents₁ ∧
      (∀ name ∈ names₁, name ∈ front) ∧ Entries ns known names₁ contents₁ names₁' contents₁' ∧
      Binding.evalList eval' (known.simplifyBindings bindings) frames'
        (known.simplifyBindings rest) names' contents' =
          some (.mk (known.simplifyBindings bindings) names₁' contents₁') := by
  induction rest generalizing names names' contents contents' with
  | nil =>
    obtain rfl := Option.some.inj hframe
    exact ⟨names, contents, names', contents', rfl, hnames, hentries, rfl⟩
  | cons binding rest ih =>
    rw [List.forall_mem_cons] at hrest
    obtain ⟨datum, hdatum, hothers⟩ := Option.bind_eq_some_iff.1 hframe
    have hinside := RelatedFrames.both (hscope names hnames) hentries hframes
    obtain ⟨⟨datum', hdatum', hbound⟩, hinlined⟩ :=
      binding_simulated h (hscope names hnames) hinside hrest.1 hdatum
    have hnext : ∀ name ∈ binding.name :: names, name ∈ front :=
      List.forall_mem_cons.2 ⟨(hscope names hnames).bound binding hrest.1, hnames⟩
    rw [Analysis.simplifyBindings]
    split
    · rename_i hdropped
      exact ih hrest.2 hnext (.dropped (hinlined hdropped) hentries) hothers
    · obtain ⟨names₁, contents₁, names₁', contents₁', rfl, hnames₁, hentries₁, hevaluated⟩ :=
        ih hrest.2 hnext (.kept hbound hentries) hothers
      refine ⟨names₁, contents₁, names₁', contents₁', rfl, hnames₁, hentries₁, ?_⟩
      refine Option.bind_eq_some_iff.2 ⟨datum', hdatum', ?_⟩
      rw [simplifyBinding_name]
      exact hevaluated

omit hns hsolved in
theorem step_block {bindings : List Binding} {expr : Expr} {result : Lattice}
    (hfits : (Expr.block bindings expr).Fits ns visible)
    (htyped : Typed ns (Expr.block bindings expr).plainReferences)
    (hbindings : ∀ binding ∈ bindings, binding.Covered known)
    (hresult : expr.Covered known result) :
    StepSimulated ns known outside eval eval' frames frames' (.block bindings expr) result := by
  intro datum hdatum
  obtain ⟨frame, hframe, htaken⟩ := Option.bind_eq_some_iff.1 hdatum
  have hscope : ∀ names : List Name, (∀ name ∈ names, name ∈ bindings.map Binding.name) →
      FrameScope ns known (bindings.map Binding.name) visible bindings names :=
    fun _ hnames => .of_block hfits htyped hbindings hnames
  obtain ⟨names, contents, names', contents', rfl, hnames, hentries, hevaluated⟩ :=
    bindings_simulated h hframes hscope (fun _ hbinding => hbinding)
      (fun _ hname => (List.not_mem_nil hname).elim) .nil hframe
  have htypedResult := (List.forall_mem_append.1 htyped).2
  rw [Analysis.simplifyExpr]
  split
  · rename_i hnone
    -- Nothing is evaluated in place of the block, so that its frame is left out.
    rw [hnone] at hevaluated
    obtain ⟨-, rfl, rfl⟩ := Frame.mk.inj (Option.some.inj hevaluated)
    exact h.branch (.skipped (hscope names hnames) hentries hnone hframes) hfits.block.2
      htypedResult hresult htaken
  · obtain ⟨hallows, datum', hdatum', hrelated⟩ :=
      h.code (.both (hscope names hnames) hentries hframes) hfits.block.2 htypedResult hresult
        htaken
    refine ⟨hallows, datum', ?_, hrelated⟩
    exact Option.bind_eq_some_iff.2 ⟨_, hevaluated, hdatum'⟩

/-! ## Code of the namespace -/

/-- A step of code that is covered is simulated. -/
theorem step_code {expr : Expr} {result : Lattice} (hfits : expr.Fits ns visible)
    (htyped : Typed ns expr.plainReferences) (hcovered : expr.Covered known result) :
    StepSimulated ns known outside eval eval' frames frames' expr result := by
  cases expr with
  | value value =>
    cases hcovered with
    | value hvalue => exact fun datum => value_related hns hsolved h hframes hfits htyped hvalue
  | apply type function args =>
    cases hcovered with
    | applyLambda hparams hargs hpassed hbody =>
      exact step_applyLambda hns hsolved h hframes hfits htyped hparams hargs hpassed hbody
    | applyFunction hname _ hargs hpassed =>
      exact step_applyFunction hns hsolved h hframes hfits htyped hname hargs hpassed
    | applyName hname hargs =>
      exact step_applyName hns hsolved h hframes hfits htyped hname hargs
    | applyValue hother hfunction hargs =>
      exact step_applyValue hns hsolved h hframes hfits htyped hother hfunction hargs
  | unary op operand =>
    cases hcovered with
    | unary hoperand => exact step_unary hns hsolved h hframes hfits htyped hoperand
  | binary left op right =>
    cases hcovered with
    | binary hleft hright => exact step_binary hns hsolved h hframes hfits htyped hleft hright
  | conditional condition consequent alternative =>
    exact step_conditional hns hsolved h hframes hfits htyped hcovered
  | cases scrutinee cases => exact step_cases hns hsolved h hframes hfits htyped hcovered
  | block bindings result =>
    cases hcovered with
    | block hbindings hresult => exact step_block h hframes hfits htyped hbindings hresult

end Steps

/-! ## Code from elsewhere -/

section Foreign

variable {ns : Namespace} {known : Analysis} {outside : Name → Option Datum}
  {eval eval' : List Frame → Expr → Option Datum} (hns : ns.WellFormed) (hsolved : Solved ns known)
  (h : Simulates ns known ((ns.simplified known).program outside) eval eval')
  {frames frames' : List Frame} (hframes : SameFrames ns known frames frames')
include hns hsolved h hframes

theorem value_foreign {value : Value} {datum : Datum}
    (hdatum : value.eval ((ns.program outside).resolve eval frames) frames = some datum) :
    ∃ datum', value.eval (((ns.simplified known).program outside).resolve eval' frames') frames' =
      some datum' ∧ Related ns known datum datum' := by
  fun_induction value.eval ((ns.program outside).resolve eval frames) frames
    generalizing datum with
  | case1 value =>
    obtain rfl := Option.some.inj hdatum
    exact ⟨_, rfl, .literal⟩
  | case2 name type =>
    obtain ⟨found, hfound, hrest⟩ := Option.bind_eq_some_iff.1 hdatum
    obtain ⟨hchecked, heq⟩ := Option.ite_none_left_eq_some.1 hrest
    obtain rfl := Option.some.inj heq
    obtain ⟨datum', hdatum', hrelated⟩ := h.resolve_foreign hns hsolved hframes hfound
    refine ⟨datum', Option.bind_eq_some_iff.2 ⟨datum', hdatum', ?_⟩, hrelated⟩
    rw [hrelated.isPlain, if_neg hchecked]
  | case3 params body =>
    obtain rfl := Option.some.inj hdatum
    exact ⟨_, rfl, .foreign hframes⟩
  | case4 value ih =>
    obtain ⟨content, hcontent, rfl⟩ := Option.map_eq_some_iff.1 hdatum
    obtain ⟨content', hcontent', hrelated⟩ := ih hcontent
    exact ⟨_, Option.map_eq_some_iff.2 ⟨content', hcontent', rfl⟩, .boxed hrelated⟩
  | case5 value ih =>
    obtain ⟨boxed, hboxed, hcontent⟩ := Option.bind_eq_some_iff.1 hdatum
    obtain ⟨boxed', hboxed', hrelated⟩ := ih hboxed
    cases hrelated with
    | boxed hrelated =>
      obtain rfl := Option.some.inj hcontent
      exact ⟨_, Option.bind_eq_some_iff.2 ⟨_, hboxed', rfl⟩, hrelated⟩
    | _ => cases hcontent

theorem callee_foreign {function : Value} {datum : Datum}
    (hdatum : function.callee ((ns.program outside).resolve eval frames) frames = some datum) :
    ∃ datum', function.callee (((ns.simplified known).program outside).resolve eval' frames')
      frames' = some datum' ∧ Related ns known datum datum' := by
  cases function with
  | reference name type => exact h.resolve_foreign hns hsolved hframes hdatum
  | _ => exact value_foreign hns hsolved h hframes hdatum

theorem args_foreign {args : List Value} {contents : List Datum}
    (hcontents : Value.evalList ((ns.program outside).resolve eval frames) frames args =
      some contents) :
    ∃ contents', Value.evalList (((ns.simplified known).program outside).resolve eval' frames')
        frames' args = some contents' ∧ List.Forall₂ (Related ns known) contents contents' := by
  induction args generalizing contents with
  | nil =>
    obtain rfl := Option.some.inj hcontents
    exact ⟨[], rfl, .nil⟩
  | cons arg rest ih =>
    obtain ⟨datum, hdatum, hrest⟩ := Option.bind_eq_some_iff.1 hcontents
    obtain ⟨others, hothers, rfl⟩ := Option.map_eq_some_iff.1 hrest
    obtain ⟨datum', hdatum', hrelated⟩ := value_foreign hns hsolved h hframes hdatum
    obtain ⟨others', hothers', hrelatedOthers⟩ := ih hothers
    refine ⟨_, Option.bind_eq_some_iff.2 ⟨datum', hdatum', ?_⟩, .cons hrelated hrelatedOthers⟩
    exact Option.map_eq_some_iff.2 ⟨others', hothers', rfl⟩

omit hns hsolved in
theorem bindings_foreign {bindings rest : List Binding} {names : List Name}
    {contents contents' : List Datum} (hcontents : List.Forall₂
        (Related ns known) contents contents')
    {frame : Frame} (hframe : Binding.evalList eval bindings frames rest names contents =
      some frame) :
    ∃ names₁ contents₁ contents₁', frame = .mk bindings names₁ contents₁ ∧
      List.Forall₂ (Related ns known) contents₁ contents₁' ∧
      Binding.evalList eval' bindings frames' rest names contents' =
        some (.mk bindings names₁ contents₁') := by
  induction rest generalizing names contents contents' with
  | nil =>
    obtain rfl := Option.some.inj hframe
    exact ⟨names, contents, contents', rfl, hcontents, rfl⟩
  | cons binding rest ih =>
    obtain ⟨datum, hdatum, hothers⟩ := Option.bind_eq_some_iff.1 hframe
    have hinside : SameFrames ns known (.mk bindings names contents :: frames)
        (.mk bindings names contents' :: frames') := .cons hcontents hframes
    have hbinding : ∃ datum', binding.eval eval' (.mk bindings names contents' :: frames') =
        some datum' ∧ Related ns known datum datum' := by
      cases binding with
      | assign name type body => exact h.foreign hinside hdatum
      | join name type params body =>
        obtain rfl := Option.some.inj hdatum
        exact ⟨_, rfl, .foreign hinside⟩
    obtain ⟨datum', hdatum', hrelated⟩ := hbinding
    obtain ⟨names₁, contents₁, contents₁', rfl, hcontents₁, hevaluated⟩ :=
      ih (.cons hrelated hcontents) hothers
    exact ⟨names₁, contents₁, contents₁', rfl, hcontents₁,
      Option.bind_eq_some_iff.2 ⟨datum', hdatum', hevaluated⟩⟩

theorem cases_foreign {scrutinee : Value} {cases : List Case} {datum : Datum}
    (hdatum : (ns.program outside).step eval frames (.cases scrutinee cases) = some datum) :
    ∃ datum', ((ns.simplified known).program outside).step eval' frames' (.cases scrutinee cases) =
      some datum' ∧ Related ns known datum datum' := by
  obtain ⟨given, hgiven, hrest⟩ := Option.bind_eq_some_iff.1 hdatum
  obtain ⟨selected, hselect, htaken⟩ := Option.bind_eq_some_iff.1 hrest
  obtain ⟨given', hgiven', hrelated⟩ := value_foreign hns hsolved h hframes hgiven
  have hany : Lattice.nonConstant.Allows given := True.intro
  obtain ⟨candidate, -, names, contents, -, rfl⟩ := Case.select_candidate hany hselect
  obtain ⟨contents', hcontents, hselect'⟩ := Case.select_related hrelated hselect id
  have hsame : (fun case : Case => (⟨case.pattern, id case.body⟩ : Case)) = id := by
    funext case
    cases case
    rfl
  rw [hsame, List.map_id] at hselect'
  obtain ⟨datum', hdatum', hresult⟩ := h.foreign (.cons hcontents hframes) htaken
  exact ⟨datum', Option.bind_eq_some_iff.2
    ⟨given', hgiven', Option.bind_eq_some_iff.2 ⟨_, hselect', hdatum'⟩⟩, hresult⟩

/-- A step of code that is not simplified is simulated by the same step. -/
theorem step_foreign {expr : Expr} {datum : Datum}
    (hdatum : (ns.program outside).step eval frames expr = some datum) :
    ∃ datum', ((ns.simplified known).program outside).step eval' frames' expr = some datum' ∧
      Related ns known datum datum' := by
  cases expr with
  | value value => exact value_foreign hns hsolved h hframes hdatum
  | apply type function args =>
    obtain ⟨callee, contents, hcallee, hcontents, hcall⟩ := Program.step_apply.1 hdatum
    obtain ⟨callee', hcallee', hrelated⟩ := callee_foreign hns hsolved h hframes hcallee
    obtain ⟨contents', hcontents', hargs⟩ := args_foreign hns hsolved h hframes hcontents
    obtain ⟨datum', hdatum', hresult⟩ := h.call hrelated hargs hcall
    exact ⟨datum', Program.step_apply.2 ⟨callee', contents', hcallee', hcontents', hdatum'⟩,
      hresult⟩
  | unary op operand =>
    obtain ⟨given, hgiven, hresult⟩ := Option.bind_eq_some_iff.1 hdatum
    obtain ⟨given', hgiven', hrelated⟩ := value_foreign hns hsolved h hframes hgiven
    cases given with
    | literal value =>
      obtain rfl := hrelated.eq_literal
      exact ⟨datum, Option.bind_eq_some_iff.2 ⟨_, hgiven', hresult⟩, Related.refl datum⟩
    | _ => cases hresult
  | binary left op right =>
    obtain ⟨l, hl, hrest⟩ := Option.bind_eq_some_iff.1 hdatum
    obtain ⟨r, hr, hresult⟩ := Option.bind_eq_some_iff.1 hrest
    obtain ⟨l', hl', hrelatedLeft⟩ := value_foreign hns hsolved h hframes hl
    obtain ⟨r', hr', hrelatedRight⟩ := value_foreign hns hsolved h hframes hr
    obtain ⟨_, _, _, rfl, rfl, -, -⟩ := binaryDatum_eq hresult
    obtain rfl := hrelatedLeft.eq_literal
    obtain rfl := hrelatedRight.eq_literal
    refine ⟨datum, Option.bind_eq_some_iff.2 ⟨_, hl', ?_⟩, Related.refl datum⟩
    exact Option.bind_eq_some_iff.2 ⟨_, hr', hresult⟩
  | conditional condition consequent alternative =>
    obtain ⟨given, hgiven, hbranch⟩ := Option.bind_eq_some_iff.1 hdatum
    obtain ⟨given', hgiven', hrelated⟩ := value_foreign hns hsolved h hframes hgiven
    split at hbranch
    · obtain rfl := hrelated.eq_literal
      obtain ⟨datum', hdatum', hresult⟩ := h.foreign hframes hbranch
      exact ⟨datum', Option.bind_eq_some_iff.2 ⟨_, hgiven', hdatum'⟩, hresult⟩
    · obtain rfl := hrelated.eq_literal
      obtain ⟨datum', hdatum', hresult⟩ := h.foreign hframes hbranch
      exact ⟨datum', Option.bind_eq_some_iff.2 ⟨_, hgiven', hdatum'⟩, hresult⟩
    · cases hbranch
  | cases scrutinee cases => exact cases_foreign hns hsolved h hframes hdatum
  | block bindings result =>
    obtain ⟨frame, hframe, htaken⟩ := Option.bind_eq_some_iff.1 hdatum
    obtain ⟨names, contents, contents', rfl, hcontents, hevaluated⟩ :=
      bindings_foreign h hframes .nil hframe
    obtain ⟨datum', hdatum', hresult⟩ := h.foreign (.cons hcontents hframes) htaken
    exact ⟨datum', Option.bind_eq_some_iff.2 ⟨_, hevaluated, hdatum'⟩, hresult⟩

end Foreign

/-! ## Evaluations -/

section Evaluations

variable {ns : Namespace} {known : Analysis} (hns : ns.WellFormed) (hsolved : Solved ns known)
  (outside : Name → Option Datum)
include hns hsolved

/-- The step lemma: where evaluations simulate each other, so do evaluations that make one step
more. -/
theorem Simulates.step {eval eval' : List Frame → Expr → Option Datum}
    (h : Simulates ns known ((ns.simplified known).program outside) eval eval') :
    Simulates ns known ((ns.simplified known).program outside) ((ns.program outside).step eval)
      (((ns.simplified known).program outside).step eval') where
  code hframes hfits htyped hcovered hdatum :=
    step_code hns hsolved h hframes hfits htyped hcovered _ hdatum
  foreign hframes hdatum := step_foreign hns hsolved h hframes hdatum
  function hdatum := ⟨(Option.some.inj hdatum).symm, fun _ _ => rfl⟩
  more := h.more.step _

theorem simulates_eval (fuel : Nat) :
    Simulates ns known ((ns.simplified known).program outside) ((ns.program outside).eval fuel)
      (((ns.simplified known).program outside).eval fuel) := by
  induction fuel with
  | zero => exact ⟨fun _ _ _ _ => nofun, fun _ => nofun, nofun, Program.eval_succ _ 0⟩
  | succ fuel ih => exact ih.step hns hsolved outside

/-- The value of a definition, before and after simplification. -/
theorem definition_related {fuel : Nat} {name : QualifiedName} {datum : Datum}
    (hdatum : (ns.program outside).definition fuel name = some datum) :
    ∃ datum', ((ns.simplified known).program outside).definition fuel name = some datum' ∧
      Related ns known datum datum' := by
  obtain ⟨body, hbody, heval⟩ := Option.bind_eq_some_iff.1 hdatum
  obtain ⟨d, hd, hname, rfl⟩ := Namespace.body?_eq_some hbody
  obtain ⟨datum', heval', -, hrelated⟩ :=
    (simulates_eval hns hsolved outside fuel).definition hns hsolved hd heval
  refine ⟨datum', Option.bind_eq_some_iff.2 ⟨known.simplifyExpr d.body, ?_, heval'⟩, hrelated⟩
  rw [ns.simplified_body? known outside, hbody]
  rfl

/-- The result of a call of a definition, before and after simplification. -/
theorem callDefinition_related {fuel : Nat} {name : QualifiedName} {args : List Datum}
    {datum : Datum} (hdatum : (ns.program outside).callDefinition fuel name args = some datum) :
    ∃ datum', ((ns.simplified known).program outside).callDefinition fuel name args =
      some datum' ∧ Related ns known datum datum' := by
  obtain ⟨callee, hcallee, hcall⟩ := Option.bind_eq_some_iff.1 hdatum
  obtain ⟨callee', hcallee', hrelated⟩ := definition_related hns hsolved outside hcallee
  obtain ⟨datum', hdatum', hresult⟩ := (simulates_eval hns hsolved outside fuel).call hrelated
    (Related.reflList args) hcall
  exact ⟨datum', Option.bind_eq_some_iff.2 ⟨callee', hcallee', hdatum'⟩, hresult⟩

end Evaluations

/-- A well-formed namespace is simplified to one with the same meaning.  What a definition or a call
of a definition evaluates to, it still evaluates to, in as many steps and whatever the names from
elsewhere stand for: the values are the same but for the code of functions in them, and the same
altogether when there are none. -/
theorem optimise_preserves {ns : Namespace} (hns : ns.WellFormed) :
    ∃ simplified known, Analyse.optimise ns Analysis.start = .ok simplified known ∧
      ∀ (outside : Name → Option Datum) (fuel : Nat) (name : QualifiedName),
        (∀ datum, (ns.program outside).definition fuel name = some datum →
          ∃ datum', (simplified.program outside).definition fuel name = some datum' ∧
            datum'.bare = datum.bare ∧ (datum.isGround = true → datum' = datum)) ∧
        ∀ args datum, (ns.program outside).callDefinition fuel name args = some datum →
          ∃ datum', (simplified.program outside).callDefinition fuel name args = some datum' ∧
            datum'.bare = datum.bare ∧ (datum.isGround = true → datum' = datum) := by
  obtain ⟨known, hrun, hsolved⟩ := declarations_solved hns.toWellScoped
  refine ⟨ns.simplified known, known, ?_, fun outside fuel name => ⟨?_, ?_⟩⟩
  · show EStateM.bind (Analyse.declarations ns.declarations) _ Analysis.start = _
    rw [EStateM.bind, hrun]
    rfl
  · intro datum hdatum
    obtain ⟨datum', hdatum', hrelated⟩ := definition_related hns hsolved outside hdatum
    exact ⟨datum', hdatum', hrelated.bare, fun hground => Datum.eq_of_bare_eq hground hrelated.bare⟩
  · intro args datum hdatum
    obtain ⟨datum', hdatum', hrelated⟩ := callDefinition_related hns hsolved outside hdatum
    exact ⟨datum', hdatum', hrelated.bare, fun hground => Datum.eq_of_bare_eq hground hrelated.bare⟩

/-- A constant, and a function in which a name is bound to it. -/
def Namespace.scaling : Namespace :=
  let int := Ty.builtIn .int
  let ns : NamespaceName := ⟨[], "scaling"⟩
  let answer := Expr.binary (.literal (.int 1)) .add (.literal (.int 1))
  let factor := Expr.value (.reference (.binding ⟨ns, "answer"⟩) int)
  let product := Expr.binary (.reference (.bound "n" 1) int) .multiply
    (.reference (.bound "x" 0) int)
  ⟨ns, [.definition ⟨⟨ns, "answer"⟩, int, answer⟩,
    .definition ⟨⟨ns, "scaled"⟩, .function [int] int, .value (.lambda [⟨.bound "x" 0, int⟩]
      (.block [.assign (.bound "n" 1) int factor] product))⟩]⟩

theorem optimise_preserves_scaling : Namespace.scaling.WellFormed ∧
    ∃ simplified known, Analyse.optimise Namespace.scaling Analysis.start =
        .ok simplified known ∧
      (simplified.program fun _ => none).callDefinition 4 ⟨⟨[], "scaling"⟩, "scaled"⟩
        [.literal (.int 3)] = some (.literal (.int 6)) := by
  have hns : Namespace.scaling.WellFormed := by decide
  obtain ⟨simplified, known, hrun, hpreserved⟩ := optimise_preserves hns
  refine ⟨hns, simplified, known, hrun, ?_⟩
  obtain ⟨datum', hdatum', -, hsame⟩ :=
    (hpreserved (fun _ => none) 4 ⟨⟨[], "scaling"⟩, "scaled"⟩).2 [.literal (.int 3)]
      (.literal (.int 6)) rfl
  rw [hdatum', hsame rfl]

end PolyFront.Lowered
