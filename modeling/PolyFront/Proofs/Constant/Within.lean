import PolyFront.Proofs.Constant.Drained

/-!
# Analyses below a solution

A run that starts below a solution of a namespace ends below it: whatever the run records, the
solution holds already.  Every transfer step is monotone but two.  A connective with a deciding
left operand has a result although nothing is known about its right operand, and loses it when the
left operand turns out to be no constant.  Arguments of a call that have no parameter are analysed
as long as the function is not recorded, and left out afterwards.  Code without both is steady, as
far as it is reached.
-/

namespace PolyFront

namespace Lattice

/-- A connective whose left operand may decide it waits for its right operand. -/
def waits (left : Lattice) (op : BinaryOp) (right : Lattice) : Bool :=
  (op = .booleanAnd || op = .booleanOr) && left = .nonConstant && right = .unassigned

theorem unary_below {low high : Lattice} (h : low.Below high) (op : UnaryOp) :
    (unary op low).Below (unary op high) := by
  rcases h with rfl | rfl | rfl
  · exact unassigned_below _
  · exact Below.refl _
  · exact below_nonConstant _

theorem binary_unassigned (op : BinaryOp) (right : Lattice) :
    binary .unassigned op right = .unassigned := by
  unfold binary
  split <;> simp_all

/-- A left operand decides a connective, or the operator has no result without the right one. -/
theorem binary_cases (left : Lattice) (op : BinaryOp) :
    (op = .booleanAnd ∨ op = .booleanOr) ∧ (∀ right, binary left op right = left) ∨
      binary left op .unassigned = .unassigned := by
  unfold binary
  split <;> simp_all

theorem binary_nonConstant_left {op : BinaryOp} {right : Lattice} (h : right ≠ .unassigned) :
    binary .nonConstant op right = .nonConstant := by
  unfold binary
  split <;> simp_all

theorem binary_nonConstant_right {left : Lattice} (op : BinaryOp) (h : left ≠ .unassigned) :
    (∀ right, binary left op right = left) ∨ binary left op .nonConstant = .nonConstant := by
  unfold binary
  split <;> simp_all

/-- Operators are monotone, unless a connective waits for its right operand. -/
theorem binary_below {left left' right right' : Lattice} {op : BinaryOp}
    (hleft : left.Below left') (hright : right.Below right')
    (hwaits : left'.waits op right' = false) :
    (binary left op right).Below (binary left' op right') := by
  rcases hleft with rfl | rfl | rfl
  · rw [binary_unassigned]
    exact unassigned_below _
  · by_cases hleft : left = .unassigned
    · rw [hleft, binary_unassigned]
      exact unassigned_below _
    rcases binary_cases left op with ⟨-, hdecided⟩ | hwaiting
    · rw [hdecided, hdecided]
      exact Below.refl _
    · rcases hright with rfl | rfl | rfl
      · rw [hwaiting]
        exact unassigned_below _
      · exact Below.refl _
      · rcases binary_nonConstant_right op hleft with hdecided | htop
        · rw [hdecided, hdecided]
          exact Below.refl _
        · rw [htop]
          exact below_nonConstant _
  · by_cases hnothing : right' = .unassigned
    · -- No connective waits, so that nothing is known about the result on either side.
      subst hnothing
      obtain rfl : right = .unassigned := by
        rcases hright with rfl | rfl | h
        · rfl
        · rfl
        · cases h
      rcases binary_cases left op with ⟨hop, -⟩ | hwaiting
      · simp only [waits, decide_true, Bool.and_true, Bool.or_eq_false_iff,
          decide_eq_false_iff_not] at hwaits
        exact (hop.elim hwaits.1 hwaits.2).elim
      · rw [hwaiting]
        exact unassigned_below _
    · rw [binary_nonConstant_left hnothing]
      exact below_nonConstant _

end Lattice

namespace Lowered

/-! ## Steady code -/

/-- A call of a local function has a parameter for every argument. -/
def Namespace.hasParams (ns : Namespace) (args : List Value) : Value → Bool
  | .reference name _ =>
    match ns.params? name with
    | some params => !ns.locals.contains name || args.length ≤ params.length
    | none => true
  | _ => true

mutual
/-- No connective that is reached waits for its right operand, and every argument of a local
function that is called by name has a parameter. -/
def Value.isSteady (ns : Namespace) (known : Analysis) : Value → Bool
  | .literal _ => true
  | .reference _ _ => true
  | .lambda _ body => body.isSteady ns known
  | .box value => value.isSteady ns known
  | .unbox value => value.isSteady ns known
def Value.isSteadyList (ns : Namespace) (known : Analysis) : List Value → Bool
  | [] => true
  | value :: rest => value.isSteady ns known && Value.isSteadyList ns known rest
/-- No connective that is reached waits for its right operand, and every argument of a local
function that is called by name has a parameter. -/
def Expr.isSteady (ns : Namespace) (known : Analysis) : Expr → Bool
  | .value value => value.isSteady ns known
  | .apply _ function args =>
    ns.hasParams args function && function.isSteady ns known && Value.isSteadyList ns known args
  | .unary _ operand => operand.isSteady ns known
  | .binary left op right =>
    !(known.valueOf left).waits op (known.valueOf right) && left.isSteady ns known &&
      right.isSteady ns known
  | .conditional condition consequent alternative =>
    condition.isSteady ns known &&
      match known.valueOf condition with
      | .unassigned => true
      | .constant (.boolean true) => consequent.isSteady ns known
      | .constant (.boolean false) => alternative.isSteady ns known
      | _ => consequent.isSteady ns known && alternative.isSteady ns known
  | .cases scrutinee cases =>
    scrutinee.isSteady ns known && (known.valueOf scrutinee = .unassigned ||
      Case.isSteadyList ns known (known.valueOf scrutinee) cases)
  | .block bindings result =>
    Binding.isSteadyList ns known bindings && result.isSteady ns known
def Case.isSteady (ns : Namespace) (known : Analysis) : Case → Bool
  | ⟨_, body⟩ => body.isSteady ns known
def Case.isSteadyList (ns : Namespace) (known : Analysis) (scrutinee : Lattice) :
    List Case → Bool
  | [] => true
  | case :: rest =>
    match case.pattern.matching scrutinee with
    | .never => Case.isSteadyList ns known scrutinee rest
    | .maybe => case.isSteady ns known && Case.isSteadyList ns known scrutinee rest
    | .always => case.isSteady ns known
def Binding.isSteady (ns : Namespace) (known : Analysis) : Binding → Bool
  | .assign _ _ body => body.isSteady ns known
  | .join _ _ _ body => body.isSteady ns known
def Binding.isSteadyList (ns : Namespace) (known : Analysis) : List Binding → Bool
  | [] => true
  | binding :: rest => binding.isSteady ns known && Binding.isSteadyList ns known rest
end

/-- All definitions are steady under what is known about them. -/
def Namespace.Steady (ns : Namespace) (known : Analysis) : Prop :=
  ∀ d ∈ ns.definitions, d.body.inner.isSteady ns known = true

section Steady

variable (ns : Namespace) (known : Analysis)

theorem Value.isSteadyList_eq (values : List Value) :
    Value.isSteadyList ns known values = values.all (Value.isSteady ns known) := by
  induction values with
  | nil => rfl
  | cons value rest ih => rw [Value.isSteadyList, ih, List.all_cons]

theorem Case.isSteadyList_eq (scrutinee : Lattice) (cases : List Case) :
    Case.isSteadyList ns known scrutinee cases =
      (candidates Case.pattern scrutinee cases).all fun candidate =>
        candidate.1.body.isSteady ns known := by
  induction cases with
  | nil => rfl
  | cons case rest ih =>
    obtain ⟨pattern, body⟩ := case
    rw [Case.isSteadyList, candidates]
    cases pattern.matching scrutinee <;> simp [ih, Case.isSteady]

theorem Binding.isSteadyList_eq (bindings : List Binding) :
    Binding.isSteadyList ns known bindings =
      bindings.all fun binding => binding.inner.isSteady ns known := by
  induction bindings with
  | nil => rfl
  | cons binding rest ih =>
    rw [Binding.isSteadyList, ih, List.all_cons]
    congr 1
    cases binding with
    | join name type params body => rfl
    | assign name type body =>
      rcases body.function_or_plain with ⟨params, inner, rfl⟩ | ⟨-, -, heq⟩
      · rfl
      · rw [Binding.isSteady, Binding.inner, heq]

end Steady

/-! ## Candidates -/

/-- A pattern that is sure to match whatever it is given always matches. -/
theorem Pattern.matching_nonConstant : ∀ pattern : Pattern,
    pattern.matching .nonConstant = .maybe ∨ ∀ scrutinee, pattern.matching scrutinee = .always
  | .id _ => .inr fun _ => rfl
  | .alias _ pattern => pattern.matching_nonConstant
  | .literal _ => .inl rfl
  | .constructor _ _ => .inl rfl

/-- The more is known about the scrutinee, the fewer cases can be taken. -/
theorem candidates_below {scrutinee high : Lattice} (h : scrutinee.Below high)
    (hassigned : scrutinee ≠ .unassigned) (cases : List Case) {candidate : Case × Matching}
    (hcandidate : candidate ∈ candidates Case.pattern scrutinee cases) :
    ∃ candidate' ∈ candidates Case.pattern high cases, candidate'.1 = candidate.1 := by
  rcases h with rfl | rfl | rfl
  · exact (hassigned rfl).elim
  · exact ⟨candidate, hcandidate, rfl⟩
  · induction cases with
    | nil => cases hcandidate
    | cons case rest ih =>
      rw [candidates] at hcandidate ⊢
      rcases case.pattern.matching_nonConstant with hmaybe | halways
      · have hfirst : candidate.1 = case ∨
            candidate ∈ candidates Case.pattern scrutinee rest := by
          split at hcandidate
          · exact .inr hcandidate
          · exact (List.mem_cons.1 hcandidate).imp_left fun heq => by rw [heq]
          · exact .inl (by rw [List.mem_singleton.1 hcandidate])
        rw [hmaybe]
        rcases hfirst with heq | hrest
        · exact ⟨_, List.mem_cons_self, heq.symm⟩
        · obtain ⟨candidate', hmem, heq⟩ := ih hrest
          exact ⟨candidate', List.mem_cons_of_mem _ hmem, heq⟩
      · rw [halways] at hcandidate ⊢
        exact ⟨candidate, hcandidate, rfl⟩

/-! ## Runs below a solution -/

/-- What is known lies below a solution, which may have recorded more of the local functions. -/
structure Within (ns : Namespace) (known low : Analysis) : Prop where
  grows : low.Grows known
  functions : ∀ name params, low.functionParams.get? name = some params →
    known.functionParams.get? name = some params
  recorded : ∀ name, known.functionParams.get? name ≠ none → name ∉ ns.locals →
    low.functionParams.get? name ≠ none
  bound : ∀ name, name ∈ low.bound ↔ name ∈ ns.boundNames

/-- The run ends below the solution, and what it returns is good. -/
def Lands {α : Type} (ns : Namespace) (known low : Analysis) (run : Analyse α)
    (good : α → Prop) : Prop :=
  Within ns known (run low).2 ∧ good (run low).1

section Rules

variable {α β : Type} {ns : Namespace} {known low : Analysis} {good : α → Prop}
  {good' : β → Prop}

theorem Lands.pure (h : Within ns known low) {a : α} (ha : good a) :
    Lands ns known low (Pure.pure a) good := ⟨h, ha⟩

theorem Lands.bind {run : Analyse α} {next : α → Analyse β} (h : Lands ns known low run good)
    (hnext : ∀ a mid, Within ns known mid → good a → Lands ns known mid (next a) good') :
    Lands ns known low (run >>= next) good' :=
  hnext _ _ h.1 h.2

theorem Lands.mono {good' : α → Prop} {run : Analyse α} (h : Lands ns known low run good)
    (hgood : ∀ a, good a → good' a) : Lands ns known low run good' :=
  ⟨h.1, hgood _ h.2⟩

theorem Lands.get {next : Analysis → Analyse β} (h : Lands ns known low (next low) good') :
    Lands ns known low (MonadState.get >>= next) good' := h

theorem Lands.modify {change : Analysis → Analysis} (h : Within ns known (change low)) :
    Lands ns known low (modify change) fun _ : PUnit => True :=
  ⟨h, True.intro⟩

/-- A run of which the result is not used. -/
theorem Lands.discard {run : Analyse α} (h : Lands ns known low run good) :
    Lands ns known low (do let _ ← run) fun _ : PUnit => True :=
  h.bind fun _ _ hmid _ => Lands.pure hmid True.intro

theorem Lands.forM (hlow : Within ns known low) {items : List α} {run : α → Analyse PUnit}
    (h : ∀ item ∈ items, ∀ mid, Within ns known mid →
      Lands ns known mid (run item) fun _ => True) :
    Lands ns known low (items.forM run) fun _ => True := by
  induction items generalizing low with
  | nil => exact Lands.pure hlow True.intro
  | cons item rest ih =>
    rw [List.forall_mem_cons] at h
    exact (h.1 low hlow).bind fun _ _ hmid _ => ih hmid h.2

end Rules

/-! ## Records -/

section Records

variable {ns : Namespace} {known low : Analysis}

/-- What the solution holds can be recorded. -/
theorem Within.record (h : Within ns known low) {name : Name} {value : Lattice}
    (hholds : known.Holds name value) : Within ns known (low.record name value).2 := by
  have hgrows : (low.record name value).2.Grows known := by
    rcases low.record_cases name value with ⟨entry, -, -, heq⟩ | ⟨raised, hraised, heq⟩
    · rw [heq]
      exact h.grows
    · have hbelow : known.Holds name raised := by
        rcases hraised with ⟨-, rfl⟩ | ⟨entry, hentry, rfl, -⟩
        · exact hholds
        · obtain ⟨high, hhigh, hentry⟩ := h.grows name entry hentry
          obtain ⟨high', hhigh', hvalue⟩ := hholds
          obtain rfl := Option.some.inj (hhigh.symm.trans hhigh')
          exact ⟨high, hhigh, Lattice.join_below hentry hvalue⟩
      rw [heq]
      intro other entry hentry
      rw [Analysis.get?_raise] at hentry
      split at hentry
      · rename_i hother
        obtain rfl := Option.some.inj hentry
        exact hother ▸ hbelow
      · exact h.grows other entry hentry
  obtain ⟨values, changes, heq⟩ := record_rest low name value
  rw [heq] at hgrows ⊢
  exact ⟨hgrows, h.functions, h.recorded, h.bound⟩

theorem Within.withWorklist (h : Within ns known low) (worklist : List Name) :
    Within ns known { low with worklist := worklist } :=
  ⟨h.grows, h.functions, h.recorded, h.bound⟩

/-- What the solution has recorded can be recorded. -/
theorem Within.withFunction (h : Within ns known low) {name : Name} {params : List Name}
    (hname : known.functionParams.get? name = some params) :
    Within ns known (low.withFunction name params) := by
  by_cases hnone : low.functionParams.get? name = none
  · have hget := Analysis.get?_withFunction params hnone
    refine ⟨h.grows, fun other found hfound => ?_, fun other hother hlocal => ?_, h.bound⟩
    · rw [hget] at hfound
      split at hfound
      · rename_i heq
        rw [heq, hname, hfound]
      · exact h.functions other found hfound
    · rw [hget]
      split
      · exact nofun
      · exact h.recorded other hother hlocal
  · rw [Analysis.withFunction_of_some hnone]
    exact h

/-- A name is referred to with no more than the solution allows for. -/
theorem Within.reference_below (h : Within ns known low) (hknown : known.Proper ns)
    (name : Name) : (low.reference name).Below (known.reference name) := by
  rw [hknown.reference_eq, Analysis.reference]
  cases hentry : low.values.get? name with
  | some entry =>
    have hholds := h.grows name entry hentry
    obtain ⟨high, hhigh, -⟩ := h.grows name entry hentry
    rw [if_pos (hknown.named name (by rw [hhigh]; exact Option.some_ne_none _))]
    exact hholds.below
  | none =>
    have hiff : low.bound.contains name = true ↔ name ∈ ns.boundNames :=
      List.contains_iff_mem.trans (h.bound name)
    by_cases hname : name ∈ ns.boundNames
    · rw [if_pos hname]
      simp only [hiff.2 hname, if_true]
      exact Lattice.unassigned_below _
    · rw [if_neg hname]
      exact Lattice.below_nonConstant _

theorem lands_record (h : Within ns known low) {name : Name} {value : Lattice}
    (hholds : known.Holds name value) :
    Lands ns known low (Analyse.record name value) fun _ => True :=
  ⟨h.record hholds, True.intro⟩

theorem lands_recordUnknown (h : Within ns known low) {params : List Name}
    (hparams : ∀ p ∈ params, known.lookup p = .nonConstant) :
    Lands ns known low (Analyse.recordUnknown params) fun _ => True :=
  Lands.forM h fun p hp _ hmid =>
    (lands_record hmid (Analysis.holds_of_lookup (hparams p hp))).discard

/-- From below the solution, the analysis of the operand ends below it. -/
def LandsValue (ns : Namespace) (known : Analysis) (value : Value) : Prop :=
  ∀ low, Within ns known low →
    Lands ns known low (Analyse.value value) (·.Below (known.valueOf value))

/-- From below the solution, the analysis of the expression ends below it and returns a value
below the result. -/
def LandsExpr (ns : Namespace) (known : Analysis) (expr : Expr) (result : Lattice) : Prop :=
  ∀ low, Within ns known low → Lands ns known low (Analyse.expr expr) (·.Below result)

theorem lands_recordArgs (h : Within ns known low) {params : List Name} {args : List Value}
    (hargs : ∀ pair ∈ params.zip args, LandsValue ns known pair.2)
    (hpassed : ∀ pair ∈ params.zip args, known.Holds pair.1 (known.valueOf pair.2)) :
    Lands ns known low (Analyse.recordArgs params (Analyse.values args)) fun _ => True := by
  refine Lands.forM h fun pair hpair mid hmid => ?_
  rw [Analyse.values_eq, List.zip_map_right, List.mem_map] at hpair
  obtain ⟨⟨p, arg⟩, hmem, rfl⟩ := hpair
  refine (hargs _ hmem mid hmid).bind fun value after hafter hvalue => ?_
  exact (lands_record hafter ((hpassed _ hmem).mono hvalue)).discard

theorem lands_forM (h : Within ns known low) {args : List Value}
    (hargs : ∀ arg ∈ args, LandsValue ns known arg) :
    Lands ns known low ((Analyse.values args).forM fun arg => do let _ ← arg) fun _ => True := by
  refine Lands.forM h fun run hrun mid hmid => ?_
  rw [Analyse.values_eq, List.mem_map] at hrun
  obtain ⟨arg, harg, rfl⟩ := hrun
  exact (hargs arg harg mid hmid).discard

/-- Functions that escape can be called with anything in the solution already. -/
theorem lands_reference (hknown : known.Proper ns) {name : Name} {type : Ty}
    (h : (Value.reference name type).Covered known) :
    LandsValue ns known (.reference name type) := by
  intro low hlow
  rw [Analyse.value, Analyse.reference, Analysis.valueOf]
  cases h with
  | plain htype =>
    simp only [htype]
    exact Lands.get (Lands.pure hlow (hlow.reference_below hknown name))
  | escaping htype hparams =>
    simp only [htype]
    refine Lands.get ((lands_recordUnknown hlow fun p hp => ?_).bind fun _ _ hmid _ =>
      Lands.pure hmid (Lattice.Below.refl _))
    cases hfunction : low.functionParams.get? name with
    | none =>
      rw [hfunction] at hp
      cases hp
    | some params =>
      rw [hfunction] at hp
      exact hparams params (hlow.functions name params hfunction) p hp

end Records

/-! ## Calls -/

section Calls

variable {ns : Namespace} {known : Analysis}

/-- Before the function is recorded, all arguments are analysed. Afterwards, those that have
a parameter are. -/
theorem lands_call (hknown : known.Proper ns) {name : Name} {params : List Name}
    {args : List Value} (hname : known.functionParams.get? name = some params)
    (hcalled : known.Holds name .unassigned)
    (hargs : ∀ pair ∈ params.zip args, LandsValue ns known pair.2)
    (hpassed : ∀ pair ∈ params.zip args, known.Holds pair.1 (known.valueOf pair.2))
    (hfits : name ∈ ns.locals → args.length ≤ params.length) {low : Analysis}
    (hlow : Within ns known low) :
    Lands ns known low (Analyse.call name (Analyse.values args))
      (·.Below (known.lookup name)) := by
  refine Lands.get ?_
  cases hrecorded : low.functionParams.get? name with
  | some found =>
    obtain rfl := Option.some.inj ((hlow.functions name found hrecorded).symm.trans hname)
    refine (lands_record hlow hcalled).bind fun _ mid hmid _ => Lands.get ?_
    refine (lands_recordArgs hmid hargs hpassed).bind fun _ after hafter _ => ?_
    refine Lands.bind (Lands.modify ?_) fun _ last hlast _ =>
      Lands.get (Lands.pure hlast (hlast.grows.below name))
    split
    · exact hafter.withWorklist _
    · exact hafter
  | none =>
    have hlocal : name ∈ ns.locals := by
      by_contra hlocal
      exact hlow.recorded name (by rw [hname]; exact nofun) hlocal hrecorded
    have hall : ∀ arg ∈ args, LandsValue ns known arg := by
      intro arg harg
      rw [← List.map_snd_zip (hfits hlocal)] at harg
      obtain ⟨pair, hpair, rfl⟩ := List.mem_map.1 harg
      exact hargs pair hpair
    have hbound : name ∈ ns.boundNames := Namespace.mem_boundNames_of_mem_locals hlocal
    refine (lands_forM hlow hall).bind fun _ mid hmid _ => Lands.get (Lands.pure hmid ?_)
    have hbelow := hmid.reference_below hknown name
    rw [hknown.reference_eq, if_pos hbound] at hbelow
    exact hbelow

theorem lands_callName (hknown : known.Proper ns) {name : Name} {args : List Value}
    (hname : known.functionParams.get? name = none)
    (hargs : ∀ arg ∈ args, LandsValue ns known arg) {low : Analysis}
    (hlow : Within ns known low) :
    Lands ns known low (Analyse.call name (Analyse.values args))
      (·.Below (known.reference name)) := by
  have hnone : low.functionParams.get? name = none := by
    cases hparams : low.functionParams.get? name with
    | none => rfl
    | some params =>
      rw [hlow.functions name params hparams] at hname
      cases hname
  refine Lands.get ?_
  rw [hnone]
  exact (lands_forM hlow hargs).bind fun _ mid hmid _ =>
    Lands.get (Lands.pure hmid (hmid.reference_below hknown name))

/-- A steady call of covered code. -/
theorem lands_apply (hknown : known.Proper ns) {type : Ty} {function : Value}
    {args : List Value} {result : Lattice}
    (h : (Expr.apply type function args).Covered known result)
    (hfits : ns.hasParams args function = true)
    (hfunction : function.Covered known → LandsValue ns known function)
    (hbody : ∀ params body, function = .lambda params body →
      ∀ result, body.Covered known result → LandsExpr ns known body result)
    (hargs : ∀ arg ∈ args, arg.Covered known → LandsValue ns known arg) :
    LandsExpr ns known (.apply type function args) result := by
  intro low hlow
  rw [Analyse.expr]
  cases h with
  | applyLambda _ hcovered hpassed hinner =>
    refine Lands.bind (lands_recordArgs hlow (fun pair hpair => ?_) hpassed)
      fun _ mid hmid _ => hbody _ _ rfl _ hinner mid hmid
    exact hargs _ (List.of_mem_zip hpair).2 (hcovered pair hpair)
  | @applyFunction _ _ name params _ hname hcalled hcovered hpassed =>
    refine lands_call hknown hname hcalled (fun pair hpair => ?_) hpassed (fun hlocal => ?_) hlow
    · exact hargs _ (List.of_mem_zip hpair).2 (hcovered pair hpair)
    · rw [Namespace.hasParams, hknown.functions name params hname] at hfits
      simpa [hlocal] using hfits
  | applyName hname hcovered =>
    exact lands_callName hknown hname (fun arg harg => hargs arg harg (hcovered arg harg)) hlow
  | applyValue hother hcalled hcovered =>
    have hall := fun arg harg => hargs arg harg (hcovered arg harg)
    by_cases hlambda : ∃ params body, function = .lambda params body
    · -- Nothing is known about the parameters of a function that escapes.
      obtain ⟨params, body, rfl⟩ := hlambda
      cases hcalled with
      | lambda hparams hinner =>
        refine Lands.bind (lands_recordArgs hlow
          (fun pair hpair => hall _ (List.of_mem_zip hpair).2) fun pair hpair => ?_)
          fun _ mid hmid _ => ?_
        · exact Analysis.holds_of_lookup (hparams _ (List.of_mem_zip hpair).1).2
        · exact (hbody params body rfl _ hinner mid hmid).mono fun value _ =>
            Lattice.below_nonConstant value
    · rw [apply_eq hother fun params body heq => hlambda ⟨params, body, heq⟩]
      refine (lands_forM hlow hall).bind fun _ mid hmid _ => ?_
      exact (hfunction hcalled mid hmid).bind fun _ after hafter _ =>
        Lands.pure hafter (Lattice.Below.refl _)

end Calls

/-! ## Branches and blocks -/

section Branches

variable {ns : Namespace} {known low : Analysis}

/-- A condition about which less is known leaves fewer branches to be taken. -/
theorem lands_conditional (hlow : Within ns known low) {condition high : Lattice}
    (hcondition : condition.Below high) {consequent alternative : Analyse Lattice}
    {result : Lattice}
    (hconsequent : high ≠ .unassigned → high ≠ .constant (.boolean false) →
      ∀ low, Within ns known low → Lands ns known low consequent (·.Below result))
    (halternative : high ≠ .unassigned → high ≠ .constant (.boolean true) →
      ∀ low, Within ns known low → Lands ns known low alternative (·.Below result)) :
    Lands ns known low (Analyse.conditional condition consequent alternative)
      (·.Below result) := by
  have hassigned : condition ≠ .unassigned → high ≠ .unassigned := by
    rintro hne rfl
    rcases hcondition with h | h | h
    · exact hne h
    · exact hne h
    · cases h
  have hother : ∀ value other, value ≠ other →
      condition = .constant (.boolean value) → high ≠ .constant (.boolean other) := by
    rintro value other hne rfl rfl
    rcases hcondition with h | h | h
    · cases h
    · simp_all
    · cases h
  unfold Analyse.conditional
  split
  · exact Lands.pure hlow (Lattice.unassigned_below result)
  · exact hconsequent (hassigned nofun) (hother true false nofun rfl) low hlow
  · exact halternative (hassigned nofun) (hother false true nofun rfl) low hlow
  · rename_i hne htrue hfalse
    have hne : condition ≠ .unassigned := hne
    have hdecided : ∀ value, high ≠ .constant (.boolean value) := by
      rintro value rfl
      rcases hcondition with h | h | h
      · exact hne h
      · cases value
        · exact hfalse h
        · exact htrue h
      · cases h
    refine (hconsequent (hassigned hne) (hdecided false) low hlow).bind
      fun left mid hmid hleft => ?_
    refine (halternative (hassigned hne) (hdecided true) mid hmid).bind
      fun right after hafter hright => ?_
    exact Lands.pure hafter (Lattice.join_below hleft hright)

mutual
theorem lands_pattern {value high : Lattice} (hvalue : value.Below high) :
    ∀ pattern : Pattern, pattern.Covered known high → ∀ low, Within ns known low →
      Lands ns known low (Analyse.pattern value pattern) fun _ => True
  | .id _, h, _, hlow => (lands_record hlow (h.2.mono hvalue)).discard
  | .alias _ inner, h, _, hlow =>
    (lands_record hlow (h.1.2.mono hvalue)).bind fun _ mid hmid _ =>
      lands_pattern hvalue inner h.2 mid hmid
  | .literal _, _, _, hlow => Lands.pure hlow True.intro
  | .constructor _ fields, h, low, hlow => lands_fieldPatterns fields h low hlow
theorem lands_fieldPattern : ∀ field : FieldPattern, field.Covered known →
    ∀ low, Within ns known low → Lands ns known low (Analyse.fieldPattern field) fun _ => True
  | ⟨_, inner⟩, h, low, hlow => lands_pattern (Lattice.Below.refl _) inner h low hlow
theorem lands_fieldPatterns : ∀ fields : List FieldPattern,
    FieldPattern.CoveredList known fields → ∀ low, Within ns known low →
      Lands ns known low (Analyse.fieldPatterns fields) fun _ => True
  | [], _, _, hlow => Lands.pure hlow True.intro
  | field :: rest, h, low, hlow =>
    (lands_fieldPattern field h.1 low hlow).bind fun _ mid hmid _ =>
      lands_fieldPatterns rest h.2 mid hmid
end

/-- Results of cases are joined below what lies above all of them. -/
theorem lands_analyseCases (hlow : Within ns known low) {scrutinee result high : Lattice}
    {cases : List Case} (hresult : result.Below high)
    (hcases : ∀ case ∈ cases, ∀ low, Within ns known low →
      Lands ns known low (analyseCase scrutinee case) (·.Below high)) :
    Lands ns known low (analyseCases scrutinee (Analyse.caseList cases) result)
      (·.Below high) := by
  induction cases generalizing result low with
  | nil => exact Lands.pure hlow hresult
  | cons case rest ih =>
    rw [List.forall_mem_cons] at hcases
    obtain ⟨hmid, hvalue⟩ := hcases.1 low hlow
    rw [Lands, analyseCases_cons]
    exact ih hmid (Lattice.join_below hresult hvalue) hcases.2

theorem lands_cases (hlow : Within ns known low) {scrutinee high result : Lattice}
    (hscrutinee : scrutinee.Below high) {cases : List Case}
    (h : high ≠ .unassigned → ∀ candidate ∈ candidates Case.pattern high cases,
      ∀ low, Within ns known low →
        Lands ns known low (analyseCase scrutinee candidate.1) (·.Below result)) :
    Lands ns known low (Analyse.cases scrutinee (Analyse.caseList cases)) (·.Below result) := by
  rw [cases_eq]
  split
  · exact Lands.pure hlow (Lattice.unassigned_below result)
  · rename_i hassigned
    rw [candidates_caseList]
    refine lands_analyseCases hlow (Lattice.unassigned_below result) fun case hcase => ?_
    obtain ⟨candidate, hcandidate, rfl⟩ := List.mem_map.1 hcase
    obtain ⟨candidate', hmem, heq⟩ := candidates_below hscrutinee hassigned cases hcandidate
    rw [← heq]
    refine h (fun hhigh => hassigned ?_) candidate' hmem
    rw [hhigh] at hscrutinee
    rcases hscrutinee with h | h | h
    · exact h
    · exact h
    · cases h

/-- All passes over a block end below the solution. -/
theorem lands_stabilise (hlow : Within ns known low) {pass : Analyse Lattice}
    {good : Lattice → Prop} (h : ∀ low, Within ns known low → Lands ns known low pass good)
    (fuel : Nat) : Lands ns known low (Analyse.stabilise pass fuel) good := by
  induction fuel generalizing low with
  | zero => exact h low hlow
  | succ fuel ih =>
    have hpass := h low hlow
    rw [Lands, stabilise_succ]
    split
    · exact ih hpass.1
    · exact hpass

theorem lands_binding (hlow : Within ns known low) {binding : Binding} {result : Lattice}
    (hname : known.functionParams.get? binding.name =
      binding.params?.map fun params => params.map Param.name)
    (hinner : LandsExpr ns known binding.inner result)
    (hresult : known.Holds binding.name result) :
    Lands ns known low (Analyse.binding binding) fun _ => True := by
  have hrecord : ∀ low, Within ns known low →
      Lands ns known low (Analyse.recordResult binding.name (Analyse.expr binding.inner))
        fun _ => True := fun low hlow =>
    (hinner low hlow).bind fun value mid hmid hvalue =>
      (lands_record hmid (hresult.mono hvalue)).discard
  rw [Analyse.binding_eq]
  cases hparams : binding.params? with
  | none => exact hrecord low hlow
  | some params =>
    rw [hparams] at hname
    exact Lands.bind (Lands.modify (hlow.withFunction hname)) fun _ mid hmid _ => hrecord mid hmid

theorem lands_bindingList (hlow : Within ns known low) {bindings : List Binding}
    (h : ∀ binding ∈ bindings, ∀ low, Within ns known low →
      Lands ns known low (Analyse.binding binding) fun _ => True) :
    Lands ns known low (Analyse.bindingList bindings) fun _ => True := by
  induction bindings generalizing low with
  | nil => exact Lands.pure hlow True.intro
  | cons binding rest ih =>
    rw [List.forall_mem_cons] at h
    exact (h.1 low hlow).bind fun _ mid hmid _ => ih hmid h.2

end Branches

/-! ## Steady code below a solution -/

/-- Steady code that a solution covers is analysed below it. -/
theorem lands_all {ns : Namespace} {known : Analysis} (hknown : known.Proper ns) :
    (∀ value : Value, value.isSteady ns known = true → value.Covered known →
      LandsValue ns known value) ∧
    ∀ expr : Expr, expr.isSteady ns known = true → ∀ result, expr.Covered known result →
      LandsExpr ns known expr result := by
  refine induct ?_ ?_ ?_ ?_ ?_ ?_ ?_ ?_ ?_ ?_ ?_ ?_
  · exact fun value _ _ low hlow => Lands.pure hlow (Lattice.Below.refl _)
  · exact fun name type _ h => lands_reference hknown h
  · intro params body ih hsteady h low hlow
    cases h with
    | lambda hparams hbody =>
      refine (lands_recordUnknown hlow fun p hp => (hparams p hp).2).bind fun _ mid hmid _ => ?_
      exact (ih hsteady _ hbody mid hmid).bind fun _ _ hafter _ =>
        Lands.pure hafter (Lattice.Below.refl _)
  · intro value ih hsteady h low hlow
    cases h with
    | box hvalue =>
      exact (ih hsteady hvalue low hlow).bind fun _ _ hmid _ =>
        Lands.pure hmid (Lattice.Below.refl _)
  · intro value ih hsteady h low hlow
    cases h with
    | unbox hvalue =>
      exact (ih hsteady hvalue low hlow).bind fun _ _ hmid _ =>
        Lands.pure hmid (Lattice.Below.refl _)
  · intro value ih hsteady result h
    cases h with
    | value hvalue => exact ih hsteady hvalue
  · intro type function args ihFunction ihBody ihArgs hsteady result h
    rw [Expr.isSteady, Bool.and_eq_true, Bool.and_eq_true, Value.isSteadyList_eq,
      List.all_eq_true] at hsteady
    obtain ⟨⟨hfits, hfunction⟩, hargs⟩ := hsteady
    refine lands_apply hknown h hfits (ihFunction hfunction) ?_ fun arg harg =>
      ihArgs arg harg (hargs arg harg)
    rintro params body rfl
    exact ihBody params body rfl hfunction
  · intro op operand ih hsteady result h low hlow
    cases h with
    | unary hoperand =>
      exact (ih hsteady hoperand low hlow).bind fun _ _ hmid hvalue =>
        Lands.pure hmid (Lattice.unary_below hvalue op)
  · intro left op right ihLeft ihRight hsteady result h low hlow
    rw [Expr.isSteady, Bool.and_eq_true, Bool.and_eq_true, Bool.not_eq_true'] at hsteady
    obtain ⟨⟨hwaits, hleftSteady⟩, hrightSteady⟩ := hsteady
    cases h with
    | binary hleft hright =>
      refine (ihLeft hleftSteady hleft low hlow).bind fun _ mid hmid hvalue => ?_
      refine (ihRight hrightSteady hright mid hmid).bind fun _ _ hafter hvalue' => ?_
      exact Lands.pure hafter (Lattice.binary_below hvalue hvalue' hwaits)
  · intro condition consequent alternative ihCondition ihConsequent ihAlternative hsteady
      result h low hlow
    rw [Expr.isSteady, Bool.and_eq_true] at hsteady
    obtain ⟨hgiven, hbranches⟩ := hsteady
    obtain ⟨hcondition, hconsequent, halternative⟩ := h.branches
    have htaken : known.valueOf condition ≠ .unassigned →
        (known.valueOf condition ≠ .constant (.boolean false) →
          consequent.isSteady ns known = true) ∧
        (known.valueOf condition ≠ .constant (.boolean true) →
          alternative.isSteady ns known = true) := by
      intro hassigned
      split at hbranches <;> simp_all
    refine (ihCondition hgiven hcondition low hlow).bind fun value mid hmid hvalue => ?_
    refine lands_conditional hmid hvalue (fun hassigned hother low hlow => ?_)
      fun hassigned hother low hlow => ?_
    · obtain ⟨own, hcovered, hbelow⟩ := hconsequent hassigned hother
      exact (ihConsequent ((htaken hassigned).1 hother) own hcovered low hlow).mono
        fun _ h => h.trans hbelow
    · obtain ⟨own, hcovered, hbelow⟩ := halternative hassigned hother
      exact (ihAlternative ((htaken hassigned).2 hother) own hcovered low hlow).mono
        fun _ h => h.trans hbelow
  · intro scrutinee cases ihScrutinee ihCases hsteady result h low hlow
    rw [Expr.isSteady, Bool.and_eq_true, Bool.or_eq_true, decide_eq_true_iff,
      Case.isSteadyList_eq, List.all_eq_true] at hsteady
    obtain ⟨hgiven, hbodies⟩ := hsteady
    obtain ⟨hscrutinee, hcases⟩ := h.candidates
    refine (ihScrutinee hgiven hscrutinee low hlow).bind fun value mid hmid hvalue => ?_
    refine lands_cases hmid hvalue fun hassigned candidate hcandidate low hlow => ?_
    have hbodySteady := hbodies.resolve_left hassigned candidate hcandidate
    cases hcases hassigned candidate hcandidate with
    | mk hpattern hbody hown =>
      refine (lands_pattern hvalue _ hpattern low hlow).bind fun _ after hafter _ => ?_
      exact (ihCases _ (candidates_subset hcandidate) hbodySteady _ hbody after hafter).mono
        fun _ h => h.trans hown
  · intro bindings result ihBindings ihResult hsteady value h low hlow
    rw [Expr.isSteady, Bool.and_eq_true, Binding.isSteadyList_eq, List.all_eq_true] at hsteady
    cases h with
    | block hbindings hresult =>
      refine Lands.get (lands_stabilise hlow (fun low hlow => ?_) _)
      refine (lands_bindingList hlow fun binding hbinding low hlow => ?_).bind
        fun _ mid hmid _ => ihResult hsteady.2 _ hresult mid hmid
      cases hbindings binding hbinding with
      | mk hname _ hinner hheld =>
        exact lands_binding hlow hname
          (ihBindings binding hbinding (hsteady.1 binding hbinding) _ hinner) hheld

end Lowered

end PolyFront
