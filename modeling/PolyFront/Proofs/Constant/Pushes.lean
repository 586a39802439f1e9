import PolyFront.Proofs.Constant.Scheduled
import PolyFront.Proofs.Constant.Steps

/-!
# What an analysis schedules and what it leaves alone

Only calls by name put names on the worklist, and only names that have a place on record.  What is
merely referred to, as a value or as a function that is handed on, is not scheduled by that.  The
parameters of a function at the top level may be anything from the start, so that a call of it
schedules it only when the analysis of an argument changes something, which takes an argument that
is a function.  The entry of a name at the top level stays as it is: a call of it joins nothing
into it.
-/

namespace PolyFront.Lowered

/-! ## Calls by name -/

/-- The analysis of the value changes nothing: it neither is nor holds a function. -/
def Value.isInert : Value → Bool
  | .literal _ => true
  | .reference _ type => !type.isFunctional
  | .lambda _ _ => false
  | .box value => value.isInert
  | .unbox value => value.isInert

/-- The name of the function that is called, if one of the arguments is not inert. -/
def Value.calledWith (args : List Value) : Value → List Name
  | .reference name _ => if args.all Value.isInert then [] else [name]
  | _ => []

mutual
/-- The names of the functions that are called with functions, in order and with repetitions. -/
def Value.handedTo : Value → List Name
  | .literal _ => []
  | .reference _ _ => []
  | .lambda _ body => body.handedTo
  | .box value => value.handedTo
  | .unbox value => value.handedTo
def Value.handedToList : List Value → List Name
  | [] => []
  | value :: rest => value.handedTo ++ Value.handedToList rest
/-- The names of the functions that are called with functions, in order and with repetitions. -/
def Expr.handedTo : Expr → List Name
  | .value value => value.handedTo
  | .apply _ function args =>
    function.calledWith args ++ function.handedTo ++ Value.handedToList args
  | .unary _ operand => operand.handedTo
  | .binary left _ right => left.handedTo ++ right.handedTo
  | .conditional condition consequent alternative =>
    condition.handedTo ++ consequent.handedTo ++ alternative.handedTo
  | .cases scrutinee cases => scrutinee.handedTo ++ Case.handedToList cases
  | .block bindings result => Binding.handedToList bindings ++ result.handedTo
def Case.handedTo : Case → List Name
  | ⟨_, body⟩ => body.handedTo
def Case.handedToList : List Case → List Name
  | [] => []
  | case :: rest => case.handedTo ++ Case.handedToList rest
def Binding.handedTo : Binding → List Name
  | .assign _ _ body => body.handedTo
  | .join _ _ _ body => body.handedTo
def Binding.handedToList : List Binding → List Name
  | [] => []
  | binding :: rest => binding.handedTo ++ Binding.handedToList rest
end

theorem Value.handedToList_eq (values : List Value) :
    Value.handedToList values = values.flatMap Value.handedTo := by
  induction values with
  | nil => rfl
  | cons value rest ih => rw [Value.handedToList, ih, List.flatMap_cons]

theorem Case.handedToList_eq (cases : List Case) :
    Case.handedToList cases = cases.flatMap Case.handedTo := by
  induction cases with
  | nil => rfl
  | cons case rest ih => rw [Case.handedToList, ih, List.flatMap_cons]

theorem Binding.handedToList_eq (bindings : List Binding) :
    Binding.handedToList bindings = bindings.flatMap Binding.handedTo := by
  induction bindings with
  | nil => rfl
  | cons binding rest ih => rw [Binding.handedToList, ih, List.flatMap_cons]

theorem Expr.inner_handedTo (expr : Expr) : expr.inner.handedTo = expr.handedTo := by
  rcases expr.function_or_plain with ⟨params, body, rfl⟩ | ⟨-, -, hinner⟩
  · rfl
  · rw [hinner]

theorem Binding.inner_handedTo (binding : Binding) : binding.inner.handedTo = binding.handedTo := by
  cases binding with
  | join name type params body => rfl
  | assign name type body => exact body.inner_handedTo

theorem Value.handedTo_subset {values : List Value} {value : Value} (h : value ∈ values) :
    value.handedTo ⊆ Value.handedToList values := by
  rw [Value.handedToList_eq]
  exact (sublist_flatMap_of_mem h).subset

theorem Case.handedTo_subset {cases : List Case} {case : Case} (h : case ∈ cases) :
    case.handedTo ⊆ Case.handedToList cases := by
  rw [Case.handedToList_eq]
  exact (sublist_flatMap_of_mem h).subset

theorem Binding.handedTo_subset {bindings : List Binding} {binding : Binding}
    (h : binding ∈ bindings) : binding.inner.handedTo ⊆ Binding.handedToList bindings := by
  rw [binding.inner_handedTo, Binding.handedToList_eq]
  exact (sublist_flatMap_of_mem h).subset

/-! ## Runs -/

/-- None of the names is at the top level. -/
def BoundInside (tops : QualifiedName → Prop) (names : List Name) : Prop :=
  ∀ top, tops top → .binding top ∉ names

/-- No parameter of a function on record is at the top level, and those of a function at the top
level may be anything. -/
structure Aside (tops : QualifiedName → Prop) (analysis : Analysis) : Prop where
  inside : ∀ f params, analysis.functionParams.get? f = some params → BoundInside tops params
  unknown : ∀ top, tops top → ∀ params, analysis.functionParams.get? (.binding top) = some params →
    ∀ p ∈ params, analysis.values.get? p = some .nonConstant

/-- What was put on the worklist has a place and was called with a function, if it is at the top
level, and the entries of names at the top level are kept. -/
structure Pushes (tops : QualifiedName → Prop) (called : List Name) (before after : Analysis) :
    Prop where
  positions : after.positions = before.positions
  worklist : ∃ extra, after.worklist = before.worklist ++ extra ∧
    ∀ name ∈ extra, before.positions.get? name ≠ none ∧
      ∀ top, tops top → name = .binding top → name ∈ called
  aside : Aside tops after
  entries : ∀ top, tops top → after.lookup (.binding top) = before.lookup (.binding top)

section Pushes

variable {tops : QualifiedName → Prop} {names names' called called' : List Name}
  {before mid after : Analysis}

theorem BoundInside.mono (h : BoundInside tops names) (hnames : names' ⊆ names) :
    BoundInside tops names' :=
  fun top htop hmem => h top htop (hnames hmem)

theorem BoundInside.ne (h : BoundInside tops names) {name : Name} (hname : name ∈ names)
    {top : QualifiedName} (htop : tops top) : .binding top ≠ name :=
  fun heq => h top htop (heq ▸ hname)

theorem Aside.getD (h : Aside tops before) (name : Name) :
    BoundInside tops ((before.functionParams.get? name).getD []) := by
  cases hparams : before.functionParams.get? name with
  | none => exact fun _ _ => List.not_mem_nil
  | some params => exact h.inside name params hparams

theorem nonConstant_of_rises (h : before.Rises after) {name : Name}
    (hname : before.values.get? name = some .nonConstant) :
    after.values.get? name = some .nonConstant := by
  obtain ⟨value, hvalue, hle⟩ := h.up name .nonConstant hname
  rw [hvalue, hle.antisymm (Lattice.below_nonConstant value).atMost]

theorem Aside.rises (h : Aside tops before) (hrises : before.Rises after)
    (hfunctions : after.functionParams = before.functionParams) : Aside tops after where
  inside := by
    rw [hfunctions]
    exact h.inside
  unknown top htop params hparams p hp := by
    rw [hfunctions] at hparams
    exact nonConstant_of_rises hrises (h.unknown top htop params hparams p hp)

theorem Aside.withWorklist (h : Aside tops before) (worklist : List Name) :
    Aside tops { before with worklist := worklist } :=
  ⟨h.inside, h.unknown⟩

/-- Nothing but what is known about other names has changed. -/
theorem Pushes.of_eq (haside : Aside tops before) (hrises : before.Rises after)
    (hpositions : after.positions = before.positions)
    (hworklist : after.worklist = before.worklist)
    (hfunctions : after.functionParams = before.functionParams)
    (hentries : ∀ top, tops top → after.lookup (.binding top) = before.lookup (.binding top)) :
    Pushes tops called before after where
  positions := hpositions
  worklist := ⟨[], by rw [hworklist, List.append_nil], nofun⟩
  aside := haside.rises hrises hfunctions
  entries := hentries

theorem Pushes.refl (haside : Aside tops before) : Pushes tops called before before :=
  .of_eq haside (.of_eq rfl rfl) rfl rfl rfl fun _ _ => rfl

theorem Pushes.trans (h : Pushes tops called before mid) (h' : Pushes tops called mid after) :
    Pushes tops called before after where
  positions := h'.positions.trans h.positions
  worklist := by
    obtain ⟨extra, heq, hextra⟩ := h.worklist
    obtain ⟨extra', heq', hextra'⟩ := h'.worklist
    rw [h.positions] at hextra'
    refine ⟨extra ++ extra', by rw [heq', heq, List.append_assoc], fun name hname => ?_⟩
    exact (List.mem_append.1 hname).elim (hextra name) (hextra' name)
  aside := h'.aside
  entries top htop := (h'.entries top htop).trans (h.entries top htop)

theorem Pushes.mono (h : Pushes tops called before after) (hcalled : called ⊆ called') :
    Pushes tops called' before after where
  positions := h.positions
  worklist := by
    obtain ⟨extra, heq, hextra⟩ := h.worklist
    exact ⟨extra, heq, fun name hname => ⟨(hextra name hname).1, fun top htop heq =>
      hcalled ((hextra name hname).2 top htop heq)⟩⟩
  aside := h.aside
  entries := h.entries

end Pushes

/-- A run that schedules no other names of the top level, and keeps the entries there. -/
def Pushing {α : Type} (tops : QualifiedName → Prop) (called : List Name) (run : Analyse α) :
    Prop :=
  ∀ before, Aside tops before → Pushes tops called before (run before).2

section Rules

variable {α β : Type} {tops : QualifiedName → Prop} {called called' : List Name}

theorem Pushing.pure (a : α) : Pushing tops called (Pure.pure a : Analyse α) :=
  fun _ haside => .refl haside

theorem Pushing.bind {run : Analyse α} {next : α → Analyse β} (hrun : Pushing tops called run)
    (hnext : ∀ a, Pushing tops called (next a)) : Pushing tops called (run >>= next) :=
  fun before haside => (hrun before haside).trans (hnext _ _ (hrun before haside).aside)

theorem Pushing.get {next : Analysis → Analyse β}
    (h : ∀ analysis, Aside tops analysis → Pushing tops called (next analysis)) :
    Pushing tops called (MonadState.get >>= next) :=
  fun before haside => h before haside before haside

/-- A run that goes on with the state that it starts in. -/
theorem Pushes.get {before : Analysis} {next : Analysis → Analyse β}
    (h : Pushes tops called before (next before before).2) :
    Pushes tops called before ((MonadState.get >>= next : Analyse β) before).2 := h

theorem Pushing.mono {run : Analyse α} (h : Pushing tops called run)
    (hcalled : called ⊆ called') : Pushing tops called' run :=
  fun before haside => (h before haside).mono hcalled

/-- A run of which the result is not used. -/
theorem Pushing.discard {run : Analyse α} (h : Pushing tops called run) :
    Pushing tops called (do let _ ← run) :=
  h.bind fun _ => Pushing.pure _

theorem Pushing.forM {items : List α} {f : α → Analyse PUnit}
    (h : ∀ item ∈ items, Pushing tops called (f item)) :
    Pushing tops called (items.forM f) := by
  induction items with
  | nil => exact Pushing.pure _
  | cons item rest ih =>
    refine (h item List.mem_cons_self).bind fun _ => ?_
    exact ih fun other ho => h other (List.mem_cons_of_mem _ ho)

end Rules

section Records

variable {tops : QualifiedName → Prop} {called : List Name}

theorem pushes_record {before : Analysis} (haside : Aside tops before) (name : Name)
    (value : Lattice) (hentries : ∀ top, tops top →
      (before.record name value).2.lookup (.binding top) = before.lookup (.binding top)) :
    Pushes tops called before (Analyse.record name value before).2 := by
  have hrises := before.rises_record name value
  obtain ⟨values, changes, heq⟩ := record_rest before name value
  change Pushes tops called before (before.record name value).2
  rw [heq] at hrises hentries ⊢
  exact .of_eq haside hrises rfl rfl rfl hentries

theorem pushing_record {name : Name} (hname : ∀ top, tops top → .binding top ≠ name)
    (value : Lattice) : Pushing tops called (Analyse.record name value) :=
  fun before haside => pushes_record haside name value fun top htop =>
    before.lookup_record_of_ne value (hname top htop)

/-- Nothing is joined into the entry of a name that is called. -/
theorem pushing_recordCalled (name : Name) :
    Pushing tops called (Analyse.record name .unassigned) := by
  intro before haside
  refine pushes_record haside name .unassigned fun top htop => ?_
  rcases before.record_cases name .unassigned with ⟨known, -, -, heq⟩ | ⟨raised, hraised, heq⟩
  · rw [heq]
  · rw [heq, Analysis.lookup_raise]
    split
    · rename_i hname
      rcases hraised with ⟨hnone, rfl⟩ | ⟨known, -, rfl, hne⟩
      · rw [hname, Analysis.lookup, hnone]
        rfl
      · exact (hne (by cases known <;> rfl)).elim
    · rfl

theorem pushing_recordUnknown {params : List Name} (hparams : BoundInside tops params) :
    Pushing tops called (Analyse.recordUnknown params) :=
  Pushing.forM fun _ hparam =>
    (pushing_record (fun _ htop => hparams.ne hparam htop) .nonConstant).discard

theorem pushing_recordArgs {params : List Name} (hparams : BoundInside tops params)
    {args : List (Analyse Lattice)} (hargs : ∀ arg ∈ args, Pushing tops called arg) :
    Pushing tops called (Analyse.recordArgs params args) := by
  refine Pushing.forM fun pair hpair => ?_
  obtain ⟨param, arg⟩ := pair
  obtain ⟨hparam, harg⟩ := List.of_mem_zip hpair
  exact (hargs arg harg).bind fun value =>
    (pushing_record (fun _ htop => hparams.ne hparam htop) value).discard

theorem pushing_recordFunction {name : Name} (hname : ∀ top, tops top → .binding top ≠ name)
    {params : List Param} (hparams : BoundInside tops (params.map Param.name)) :
    Pushing tops called (Analyse.recordFunction name params) := by
  intro before haside
  show Pushes tops called before (before.withFunction name (params.map Param.name))
  by_cases hnone : before.functionParams.get? name = none
  · have hget := Analysis.get?_withFunction (params.map Param.name) hnone
    refine ⟨rfl, ⟨[], (List.append_nil _).symm, nofun⟩,
      ⟨fun f found hfound => ?_, fun top htop found hfound => ?_⟩, fun _ _ => rfl⟩
    · rw [hget] at hfound
      split at hfound
      · exact Option.some.inj hfound ▸ hparams
      · exact haside.inside f found hfound
    · rw [hget, if_neg (hname top htop)] at hfound
      exact haside.unknown top htop found hfound
  · rw [Analysis.withFunction_of_some hnone]
    exact .refl haside

theorem pushing_recordResult {name : Name} (hname : ∀ top, tops top → .binding top ≠ name)
    {body : Analyse Lattice} (h : Pushing tops called body) :
    Pushing tops called (Analyse.recordResult name body) :=
  h.bind fun value => (pushing_record hname value).discard

/-- The parameters of a function that is referred to are recorded. -/
theorem pushing_reference (name : Name) (type : Ty) :
    Pushing tops called (Analyse.reference name type) := by
  unfold Analyse.reference
  split
  · refine Pushing.get fun analysis haside => ?_
    exact (pushing_recordUnknown (haside.getD name)).bind fun _ => Pushing.pure _
  · exact Pushing.get fun _ _ => Pushing.pure _

/-- A definition is scheduled only when it has a place. -/
theorem pushing_schedule {name : Name}
    (hname : ∀ top, tops top → name = .binding top → name ∈ called) (changes : Nat) :
    Pushing tops called (modify fun analysis : Analysis =>
      if changes < analysis.changes && analysis.positions.contains name then
        { analysis with worklist := analysis.worklist ++ [name] }
      else analysis) := by
  intro before haside
  show Pushes tops called before (if _ then _ else _)
  split
  · rename_i hcontains
    rw [Bool.and_eq_true, Table.contains, Option.isSome_iff_ne_none] at hcontains
    refine ⟨rfl, ⟨[name], rfl, fun other hother => ?_⟩, haside.withWorklist _, fun _ _ => rfl⟩
    rw [List.mem_singleton.1 hother]
    exact ⟨hcontains.2, hname⟩
  · exact .refl haside

theorem pushing_call {name : Name}
    (hname : ∀ top, tops top → name = .binding top → name ∈ called)
    {args : List (Analyse Lattice)} (hargs : ∀ arg ∈ args, Pushing tops called arg) :
    Pushing tops called (Analyse.call name args) := by
  refine Pushing.get fun analysis haside => ?_
  cases hparams : analysis.functionParams.get? name with
  | none =>
    refine (Pushing.forM fun arg harg => (hargs arg harg).discard).bind fun _ => ?_
    exact Pushing.get fun _ _ => Pushing.pure _
  | some params =>
    refine (pushing_recordCalled name).bind fun _ => Pushing.get fun mid _ => ?_
    refine (pushing_recordArgs (haside.inside name params hparams) hargs).bind fun _ => ?_
    refine (pushing_schedule hname mid.changes).bind fun _ => ?_
    exact Pushing.get fun _ _ => Pushing.pure _

/-! ### Calls that change nothing -/

theorem value_of_isInert : ∀ (value : Value) (analysis : Analysis), value.isInert = true →
    (Analyse.value value analysis).2 = analysis
  | .literal _, _, _ => rfl
  | .reference name type, analysis, h => by
    have htype : ¬type.isFunctional = true := by
      rw [Value.isInert, Bool.not_eq_true'] at h
      rw [h]
      exact Bool.false_ne_true
    rw [Analyse.value, Analyse.reference, if_neg htype]
    rfl
  | .lambda _ _, _, h => by cases h
  | .box inner, analysis, h => by
    rw [Analyse.value]
    exact value_of_isInert inner analysis h
  | .unbox inner, analysis, h => by
    rw [Analyse.value]
    exact value_of_isInert inner analysis h

theorem record_of_nonConstant {analysis : Analysis} {name : Name}
    (hname : analysis.values.get? name = some .nonConstant) (value : Lattice) :
    (analysis.record name value).2 = analysis := by
  rcases analysis.record_cases name value with ⟨known, -, -, heq⟩ | ⟨raised, hraised, -⟩
  · rw [heq]
  · rcases hraised with ⟨hnone, -⟩ | ⟨known, hknown, rfl, hne⟩
    · rw [hname] at hnone
      cases hnone
    · rw [hname] at hknown
      obtain rfl := Option.some.inj hknown
      refine (hne ?_).elim
      exact ((Lattice.atMost_join_left _ value).antisymm (Lattice.below_nonConstant _).atMost).symm

/-- Inert arguments leave parameters that may be anything as they are. -/
theorem recordArgs_of_isInert {params : List Name} {args : List Value} {analysis : Analysis}
    (hparams : ∀ p ∈ params, analysis.values.get? p = some .nonConstant)
    (hargs : ∀ arg ∈ args, arg.isInert = true) :
    (Analyse.recordArgs params (Analyse.values args) analysis).2 = analysis := by
  induction params generalizing args with
  | nil => rfl
  | cons p rest ih =>
    cases args with
    | nil => rfl
    | cons arg others =>
      have hvalue := value_of_isInert arg analysis (hargs arg List.mem_cons_self)
      have hfirst : (Analyse.record p (Analyse.value arg analysis).1
          (Analyse.value arg analysis).2).2 = analysis := by
        rw [hvalue]
        exact record_of_nonConstant (hparams p List.mem_cons_self) _
      have hrest := ih (fun q hq => hparams q (List.mem_cons_of_mem _ hq))
        fun other ho => hargs other (List.mem_cons_of_mem _ ho)
      show (Analyse.recordArgs rest (Analyse.values others) (Analyse.record p
        (Analyse.value arg analysis).1 (Analyse.value arg analysis).2).2).2 = analysis
      rw [hfirst]
      exact hrest

/-- A call of a function at the top level with inert arguments schedules nothing. -/
theorem pushing_callInert {top : QualifiedName} (htop : tops top) {args : List Value}
    (hinert : ∀ arg ∈ args, arg.isInert = true)
    (hargs : ∀ run ∈ Analyse.values args, Pushing tops called run) :
    Pushing tops called (Analyse.call (.binding top) (Analyse.values args)) := by
  intro before haside
  refine Pushes.get ?_
  cases hparams : before.functionParams.get? (.binding top) with
  | none =>
    have hall : Pushing tops called (do
        (Analyse.values args).forM fun arg => do let _ ← arg
        pure ((← get).reference (.binding top)) : Analyse Lattice) :=
      (Pushing.forM fun run hrun => (hargs run hrun).discard).bind fun _ =>
        Pushing.get fun _ _ => Pushing.pure _
    exact hall before haside
  | some params =>
    let mid := (Analyse.record (.binding top) .unassigned before).2
    have hmid : Pushes tops called before mid := pushing_recordCalled (.binding top) before haside
    have hfunctions : mid.functionParams.get? (.binding top) = some params := by
      obtain ⟨values, changes, heq⟩ := record_rest before (.binding top) .unassigned
      show (before.record (.binding top) .unassigned).2.functionParams.get? _ = _
      rw [heq]
      exact hparams
    have hstill : (Analyse.recordArgs params (Analyse.values args) mid).2 = mid :=
      recordArgs_of_isInert (hmid.aside.unknown top htop params hfunctions) hinert
    let last := (Analyse.recordArgs params (Analyse.values args) mid).2
    show Pushes tops called before (if decide (mid.changes < last.changes) && _ then _ else last)
    rw [show last = mid from hstill, decide_eq_false (Nat.lt_irrefl _), Bool.false_and]
    exact hmid

end Records

section Branches

variable {tops : QualifiedName → Prop} {called : List Name}

theorem pushing_conditional (condition : Lattice) {consequent alternative : Analyse Lattice}
    (hconsequent : Pushing tops called consequent)
    (halternative : Pushing tops called alternative) :
    Pushing tops called (Analyse.conditional condition consequent alternative) := by
  unfold Analyse.conditional
  split
  · exact Pushing.pure _
  · exact hconsequent
  · exact halternative
  · exact hconsequent.bind fun _ => halternative.bind fun _ => Pushing.pure _

mutual
theorem pushing_pattern (value : Lattice) : ∀ pattern : Pattern,
    BoundInside tops pattern.boundNames → Pushing tops called (Analyse.pattern value pattern)
  | .id _, h => (pushing_record (fun _ htop => h.ne List.mem_cons_self htop) value).discard
  | .alias _ inner, h =>
    (pushing_record (fun _ htop => h.ne List.mem_cons_self htop) value).bind fun _ =>
      pushing_pattern value inner (h.mono (List.subset_cons_self _ _))
  | .literal _, _ => Pushing.pure _
  | .constructor _ fields, h => pushing_fieldPatterns fields h
theorem pushing_fieldPattern : ∀ field : FieldPattern,
    BoundInside tops field.boundNames → Pushing tops called (Analyse.fieldPattern field)
  | ⟨_, inner⟩, h => pushing_pattern .nonConstant inner h
theorem pushing_fieldPatterns : ∀ fields : List FieldPattern,
    BoundInside tops (FieldPattern.boundNamesList fields) →
      Pushing tops called (Analyse.fieldPatterns fields)
  | [], _ => Pushing.pure _
  | field :: rest, h =>
    (pushing_fieldPattern field (h.mono (List.subset_append_left _ _))).bind fun _ =>
      pushing_fieldPatterns rest (h.mono (List.subset_append_right _ _))
end

theorem pushing_cases (scrutinee : Lattice) {cases : List (Pattern × Analyse Lattice)}
    (hcases : ∀ case ∈ cases, BoundInside tops case.1.boundNames ∧ Pushing tops called case.2) :
    Pushing tops called (Analyse.cases scrutinee cases) := by
  have hall : ∀ (taken : List (Pattern × Analyse Lattice)) (result : Lattice),
      (∀ case ∈ taken, case ∈ cases) →
      Pushing tops called (analyseCases scrutinee taken result) := by
    intro taken
    induction taken with
    | nil => exact fun _ _ => Pushing.pure _
    | cons case rest ih =>
      intro result htaken
      obtain ⟨hpattern, hbody⟩ := hcases case (htaken case List.mem_cons_self)
      have hcase : Pushing tops called (do
          Analyse.pattern scrutinee case.1
          pure (result.join (← case.2))) :=
        (pushing_pattern scrutinee case.1 hpattern).bind fun _ =>
          hbody.bind fun _ => Pushing.pure _
      rw [analyseCases, List.foldlM_cons]
      exact hcase.bind fun joined => ih joined fun other ho => htaken other (.tail _ ho)
  rw [cases_eq]
  split
  · exact Pushing.pure _
  · refine hall _ .unassigned fun case hcase => ?_
    obtain ⟨candidate, hmem, rfl⟩ := List.mem_map.1 hcase
    exact candidates_subset hmem

theorem pushing_stabilise {pass : Analyse Lattice} (hpass : Pushing tops called pass)
    (fuel : Nat) : Pushing tops called (Analyse.stabilise pass fuel) := by
  induction fuel with
  | zero => exact hpass
  | succ fuel ih =>
    intro before haside
    have hfirst := hpass before haside
    rw [stabilise_succ]
    split
    · exact hfirst.trans (ih _ hfirst.aside)
    · exact hfirst

theorem pushing_binding {binding : Binding} (hbound : BoundInside tops binding.boundNames)
    (hinner : Pushing tops called (Analyse.expr binding.inner)) :
    Pushing tops called (Analyse.binding binding) := by
  rw [Binding.boundNames_eq] at hbound
  have hresult : Pushing tops called
      (Analyse.recordResult binding.name (Analyse.expr binding.inner)) :=
    pushing_recordResult (fun _ htop => hbound.ne List.mem_cons_self htop) hinner
  rw [Analyse.binding_eq]
  cases hparams : binding.params? with
  | none => exact hresult
  | some params =>
    have hown : BoundInside tops (params.map Param.name) := by
      refine hbound.mono fun p hp => List.mem_cons_of_mem _ (List.mem_append_left _ ?_)
      rw [Binding.paramNames, hparams]
      exact hp
    exact (pushing_recordFunction (fun _ htop => hbound.ne List.mem_cons_self htop) hown).bind
      fun _ => hresult

theorem pushing_bindingList {bindings : List Binding}
    (h : ∀ binding ∈ bindings, Pushing tops called (Analyse.binding binding)) :
    Pushing tops called (Analyse.bindingList bindings) := by
  induction bindings with
  | nil => exact Pushing.pure _
  | cons binding rest ih =>
    rw [Analyse.bindingList]
    refine (h binding List.mem_cons_self).bind fun _ => ?_
    exact ih fun other ho => h other (List.mem_cons_of_mem _ ho)

end Branches

/-! ## Expressions -/

section Expressions

variable {tops : QualifiedName → Prop}

/-- The analysis of a value schedules what the value calls with functions. -/
def PushesValue (tops : QualifiedName → Prop) (value : Value) : Prop :=
  BoundInside tops value.boundNames → Pushing tops value.handedTo (Analyse.value value)

/-- The analysis of an expression schedules what the expression calls with functions. -/
def PushesExpr (tops : QualifiedName → Prop) (expr : Expr) : Prop :=
  BoundInside tops expr.boundNames → Pushing tops expr.handedTo (Analyse.expr expr)

theorem pushing_values {args : List Value} (h : ∀ arg ∈ args, PushesValue tops arg)
    (hbound : BoundInside tops (Value.boundNamesList args)) :
    ∀ run ∈ Analyse.values args, Pushing tops (Value.handedToList args) run := by
  intro run hrun
  rw [Analyse.values_eq] at hrun
  obtain ⟨arg, harg, rfl⟩ := List.mem_map.1 hrun
  refine (h arg harg (hbound.mono ?_)).mono (Value.handedTo_subset harg)
  rw [Value.boundNamesList_eq]
  exact (sublist_flatMap_of_mem harg).subset

theorem pushes_lambda {params : List Param} {body : Expr} (hbody : PushesExpr tops body) :
    PushesValue tops (.lambda params body) := by
  intro hbound
  have hparams : BoundInside tops (params.map Param.name) :=
    hbound.mono (List.subset_append_left _ _)
  rw [Analyse.value]
  refine (pushing_recordUnknown hparams).bind fun _ => ?_
  exact (hbody (hbound.mono (List.subset_append_right _ _))).bind fun _ => Pushing.pure _

/-- A call by name is the only thing that schedules a name.  At the top level, one of its arguments
has to be a function. -/
theorem pushes_apply {type : Ty} {function : Value} {args : List Value}
    (hfunction : PushesValue tops function)
    (hbody : ∀ params body, function = .lambda params body → PushesExpr tops body)
    (hargs : ∀ arg ∈ args, PushesValue tops arg) :
    PushesExpr tops (.apply type function args) := by
  intro hbound
  let called := (Expr.apply type function args).handedTo
  have hinner : function.handedTo ⊆ called := fun _ hname =>
    List.mem_append_left _ (List.mem_append_right _ hname)
  have hruns : ∀ run ∈ Analyse.values args, Pushing tops called run := fun run hrun =>
    (pushing_values hargs (hbound.mono (List.subset_append_right _ _)) run hrun).mono
      (List.subset_append_right _ _)
  have hall : Pushing tops called ((Analyse.values args).forM fun arg => do let _ ← arg) :=
    Pushing.forM fun run hrun => (hruns run hrun).discard
  have hown : BoundInside tops function.boundNames := hbound.mono (List.subset_append_left _ _)
  have hvalue := hfunction hown
  rw [Analyse.expr]
  cases function with
  | reference name ftype =>
    rw [Analyse.apply]
    by_cases hinert : args.all Value.isInert = true
    · by_cases htop : ∃ top, tops top ∧ name = .binding top
      · obtain ⟨top, htop, rfl⟩ := htop
        exact pushing_callInert htop (List.all_eq_true.1 hinert) hruns
      · exact pushing_call (fun top hmem heq => (htop ⟨top, hmem, heq⟩).elim) hruns
    · refine pushing_call (fun _ _ _ => ?_) hruns
      refine List.mem_append_left _ (List.mem_append_left _ ?_)
      rw [Value.calledWith, if_neg hinert]
      exact List.mem_cons_self
  | lambda params body =>
    rw [Analyse.apply]
    refine (pushing_recordArgs (hown.mono (List.subset_append_left _ _)) hruns).bind fun _ => ?_
    exact (hbody params body rfl (hown.mono (List.subset_append_right _ _))).mono hinner
  | literal value =>
    rw [Analyse.apply]
    exact hall.bind fun _ => Pushing.pure _
  | box inner =>
    rw [Analyse.apply]
    rw [Analyse.value] at hvalue
    exact hall.bind fun _ => hvalue.mono hinner
  | unbox inner =>
    rw [Analyse.apply]
    rw [Analyse.value] at hvalue
    exact hall.bind fun _ => hvalue.mono hinner

theorem pushes_cases {scrutinee : Value} {cases : List Case}
    (hscrutinee : PushesValue tops scrutinee)
    (hcases : ∀ case ∈ cases, PushesExpr tops case.body) :
    PushesExpr tops (.cases scrutinee cases) := by
  intro hbound
  rw [Analyse.expr]
  have hfirst := hscrutinee (hbound.mono (List.subset_append_left _ _))
  refine (hfirst.mono (List.subset_append_left _ _)).bind fun value => ?_
  refine pushing_cases value fun pair hpair => ?_
  rw [Analyse.caseList_eq] at hpair
  obtain ⟨case, hcase, rfl⟩ := List.mem_map.1 hpair
  have hcalled : case.handedTo ⊆ (Expr.cases scrutinee cases).handedTo :=
    List.subset_append_of_subset_right _ (Case.handedTo_subset hcase)
  have hown : BoundInside tops case.boundNames := by
    refine hbound.mono (List.subset_append_of_subset_right _ ?_)
    rw [Case.boundNamesList_eq]
    exact (sublist_flatMap_of_mem hcase).subset
  have hbody := hcases case hcase
  obtain ⟨pattern, body⟩ := case
  refine ⟨hown.mono (List.subset_append_left _ _), ?_⟩
  exact (hbody (hown.mono (List.subset_append_right _ _))).mono hcalled

theorem pushes_block {bindings : List Binding} {result : Expr}
    (hbindings : ∀ binding ∈ bindings, PushesExpr tops binding.inner)
    (hresult : PushesExpr tops result) : PushesExpr tops (.block bindings result) := by
  intro hbound
  rw [Analyse.expr]
  refine Pushing.get fun _ _ => pushing_stabilise (Pushing.bind ?_ fun _ => ?_) _
  · refine pushing_bindingList fun binding hbinding => ?_
    have hown : BoundInside tops binding.boundNames := by
      refine hbound.mono (List.subset_append_of_subset_left _ ?_)
      rw [Binding.boundNamesList_eq]
      exact (sublist_flatMap_of_mem hbinding).subset
    have hinner : BoundInside tops binding.inner.boundNames := by
      refine hown.mono ?_
      rw [binding.boundNames_eq]
      exact List.subset_cons_of_subset _ (List.subset_append_right _ _)
    refine pushing_binding hown ((hbindings binding hbinding hinner).mono ?_)
    exact List.subset_append_of_subset_left _ (Binding.handedTo_subset hbinding)
  · exact (hresult (hbound.mono (List.subset_append_right _ _))).mono
      (List.subset_append_right _ _)

/-- Whatever is analysed, the names that it calls with functions are all that is scheduled of the
top level. -/
theorem pushes_all (tops : QualifiedName → Prop) :
    (∀ value, PushesValue tops value) ∧ ∀ expr, PushesExpr tops expr := by
  refine induct ?_ ?_ ?_ ?_ ?_ ?_ ?_ ?_ ?_ ?_ ?_ ?_
  · intro value _
    exact Pushing.pure _
  · intro name type _
    exact pushing_reference name type
  · intro params body ih
    exact pushes_lambda ih
  · intro value ih hbound
    rw [Analyse.value]
    exact (ih hbound).bind fun _ => Pushing.pure _
  · intro value ih hbound
    rw [Analyse.value]
    exact (ih hbound).bind fun _ => Pushing.pure _
  · intro value ih hbound
    rw [Analyse.expr]
    exact ih hbound
  · intro type function args ihFunction ihBody ihArgs
    exact pushes_apply ihFunction ihBody ihArgs
  · intro op operand ih hbound
    rw [Analyse.expr]
    exact (ih hbound).bind fun _ => Pushing.pure _
  · intro left op right ihLeft ihRight hbound
    have hleft := ihLeft (hbound.mono (List.subset_append_left _ _))
    have hright := ihRight (hbound.mono (List.subset_append_right _ _))
    rw [Analyse.expr]
    refine (hleft.mono (List.subset_append_left _ _)).bind fun _ => ?_
    exact (hright.mono (List.subset_append_right _ _)).bind fun _ => Pushing.pure _
  · intro condition consequent alternative ihCondition ihConsequent ihAlternative hbound
    have hfront := hbound.mono (List.subset_append_left _ _)
    have hcondition := ihCondition (hfront.mono (List.subset_append_left _ _))
    have hconsequent := ihConsequent (hfront.mono (List.subset_append_right _ _))
    have halternative := ihAlternative (hbound.mono (List.subset_append_right _ _))
    rw [Analyse.expr]
    refine Pushing.bind (hcondition.mono ?_) fun value =>
      pushing_conditional value (hconsequent.mono ?_)
        (halternative.mono (List.subset_append_right _ _))
    · exact List.subset_append_of_subset_left _ (List.subset_append_left _ _)
    · exact List.subset_append_of_subset_left _ (List.subset_append_right _ _)
  · intro scrutinee cases ihScrutinee ihCases
    exact pushes_cases ihScrutinee ihCases
  · intro bindings result ihBindings ihResult
    exact pushes_block ihBindings ihResult

end Expressions

end PolyFront.Lowered
