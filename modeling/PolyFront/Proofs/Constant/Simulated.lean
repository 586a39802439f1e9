import PolyFront.Proofs.Constant.Related

/-!
# Simulation of original by simplified code

Simplified code simulates original code when it evaluates to related values in related frames.
Then names, operands and calls have related values on both sides too, and what is known about an
operand allows for its value.
-/

namespace PolyFront.Lowered

/-! ## The simplified namespace -/

/-- The namespace after simplification. -/
def Namespace.simplified (ns : Namespace) (known : Analysis) : Namespace :=
  { ns with declarations := ns.declarations.map known.simplifyDeclaration }

section Simplified

variable (ns : Namespace) (known : Analysis)

theorem Namespace.simplified_constructors :
    (ns.simplified known).constructors = ns.constructors := by
  rw [constructors, simplified, List.flatMap_map, constructors]
  refine List.flatMap_congr fun declaration _ => ?_
  cases declaration <;> rfl

theorem Namespace.simplified_definitions :
    (ns.simplified known).definitions =
      ns.definitions.map fun d => { d with body := known.simplifyExpr d.body } := by
  rw [definitions, simplified, List.flatMap_map, definitions, List.map_flatMap]
  refine List.flatMap_congr fun declaration _ => ?_
  cases declaration <;> rfl

variable (outside : Name → Option Datum)

theorem Namespace.simplified_constructor? (name : Name) :
    ((ns.simplified known).program outside).constructor? name =
      (ns.program outside).constructor? name := by
  have hfields : (ns.simplified known).fields? = ns.fields? := by
    funext name
    rw [fields?, simplified_constructors, fields?]
  cases name with
  | constructor name =>
    show Option.map _ ((ns.simplified known).fields? name) = Option.map _ (ns.fields? name)
    rw [hfields]
  | _ => rfl

theorem Namespace.simplified_body? (name : Name) :
    ((ns.simplified known).program outside).body? name =
      ((ns.program outside).body? name).map known.simplifyExpr := by
  show Option.map _ ((ns.simplified known).definitions.find? _) =
    Option.map _ (Option.map _ (ns.definitions.find? _))
  rw [simplified_definitions, List.find?_map, Option.map_map, Option.map_map]
  rfl

end Simplified

/-! ## Simulation -/

/-- Simplified code evaluates to what the original code evaluates to. -/
structure Simulates (ns : Namespace) (known : Analysis) (program' : Program)
    (eval eval' : List Frame → Expr → Option Datum) : Prop where
  code : ∀ {visible : List Name} {frames frames' : List Frame} {expr : Expr} {result : Lattice}
    {datum : Datum}, RelatedFrames ns known visible frames frames' → expr.Fits ns visible →
    Typed ns expr.plainReferences → expr.Covered known result → eval frames expr = some datum →
    result.Allows datum ∧ ∃ datum', eval' frames' (known.simplifyExpr expr) = some datum' ∧
      Related ns known datum datum'
  foreign : ∀ {frames frames' : List Frame} {expr : Expr} {datum : Datum},
    SameFrames ns known frames frames' → eval frames expr = some datum →
    ∃ datum', eval' frames' expr = some datum' ∧ Related ns known datum datum'
  /-- A function evaluates to itself, wherever its calls are. -/
  function : ∀ {frames : List Frame} {params : List Param} {body : Expr} {datum : Datum},
    eval frames (.value (.lambda params body)) = some datum →
    datum = .closure (params.map Param.name) body frames ∧
      ∀ frames' body', eval' frames' (.value (.lambda params body')) =
        some (.closure (params.map Param.name) body' frames')
  /-- A step that is left out is not missed. -/
  more : Extends eval' (program'.step eval')

section Simulation

variable {ns : Namespace} {known : Analysis} {outside : Name → Option Datum}
  {eval eval' : List Frame → Expr → Option Datum}

/-- What a definition evaluates to. -/
theorem Simulates.definition {program' : Program} (h : Simulates ns known program' eval eval')
    (hns : ns.WellFormed) (hsolved : Solved ns known) {d : Definition} (hd : d ∈ ns.definitions)
    {datum : Datum} (hdatum : eval [] d.body = some datum) :
    ∃ datum', eval' [] (known.simplifyExpr d.body) = some datum' ∧
      BoundTo ns known (.binding d.name) datum (some datum') ∧ Related ns known datum datum' := by
  obtain ⟨hname, hparams, result, hinner, hresult⟩ := hsolved.covered d hd
  have hfits := hns.fits hd
  have htyped : Typed ns d.body.plainReferences := hns.typed d hd
  rcases d.body.function_or_plain with ⟨params, body, hbody⟩ | ⟨-, hnone, heq⟩
  · rw [hbody] at hname hparams hfits htyped hinner hdatum ⊢
    obtain ⟨rfl, heval⟩ := h.function hdatum
    have hcode : Code ns known [] (params.map Param.name) body result := by
      refine ⟨fun p hp => (hparams params rfl p hp).1, ?_, htyped, hinner⟩
      rw [List.append_nil]
      exact hfits
    exact ⟨_, heval _ _, .function hname hcode hresult.below .nil,
      .closure hcode (fun p hp => (hparams params rfl p hp).2) .nil⟩
  · rw [hnone] at hname hfits
    rw [heq] at hfits hinner
    obtain ⟨hallows, datum', heval, hrelated⟩ := h.code .nil hfits htyped hinner hdatum
    exact ⟨datum', heval, .plain hname (hallows.below hresult.below).reference hrelated, hrelated⟩

/-- The definition that a name stands for. -/
theorem Namespace.body?_eq_some {name : Name} {body : Expr}
    (h : (ns.program outside).body? name = some body) :
    ∃ d ∈ ns.definitions, name = .binding d.name ∧ body = d.body := by
  obtain ⟨d, hfind, rfl⟩ := Option.map_eq_some_iff.1 h
  have heq : Name.binding d.name = name := by simpa using List.find?_some hfind
  exact ⟨d, List.mem_of_find?_eq_some hfind, heq.symm, rfl⟩

theorem Namespace.fields?_eq_some {name : ConstructorName} {fields : List FieldName}
    (h : ns.fields? name = some fields) :
    ∃ c ∈ ns.constructors, c.name = name ∧ fields = c.fields.map Field.name := by
  obtain ⟨c, hfind, rfl⟩ := Option.map_eq_some_iff.1 h
  refine ⟨c, List.mem_of_find?_eq_some hfind, ?_, rfl⟩
  simpa using List.find?_some hfind

/-- A constructor is what is known about it. -/
theorem Solved.constructor (hsolved : Solved ns known) (hns : ns.WellFormed) {name : Name}
    {datum : Datum} (h : (ns.program outside).constructor? name = some datum) :
    BoundTo ns known name datum (some datum) := by
  cases name with
  | constructor name =>
    obtain ⟨fields, hfields, rfl⟩ := Option.map_eq_some_iff.1 h
    obtain ⟨c, hc, rfl, rfl⟩ := Namespace.fields?_eq_some hfields
    have hparams : ns.params? (.constructor c.name) = none :=
      hns.params?_of_mem (List.mem_append_left _ (List.mem_map_of_mem
        (List.mem_map_of_mem (f := fun c : Constructor => Name.constructor c.name) hc)))
    refine .plain (hsolved.proper.functionParams_eq_none hparams) (Lattice.Allows.reference ?_)
      (Related.refl _)
    rw [hsolved.constructors c hc, Constructor.known, List.isEmpty_map]
    split
    · rfl
    · exact .inr ⟨_, rfl⟩
  | _ => cases h

/-- A name that is neither local nor declared is bound elsewhere. -/
theorem Namespace.not_mem_boundNames {name : Name} (hlocal : name ∉ ns.locals)
    (hconstructor : (ns.program outside).constructor? name = none)
    (hbody : (ns.program outside).body? name = none) : name ∉ ns.boundNames := by
  rw [Namespace.boundNames, List.mem_append, List.mem_append, List.mem_map, List.mem_map]
  rintro (⟨c, hc, rfl⟩ | ⟨d, hd, rfl⟩ | hmem)
  · have hnone := List.find?_eq_none.1 (Option.map_eq_none_iff.1
      (Option.map_eq_none_iff.1 hconstructor)) c hc
    simp at hnone
  · have hnone := List.find?_eq_none.1 (Option.map_eq_none_iff.1 hbody) d hd
    simp at hnone
  · exact hlocal hmem

/-- Names stand for the same on both sides. -/
theorem Simulates.resolve
    (h : Simulates ns known ((ns.simplified known).program outside) eval eval')
    (hns : ns.WellFormed) (hsolved : Solved ns known) {visible : List Name}
    {frames frames' : List Frame} (hframes : RelatedFrames ns known visible frames frames')
    {name : Name} (hname : name ∈ ns.locals → name ∈ visible) {datum : Datum}
    (hdatum : (ns.program outside).resolve eval frames name = some datum) :
    BoundTo ns known name datum
      (((ns.simplified known).program outside).resolve eval' frames' name) := by
  rw [Program.resolve] at hdatum ⊢
  rw [ns.simplified_constructor? known outside, ns.simplified_body? known outside]
  cases hconstructor : (ns.program outside).constructor? name with
  | some found =>
    rw [hconstructor] at hdatum
    obtain rfl := Option.some.inj hdatum
    exact hsolved.constructor hns hconstructor
  | none =>
    rw [hconstructor] at hdatum
    by_cases hvisible : name ∈ visible
    · rcases hframes.boundTo hvisible with hlookup | ⟨found, hlookup, hbound⟩
      · rw [hlookup] at hdatum
        cases hdatum
      · rw [hlookup] at hdatum
        obtain rfl := Option.some.inj hdatum
        cases hlookup' : lookup name frames' with
        | some found =>
          rw [hlookup'] at hbound
          exact hbound
        | none =>
          rw [hlookup'] at hbound
          exact hbound.of_none _
    · obtain ⟨hlookup, hlookup'⟩ := hframes.lookup_of_not_mem hvisible
      rw [hlookup] at hdatum
      rw [hlookup']
      cases hbody : (ns.program outside).body? name with
      | some body =>
        rw [hbody] at hdatum
        obtain ⟨d, hd, rfl, rfl⟩ := Namespace.body?_eq_some hbody
        obtain ⟨datum', heval, hbound, -⟩ := h.definition hns hsolved hd hdatum
        show BoundTo ns known _ datum (eval' [] (known.simplifyExpr d.body))
        rw [heval]
        exact hbound
      | none =>
        rw [hbody] at hdatum
        have hfree := Namespace.not_mem_boundNames (mt hname hvisible) hconstructor hbody
        have houtside : outside name = some datum := hdatum
        show BoundTo ns known name datum (outside name)
        rw [houtside]
        refine .plain (hsolved.proper.functionParams_eq_none (Namespace.params?_of_not_mem hfree))
          ?_ (Related.refl datum)
        rw [hsolved.proper.reference_eq, if_neg hfree]
        exact True.intro

theorem Simulates.resolve_foreign
    (h : Simulates ns known ((ns.simplified known).program outside) eval eval')
    (hns : ns.WellFormed) (hsolved : Solved ns known) {frames frames' : List Frame}
    (hframes : SameFrames ns known frames frames') {name : Name} {datum : Datum}
    (hdatum : (ns.program outside).resolve eval frames name = some datum) :
    ∃ datum', ((ns.simplified known).program outside).resolve eval' frames' name = some datum' ∧
      Related ns known datum datum' := by
  have hlookup := hframes.lookup name
  rw [Program.resolve] at hdatum ⊢
  rw [ns.simplified_constructor? known outside, ns.simplified_body? known outside]
  cases hconstructor : (ns.program outside).constructor? name with
  | some found =>
    rw [hconstructor] at hdatum
    obtain rfl := Option.some.inj hdatum
    exact ⟨found, rfl, Related.refl found⟩
  | none =>
    rw [hconstructor] at hdatum
    generalize lookup name frames = found at hlookup hdatum
    generalize lookup name frames' = found' at hlookup ⊢
    cases hlookup with
    | some hfound =>
      obtain rfl : _ = some datum := hdatum
      cases hfound with
      | some hrelated => exact ⟨_, rfl, hrelated⟩
    | none =>
      cases hbody : (ns.program outside).body? name with
      | some body =>
        rw [hbody] at hdatum
        obtain ⟨d, hd, rfl, rfl⟩ := Namespace.body?_eq_some hbody
        obtain ⟨datum', heval, -, hrelated⟩ := h.definition hns hsolved hd hdatum
        exact ⟨datum', heval, hrelated⟩
      | none =>
        rw [hbody] at hdatum
        exact ⟨datum, hdatum, Related.refl datum⟩

/-! ## Operands -/

/-- A name that stands for a constant can be replaced by it. -/
theorem BoundTo.eq_literal {name : Name} {datum : Datum} {found : Option Datum} {value : Literal}
    (h : BoundTo ns known name datum found) (hname : known.functionParams.get? name = none)
    (hvalue : known.values.get? name = some (.constant value)) : datum = .literal value := by
  cases h with
  | plain _ hallows _ =>
    rw [Analysis.reference, hvalue] at hallows
    exact hallows
  | function hfunction _ _ _ =>
    rw [hname] at hfunction
    cases hfunction
  | dropped _ hvalue' =>
    rw [hvalue] at hvalue'
    exact congrArg Datum.literal (Lattice.constant.inj (Option.some.inj hvalue')).symm

/-- Nothing else can. -/
theorem BoundTo.related {name : Name} {datum : Datum} {found : Option Datum}
    (h : BoundTo ns known name datum found) (hname : known.functionParams.get? name = none)
    (hvalue : ∀ value, known.values.get? name ≠ some (.constant value)) :
    (known.reference name).Allows datum ∧ ∃ datum', found = some datum' ∧
      Related ns known datum datum' := by
  cases h with
  | plain _ hallows hrelated => exact ⟨hallows, _, rfl, hrelated⟩
  | function hfunction _ _ _ =>
    rw [hname] at hfunction
    cases hfunction
  | dropped _ hvalue' => exact (hvalue _ hvalue').elim

theorem simplifyValue_constant {name : Name} {type : Ty} {value : Literal}
    (hvalue : known.values.get? name = some (.constant value)) (htype : type.isFunctional = false) :
    known.simplifyValue (.reference name type) = .literal value := by
  rw [Analysis.simplifyValue, hvalue, htype]
  rfl

theorem simplifyValue_reference {name : Name} {type : Ty}
    (h : ∀ value, known.values.get? name = some (.constant value) → type.isFunctional = true) :
    known.simplifyValue (.reference name type) = .reference name type := by
  rw [Analysis.simplifyValue]
  split
  · rename_i value hvalue
    rw [h value hvalue]
    rfl
  · rfl

/-- A call with a constant result is replaced by the result. -/
theorem simplifyExpr_replaced {type : Ty} {function : Value} {args : List Value} {result : Expr}
    (h : known.constantCall? type function = some result) :
    known.simplifyExpr (.apply type function args) = result := by
  rw [Analysis.simplifyExpr, h]

/-- Any other call is kept. -/
theorem simplifyExpr_kept {type : Ty} {function : Value} {args : List Value}
    (h : known.constantCall? type function = none) :
    known.simplifyExpr (.apply type function args) =
      .apply type (known.simplifyValue function) (known.simplifyValues args) := by
  rw [Analysis.simplifyExpr, h]

/-- The value of a reference, when what its name stands for is known. -/
theorem BoundTo.reference {name : Name} {type : Ty} {datum : Datum} {resolve' : Name → Option Datum}
    (h : BoundTo ns known name datum (resolve' name))
    (hname : type.isFunctional = false → known.functionParams.get? name = none)
    (hcovered : (Value.reference name type).Covered known)
    (hchecked : (type.isFunctional && datum.isPlain) = false) (frames' : List Frame) :
    (known.valueOf (.reference name type)).Allows datum ∧
      ∃ datum', (known.simplifyValue (.reference name type)).eval resolve' frames' = some datum' ∧
        Related ns known datum datum' := by
  cases hcovered with
  | plain htype =>
    replace hname := hname htype
    rw [Analysis.valueOf, htype]
    by_cases hconstant : ∃ value, known.values.get? name = some (.constant value)
    · obtain ⟨value, hvalue⟩ := hconstant
      obtain rfl := h.eq_literal hname hvalue
      rw [simplifyValue_constant hvalue htype, Analysis.reference, hvalue]
      exact ⟨rfl, _, rfl, .literal⟩
    · rw [not_exists] at hconstant
      obtain ⟨hallows, datum', hfound, hrelated⟩ := h.related hname hconstant
      rw [simplifyValue_reference fun value hvalue => (hconstant value hvalue).elim, Value.eval,
        hfound, htype]
      exact ⟨hallows, datum', rfl, hrelated⟩
  | escaping htype hparams =>
    rw [htype, Bool.true_and] at hchecked
    rw [Analysis.valueOf, htype, simplifyValue_reference fun _ _ => htype, Value.eval, htype]
    refine ⟨True.intro, ?_⟩
    generalize resolve' name = found at h ⊢
    cases h with
    | plain _ _ hrelated =>
      rw [Option.bind_some, hrelated.isPlain, hchecked]
      exact ⟨_, rfl, hrelated⟩
    | function hfunction hcode _ hframes =>
      exact ⟨_, rfl, .closure hcode (hparams _ hfunction) hframes⟩
    | dropped _ _ => cases hchecked

theorem Value.Fits.reference {visible : List Name} {name : Name} {type : Ty}
    (h : (Value.reference name type).Fits ns visible) (hlocal : name ∈ ns.locals) :
    name ∈ visible :=
  (Value.references_cases h name hlocal List.mem_cons_self).resolve_right List.not_mem_nil

theorem Code.of_lambda {visible : List Name} {params : List Param} {body : Expr} {result : Lattice}
    (hfits : (Value.lambda params body).Fits ns visible)
    (htyped : Typed ns body.plainReferences)
    (hplain : ∀ p ∈ params.map Param.name, known.functionParams.get? p = none)
    (hbody : body.Covered known result) :
    Code ns known visible (params.map Param.name) body result :=
  ⟨hplain, hfits.lambda.1, htyped, hbody⟩

end Simulation

section Operands

variable {ns : Namespace} {known : Analysis} {outside : Name → Option Datum}
  {eval eval' : List Frame → Expr → Option Datum} (hns : ns.WellFormed) (hsolved : Solved ns known)
  (h : Simulates ns known ((ns.simplified known).program outside) eval eval') {visible : List Name}
  {frames frames' : List Frame} (hframes : RelatedFrames ns known visible frames frames')
include hns hsolved h hframes

/-- Operands have related values, which are allowed by what is known about them. -/
theorem value_related {value : Value} (hfits : value.Fits ns visible)
    (htyped : Typed ns value.plainReferences) (hcovered : value.Covered known) {datum : Datum}
    (hdatum : value.eval ((ns.program outside).resolve eval frames) frames = some datum) :
    (known.valueOf value).Allows datum ∧
      ∃ datum', (known.simplifyValue value).eval
          (((ns.simplified known).program outside).resolve eval' frames') frames' = some datum' ∧
        Related ns known datum datum' := by
  fun_induction value.eval ((ns.program outside).resolve eval frames) frames
    generalizing datum with
  | case1 value =>
    obtain rfl := Option.some.inj hdatum
    exact ⟨rfl, _, rfl, .literal⟩
  | case2 name type =>
    obtain ⟨found, hfound, hrest⟩ := Option.bind_eq_some_iff.1 hdatum
    obtain ⟨hchecked, heq⟩ := Option.ite_none_left_eq_some.1 hrest
    obtain rfl := Option.some.inj heq
    rw [Bool.not_eq_true] at hchecked
    refine (h.resolve hns hsolved hframes hfits.reference hfound).reference (fun htype => ?_)
      hcovered hchecked frames'
    rw [Value.plainReferences, htype] at htyped
    exact hsolved.proper.functionParams_eq_none (htyped name List.mem_cons_self)
  | case3 params body =>
    obtain rfl := Option.some.inj hdatum
    cases hcovered with
    | lambda hparams hbody =>
      exact ⟨True.intro, _, rfl,
        .closure (.of_lambda hfits htyped (fun p hp => (hparams p hp).1) hbody)
        (fun p hp => (hparams p hp).2) hframes⟩
  | case4 value ih =>
    obtain ⟨content, hcontent, rfl⟩ := Option.map_eq_some_iff.1 hdatum
    cases hcovered with
    | box hvalue =>
      obtain ⟨-, content', hcontent', hrelated⟩ := ih hfits htyped hvalue hcontent
      exact ⟨True.intro, _, Option.map_eq_some_iff.2 ⟨content', hcontent', rfl⟩, .boxed hrelated⟩
  | case5 value ih =>
    obtain ⟨boxed, hboxed, hcontent⟩ := Option.bind_eq_some_iff.1 hdatum
    cases hcovered with
    | unbox hvalue =>
      obtain ⟨-, boxed', hboxed', hrelated⟩ := ih hfits htyped hvalue hboxed
      refine ⟨True.intro, ?_⟩
      cases hrelated with
      | boxed hrelated =>
        obtain rfl := Option.some.inj hcontent
        exact ⟨_, Option.bind_eq_some_iff.2 ⟨_, hboxed', rfl⟩, hrelated⟩
      | _ => cases hcontent

theorem args_related {args : List Value} (hfits : Value.FitsList ns visible args)
    (htyped : Typed ns (Value.plainReferencesList args))
    (hcovered : ∀ arg ∈ args, arg.Covered known) {contents : List Datum}
    (hcontents : Value.evalList ((ns.program outside).resolve eval frames) frames args =
      some contents) :
    List.Forall₂ (fun arg datum => (known.valueOf arg).Allows datum) args contents ∧
      ∃ contents', Value.evalList
          (((ns.simplified known).program outside).resolve eval' frames') frames'
          (known.simplifyValues args) = some contents' ∧
        List.Forall₂ (Related ns known) contents contents' := by
  induction args generalizing contents with
  | nil =>
    obtain rfl := Option.some.inj hcontents
    exact ⟨.nil, [], rfl, .nil⟩
  | cons arg rest ih =>
    obtain ⟨hfirst, hothers, -⟩ := hfits.cons
    rw [List.forall_mem_cons] at hcovered
    obtain ⟨datum, hdatum, hrest⟩ := Option.bind_eq_some_iff.1 hcontents
    obtain ⟨others, hevalOthers, rfl⟩ := Option.map_eq_some_iff.1 hrest
    obtain ⟨htypedFirst, htypedRest⟩ := List.forall_mem_append.1 htyped
    obtain ⟨hallows, datum', hdatum', hrelated⟩ :=
      value_related hns hsolved h hframes hfirst htypedFirst hcovered.1 hdatum
    obtain ⟨hallowsOthers, others', hevalOthers', hrelatedOthers⟩ :=
      ih hothers htypedRest hcovered.2 hevalOthers
    refine ⟨.cons hallows hallowsOthers, _, ?_, .cons hrelated hrelatedOthers⟩
    rw [Analysis.simplifyValues, Value.evalList, hdatum', hevalOthers']
    rfl

end Operands

/-! ## Calls -/

section Calls

variable {ns : Namespace} {known : Analysis} {program' : Program}
  {eval eval' : List Frame → Expr → Option Datum}

/-- The body of a function, when its parameters allow for its arguments. -/
theorem Simulates.enter (h : Simulates ns known program' eval eval')
    {visible params : List Name} {body : Expr} {result : Lattice}
    (hcode : Code ns known visible params body result) {frames frames' : List Frame}
    (hframes : RelatedFrames ns known visible frames frames') {args args' : List Datum}
    (hpermits : Permits known params args) (hargs : List.Forall₂ (Related ns known) args args')
    {datum : Datum} (hdatum : (Datum.closure params body frames).call eval args = some datum) :
    result.Allows datum ∧ ∃ datum',
      (Datum.closure params (known.simplifyExpr body) frames').call eval' args' = some datum' ∧
        Related ns known datum datum' := by
  obtain ⟨hlength, hdatum⟩ := Option.ite_none_right_eq_some.1 hdatum
  rw [Datum.call, if_pos (hargs.length_eq.symm.trans hlength)]
  exact h.code (hframes.enter hcode.plain hpermits hargs) hcode.fits hcode.typed
    hcode.covered hdatum

/-- Nothing is known about parameters that can be anything. -/
theorem Permits.of_nonConstant {params : List Name} {args : List Datum}
    (hparams : ∀ p ∈ params, known.lookup p = .nonConstant)
        (hlength : args.length = params.length) :
    Permits known params args := by
  rw [Permits, List.forall₂_iff_zip]
  refine ⟨hlength.symm, fun {p datum} hpair => ?_⟩
  rw [hparams p (List.of_mem_zip hpair).1]
  exact True.intro

/-- Arguments are allowed for by the parameters that they are passed to. -/
theorem Permits.of_passed {params : List Name} {args : List Value} {contents : List Datum}
    (hpassed : ∀ pair ∈ params.zip args, known.Holds pair.1 (known.valueOf pair.2))
    (hargs : List.Forall₂ (fun arg datum => (known.valueOf arg).Allows datum) args contents)
    (hlength : contents.length = params.length) : Permits known params contents := by
  induction hargs generalizing params with
  | nil =>
    obtain rfl := List.length_eq_zero_iff.1 hlength.symm
    exact .nil
  | cons hallows _ ih =>
    cases params with
    | nil => cases hlength
    | cons p rest =>
      rw [List.zip_cons_cons, List.forall_mem_cons] at hpassed
      exact .cons (hallows.below hpassed.1.below) (ih hpassed.2 (Nat.succ.inj hlength))

/-- Related functions have related results for related arguments. -/
theorem Simulates.call (h : Simulates ns known program' eval eval') {callee callee' : Datum}
    (hcallee : Related ns known callee callee') {args args' : List Datum}
    (hargs : List.Forall₂ (Related ns known) args args') {datum : Datum}
    (hdatum : callee.call eval args = some datum) :
    ∃ datum', callee'.call eval' args' = some datum' ∧ Related ns known datum datum' := by
  have hlength := hargs.length_eq
  cases hcallee with
  | literal => cases hdatum
  | boxed _ => cases hdatum
  | @data constructor fields _ _ hcontents =>
    cases fields with
    | cons _ _ => cases hcontents <;> cases hdatum
    | nil =>
      cases hcontents with
      | cons _ _ => cases hdatum
      | nil =>
        obtain ⟨hempty, heq⟩ := Option.ite_none_right_eq_some.1 hdatum
        obtain rfl := Option.some.inj heq
        rw [List.isEmpty_iff] at hempty
        subst hempty
        cases hargs
        exact ⟨_, rfl, Related.refl _⟩
  | maker =>
    obtain ⟨hfields, heq⟩ := Option.ite_none_right_eq_some.1 hdatum
    obtain rfl := Option.some.inj heq
    rw [Datum.call, if_pos (hlength.symm.trans hfields)]
    exact ⟨_, rfl, .data hargs⟩
  | closure hcode hparams hframes =>
    have hcount := (Option.ite_none_right_eq_some.1 hdatum).1
    exact (h.enter hcode hframes (.of_nonConstant hparams hcount) hargs hdatum).2
  | foreign hframes =>
    obtain ⟨hcount, hdatum⟩ := Option.ite_none_right_eq_some.1 hdatum
    rw [Datum.call, if_pos (hlength.symm.trans hcount)]
    exact h.foreign (.cons hargs hframes) hdatum

end Calls

end PolyFront.Lowered
