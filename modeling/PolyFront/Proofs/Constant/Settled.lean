import Mathlib.Data.List.Flatten
import PolyFront.Proofs.Constant.Steps

/-!
# Analyses that settle

The analysis of an expression leaves the expression covered, as long as no function is visible
from around whose parameters it could move afterwards, or else if it changes nothing.  A block is
analysed until a pass changes nothing; there is enough fuel for that, because every pass but the
last uses up some of what the names of the block can move.  Parts that are analysed one after the
other do not disturb each other, because none of them binds a name that another one refers to.
-/

namespace PolyFront.Lowered

/-- Nothing changes, or no function is visible from around. -/
def Calm (ns : Namespace) (visible : List Name) (before after : Analysis) : Prop :=
  after.changes = before.changes ∨ ∀ name ∈ visible, ns.params? name = none

section Calm

variable {ns : Namespace} {visible : List Name} {before mid after : Analysis}

theorem Calm.split {bound called bound' called' : List Name} {calls calls' : Nat}
    (h : Calm ns visible before after) (hmoves : Moves bound called calls before mid)
    (hmoves' : Moves bound' called' calls' mid after) :
    Calm ns visible before mid ∧ Calm ns visible mid after := by
  have hle := hmoves.counted
  have hle' := hmoves'.counted
  rcases h with heq | hnone
  · exact ⟨.inl (by omega), .inl (by omega)⟩
  · exact ⟨.inr hnone, .inr hnone⟩

theorem Calm.under {front : List Name} (h : Calm ns visible before after)
    (hfront : ∀ name ∈ front, ns.params? name = none) : Calm ns
        (front ++ visible) before after := by
  refine h.imp_right fun hnone name hname => ?_
  rcases List.mem_append.1 hname with hname | hname
  · exact hfront name hname
  · exact hnone name hname

end Calm

/-! ## Parts that are analysed one after the other -/

/-- Code that binds some names and refers to others, where the given names are visible. -/
structure Part (ns : Namespace) (visible : List Name) (binders : List (Name × Option (List Name)))
    (references : List Name) : Prop where
  roles : ∀ binder ∈ binders, ns.params? binder.1 = binder.2
  apart : ∀ name ∈ visible, name ∉ binders.map Prod.fst
  locals : ∀ name ∈ binders.map Prod.fst, name ∈ ns.locals
  inScope : ∀ name ∈ ns.locals, name ∈ references →
    name ∈ visible ∨ name ∈ binders.map Prod.fst
  /-- A function has its parameters where it is bound. -/
  closed : ∀ f params p, p ∈ params → (f, some params) ∈ binders → (p, none) ∈ binders

section Part

variable {ns : Namespace} {visible references references' : List Name}
  {binders binders' : List (Name × Option (List Name))}

theorem Value.Fits.part {value : Value} (h : value.Fits ns visible) :
    Part ns visible value.binders value.references :=
  ⟨h.roles, h.apart, h.locals, Value.references_cases h, fun _ _ _ hp => (params_bound hp).1 value⟩

theorem Expr.Fits.part {expr : Expr} (h : expr.Fits ns visible) :
    Part ns visible expr.binders expr.references :=
  ⟨h.roles, h.apart, h.locals, Expr.references_cases h, fun _ _ _ hp => (params_bound hp).2 expr⟩

theorem Part.nil : Part ns visible [] [] :=
  ⟨fun _ h => (List.not_mem_nil h).elim, fun _ _ h => (List.not_mem_nil h).elim,
    fun _ h => (List.not_mem_nil h).elim, fun _ _ h => (List.not_mem_nil h).elim,
    fun _ _ _ _ h => (List.not_mem_nil h).elim⟩

theorem Part.append (h : Part ns visible binders references)
    (h' : Part ns visible binders' references') :
    Part ns visible (binders ++ binders') (references ++ references') where
  roles binder hbinder := by
    rcases List.mem_append.1 hbinder with hmem | hmem
    · exact h.roles binder hmem
    · exact h'.roles binder hmem
  apart name hname hmem := by
    rw [List.map_append, List.mem_append] at hmem
    exact hmem.elim (h.apart name hname) (h'.apart name hname)
  locals name hname := by
    rw [List.map_append, List.mem_append] at hname
    exact hname.elim (h.locals name) (h'.locals name)
  inScope name hlocal hname := by
    rw [List.map_append, List.mem_append]
    rcases List.mem_append.1 hname with hmem | hmem
    · exact (h.inScope name hlocal hmem).imp_right .inl
    · exact (h'.inScope name hlocal hmem).imp_right .inr
  closed f params p hp hmem := by
    rcases List.mem_append.1 hmem with hmem | hmem
    · exact List.mem_append_left _ (h.closed f params p hp hmem)
    · exact List.mem_append_right _ (h'.closed f params p hp hmem)

/-- Names that are bound in front of a part belong to it. -/
theorem Part.front {front : List Name} (h : Part ns (front ++ visible) binders references)
    (hroles : ∀ name ∈ front, ns.params? name = none) (hlocals : ∀ name ∈ front, name ∈ ns.locals)
    (hapart : ∀ name ∈ visible, name ∉ front) :
    Part ns visible (plainBinders front ++ binders) references where
  roles binder hbinder := by
    rcases List.mem_append.1 hbinder with hmem | hmem
    · obtain ⟨name, hname, rfl⟩ := List.mem_map.1 hmem
      exact hroles name hname
    · exact h.roles binder hmem
  apart name hname hmem := by
    rw [List.map_append, map_fst_plainBinders, List.mem_append] at hmem
    exact hmem.elim (hapart name hname) (h.apart name (List.mem_append_right _ hname))
  locals name hname := by
    rw [List.map_append, map_fst_plainBinders, List.mem_append] at hname
    exact hname.elim (hlocals name) (h.locals name)
  inScope name hlocal hname := by
    rw [List.map_append, map_fst_plainBinders, List.mem_append]
    rcases h.inScope name hlocal hname with hmem | hmem
    · exact (List.mem_append.1 hmem).symm.imp_right .inl
    · exact .inr (.inr hmem)
  closed f params p hp hmem := by
    rcases List.mem_append.1 hmem with hmem | hmem
    · exact (not_mem_plainBinders hmem).elim
    · exact List.mem_append_right _ (h.closed f params p hp hmem)

theorem Value.FitsList.part {values : List Value} (h : Value.FitsList ns visible values) :
    Part ns visible (Value.bindersList values) (Value.referencesList values) := by
  induction values with
  | nil => exact Part.nil
  | cons value rest ih => exact h.cons.1.part.append (ih h.cons.2.1)

/-- What one part refers to or binds is not bound in another one. -/
theorem Part.separate (h : Part ns visible binders references)
    (h' : Part ns visible binders' references')
    (hdisjoint : ∀ name ∈ binders.map Prod.fst, name ∉ binders'.map Prod.fst) :
    ∀ name ∈ references ++ binders.map Prod.fst, name ∉ binders'.map Prod.fst := by
  intro name hname hbound
  rcases List.mem_append.1 hname with hname | hname
  · rcases h.inScope name (h'.locals name hbound) hname with hvisible | hown
    · exact h'.apart name hvisible hbound
    · exact hdisjoint name hown hbound
  · exact hdisjoint name hname hbound

/-- A calm analysis of a part leaves alone what is known about all names that the part does not
bind. -/
theorem Part.agree {before after : Analysis} {names : List Name} {calls : Nat}
    (h : Part ns visible binders references) (hbefore : before.Proper ns)
    (hafter : after.Proper ns)
    (hmoves : Moves (binders.map Prod.fst) references calls before after)
    (hcalm : Calm ns visible before after) (hnames : ∀ name ∈ names, name ∉ binders.map Prod.fst) :
    Agree names before after := by
  have hlookup : ∀ name ∈ names, after.lookup name = before.lookup name := by
    intro name hname
    by_cases hsame : after.lookup name = before.lookup name
    · exact hsame
    · rcases hmoves.touched name hsame with hbound | ⟨f, hf, params, hparams, hmem⟩
      · exact (hnames name hname hbound).elim
      · have hfunction := hafter.functions f params hparams
        by_cases hlocal : f ∈ ns.locals
        · rcases h.inScope f hlocal hf with hvisible | hbound
          · rcases hcalm with hstill | hnone
            · rw [hmoves.still hstill]
            · rw [hnone f hvisible] at hfunction
              cases hfunction
          · -- A function of the part has its parameters there.
            obtain ⟨⟨f', role⟩, hbinder, rfl⟩ := List.mem_map.1 hbound
            have hrole := h.roles _ hbinder
            rw [hfunction] at hrole
            have hown := h.closed f' params name hmem (hrole ▸ hbinder)
            exact (hnames name hname (List.mem_map_of_mem (f := Prod.fst) hown)).elim
        · -- Nothing is known about the parameters of a definition.
          obtain ⟨d, hd, -, heq⟩ := Namespace.definition_of_params? hfunction hlocal
          obtain ⟨list, hlist, rfl⟩ := Option.map_eq_some_iff.1 heq
          rw [hafter.top d hd list hlist name hmem, hbefore.top d hd list hlist name hmem]
  refine ⟨hmoves.grows, hlookup, fun name hname => ?_, fun name hname => ?_⟩
  · rw [hafter.reference_eq, hbefore.reference_eq, hlookup name hname]
  · cases hparams : after.functionParams.get? name with
    | some params =>
      rcases hmoves.added name params hparams with hold | hown
      · exact hold.symm
      · exact (hnames name hname hown.1).elim
    | none =>
      cases hold : before.functionParams.get? name with
      | none => rfl
      | some params =>
        rw [hmoves.kept name params hold] at hparams
        cases hparams

theorem Agree.mono {before after : Analysis} {names names' : List Name}
    (h : Agree names before after) (hnames : names' ⊆ names) : Agree names' before after :=
  ⟨h.grows, fun name hname => h.lookup name (hnames hname),
    fun name hname => h.reference name (hnames hname),
    fun name hname => h.functions name (hnames hname)⟩

/-- The fact depends on what is known about some names only. -/
def Depends (names : List Name) (fact : Analysis → Prop) : Prop :=
  ∀ before after, Agree names before after → fact before → fact after

/-- The operand is covered, and so much is known about it. -/
def Value.CoveredAs (value : Value) (known : Lattice) (analysis : Analysis) : Prop :=
  value.Covered analysis ∧ analysis.valueOf value = known

theorem Value.coveredAs_depends (value : Value) (known : Lattice) :
    Depends (value.references ++ value.binders.map Prod.fst) (value.CoveredAs known) := by
  intro before after h hcovered
  have hvalue := h.valueOf (List.subset_append_left _ _)
  rw [Value.map_fst_binders] at h
  exact ⟨(covered_agree h).1 value (List.subset_append_left _ _) (List.subset_append_right _ _)
    hcovered.1, hvalue.trans hcovered.2⟩

theorem Expr.covered_depends (expr : Expr) (result : Lattice) :
    Depends (expr.references ++ expr.binders.map Prod.fst) (expr.Covered · result) := by
  intro before after h
  rw [Expr.map_fst_binders] at h
  exact (covered_agree h).2 expr (List.subset_append_left _ _) (List.subset_append_right _ _) result

/-- A calm analysis of another part does not disturb a fact about a part. -/
theorem Part.keeps {α : Type} {fact : Analysis → Prop}
    (h : Part ns visible binders references) (h' : Part ns visible binders' references')
    (hdisjoint : ∀ name ∈ binders.map Prod.fst, name ∉ binders'.map Prod.fst)
    (hfact : Depends (references ++ binders.map Prod.fst) fact) {mid : Analysis}
    {run : Analyse α} {calls : Nat} {good : α → Prop} (hmid : mid.Proper ns)
    (hend : Ends ns (binders'.map Prod.fst) references' calls mid run good)
    (hcalm : Calm ns visible mid (run mid).2) (hholds : fact mid) : fact (run mid).2 :=
  hfact _ _ (h'.agree hmid hend.proper hend.moves hcalm (h.separate h' hdisjoint)) hholds

end Part

/-! ## Records -/

section Records

variable {ns : Namespace} {names : List Name} {before : Analysis}

/-- Nothing more can be recorded about a name that may be anything. -/
theorem lookup_record_of_nonConstant {name : Name} {value : Lattice} (h : before.Proper ns)
    (hvalue : value.Declared ns) (hname : before.lookup name = .nonConstant) :
    (before.record name value).2.lookup name = before.lookup name := by
  have hbelow := (h.record_eq name hvalue).2.1
  rw [hname, before.record_fst] at hbelow
  rw [hname]
  exact hbelow.eq_nonConstant

/-- A record is about one name only. -/
theorem agree_record {name : Name} {value : Lattice} (h : before.Proper ns)
    (hvalue : value.Declared ns) (hafter : (before.record name value).2.Proper ns)
    (hname : name ∉ names ∨ (before.record name value).2.lookup name = before.lookup name) :
    Agree names before (before.record name value).2 := by
  have hlookup : ∀ other ∈ names,
      (before.record name value).2.lookup other = before.lookup other := by
    intro other hother
    by_cases heq : other = name
    · rw [heq]
      exact hname.resolve_left fun hnot => hnot (heq ▸ hother)
    · exact before.lookup_record_of_ne value heq
  have hmoves : Moves [name] [] 0 before (before.record name value).2 :=
    Moves.record h hvalue (.inl List.mem_cons_self)
  refine ⟨hmoves.grows, hlookup, fun other hother => ?_, fun other _ => ?_⟩
  · rw [hafter.reference_eq, h.reference_eq, hlookup other hother]
  · rcases before.record_cases name value with ⟨known, -, -, heq⟩ | ⟨raised, -, heq⟩
    · rw [heq]
    · rw [heq]
      rfl

end Records

/-! ## Operands -/

/-- The analysis of the value leaves it covered. -/
def SettlesValue (ns : Namespace) (value : Value) : Prop :=
  ∀ visible, value.Fits ns visible → ∀ before, before.Proper ns →
    Calm ns visible before (Analyse.value value before).2 →
      value.CoveredAs (Analyse.value value before).1 (Analyse.value value before).2

/-- The analysis of the expression leaves it covered. -/
def SettlesExpr (ns : Namespace) (expr : Expr) : Prop :=
  ∀ visible, expr.Fits ns visible → ∀ before, before.Proper ns →
    Calm ns visible before (Analyse.expr expr before).2 →
      expr.Covered (Analyse.expr expr before).2 (Analyse.expr expr before).1

section Values

variable {ns : Namespace} {visible : List Name} {before after : Analysis}

theorem lookup_recordUnknown {bound called : List Name} {params : List Name}
    (h : before.Proper ns) (hparams : ∀ p ∈ params, Reaches ns bound called before p) :
    ∀ p ∈ params, (Analyse.recordUnknown params before).2.lookup p = .nonConstant := by
  induction params generalizing before with
  | nil => exact fun _ hp => (List.not_mem_nil hp).elim
  | cons first rest ih =>
    have hrecord : Ends ns bound called 0 before (Analyse.record first .nonConstant) _ :=
      ends_record h (Lattice.declared_nonConstant ns) (hparams first List.mem_cons_self)
    have hrest : ∀ q ∈ rest, Reaches ns bound called (before.record first .nonConstant).2 q :=
      fun q hq => (hparams q (List.mem_cons_of_mem _ hq)).moves hrecord.moves
    have hend : Ends ns bound called 0 _ (Analyse.recordUnknown rest) _ :=
      ends_recordUnknown hrecord.proper hrest
    intro p hp
    rcases List.mem_cons.1 hp with rfl | hp
    · have hfirst := (h.record_eq p (Lattice.declared_nonConstant ns)).2.2.eq_nonConstant
      rw [before.record_fst] at hfirst
      refine Lattice.Below.eq_nonConstant ?_
      rw [← hfirst]
      exact hend.moves.grows.below p
    · exact ih hrecord.proper hrest p hp

theorem settles_reference (hns : ns.WellScoped) (name : Name) (type : Ty) :
    SettlesValue ns (.reference name type) := by
  intro visible h before hbefore _
  rw [Analyse.value, Analyse.reference, Value.CoveredAs, Analysis.valueOf]
  by_cases htype : type.isFunctional = true
  · rw [if_pos htype, if_pos htype]
    have hreach : ∀ p ∈ (before.functionParams.get? name).getD [],
        Reaches ns [] [name] before p := reaches_getD hns hbefore List.mem_cons_self
    have hend : Ends ns [] [name] 0 before (Analyse.recordUnknown _) _ :=
      ends_recordUnknown hbefore hreach
    refine ⟨.escaping htype fun params hparams p hp => ?_, rfl⟩
    rcases hend.moves.added name params hparams with hold | hown
    · refine lookup_recordUnknown hbefore hreach p ?_
      rw [hold]
      exact hp
    · exact (List.not_mem_nil hown.1).elim
  · rw [if_neg htype, if_neg htype]
    exact ⟨.plain (Bool.eq_false_iff.2 htype), rfl⟩

theorem Value.Fits.ends (hns : ns.WellScoped) {value : Value} (h : value.Fits ns visible)
    (hbefore : before.Proper ns) :
    Ends ns (value.binders.map Prod.fst) value.references value.references.length before
      (Analyse.value value) (Lattice.Declared ns) := by
  rw [Value.map_fst_binders]
  exact (does_all hns).1 value visible h before hbefore

theorem Expr.Fits.ends (hns : ns.WellScoped) {expr : Expr} (h : expr.Fits ns visible)
    (hbefore : before.Proper ns) :
    Ends ns (expr.binders.map Prod.fst) expr.references expr.references.length before
      (Analyse.expr expr) (Lattice.Declared ns) := by
  rw [Expr.map_fst_binders]
  exact (does_all hns).2 expr visible h before hbefore

theorem reaches_params {params : List Param} {body : Expr} {called : List Name}
    (h : (Value.lambda params body).Fits ns visible) (before : Analysis) :
    ∀ p ∈ params.map Param.name, Reaches ns (params.map Param.name) called before p := by
  intro p hp
  refine ⟨mem_boundNames_of_fits h ?_, h.lambda.2 p hp, .inl hp⟩
  rw [Value.map_fst_binders]
  exact List.mem_append_left _ hp

theorem settles_lambda (hns : ns.WellScoped) {params : List Param} {body : Expr}
    (hbody : SettlesExpr ns body) : SettlesValue ns (.lambda params body) := by
  intro visible h before hbefore hcalm
  have hreach : ∀ p ∈ params.map Param.name, Reaches ns _ [] before p := reaches_params h before
  have hunknown : Ends ns _ [] 0 before (Analyse.recordUnknown (params.map Param.name)) _ :=
    ends_recordUnknown hbefore hreach
  have hlookup := lookup_recordUnknown hbefore hreach
  have hend := h.lambda.1.ends hns hunknown.proper
  rw [Analyse.value] at hcalm ⊢
  have hinner := hbody _ h.lambda.1 _ hunknown.proper
    ((hcalm.split hunknown.moves hend.moves).2.under h.lambda.2)
  refine ⟨.lambda (fun p hp => ⟨?_, ?_⟩) hinner, rfl⟩
  · exact hend.proper.functionParams_eq_none (h.lambda.2 p hp)
  · exact hend.moves.nonConstant (hlookup p hp)

theorem settles_box {value : Value} (hvalue : SettlesValue ns value) :
    SettlesValue ns (.box value) := by
  intro visible h before hbefore hcalm
  exact ⟨.box (hvalue visible h before hbefore hcalm).1, rfl⟩

theorem settles_unbox {value : Value} (hvalue : SettlesValue ns value) :
    SettlesValue ns (.unbox value) := by
  intro visible h before hbefore hcalm
  exact ⟨.unbox (hvalue visible h before hbefore hcalm).1, rfl⟩

end Values

/-! ## Operators and branches -/

section Branches

variable {ns : Namespace} {visible : List Name} {before : Analysis}

theorem settles_value {value : Value} (hvalue : SettlesValue ns value) :
    SettlesExpr ns (.value value) := by
  intro visible h before hbefore hcalm
  obtain ⟨hcovered, heq⟩ := hvalue visible h before hbefore hcalm
  rw [Analyse.expr, ← heq]
  exact .value hcovered

theorem settles_unary {op : UnaryOp} {operand : Value} (hoperand : SettlesValue ns operand) :
    SettlesExpr ns (.unary op operand) := by
  intro visible h before hbefore hcalm
  obtain ⟨hcovered, heq⟩ := hoperand visible h before hbefore hcalm
  rw [Analyse.expr]
  show Expr.Covered _ _ (Lattice.unary op (Analyse.value operand before).1)
  rw [← heq]
  exact .unary hcovered

theorem settles_binary (hns : ns.WellScoped) {left : Value} {op : BinaryOp} {right : Value}
    (hleft : SettlesValue ns left) (hright : SettlesValue ns right) :
    SettlesExpr ns (.binary left op right) := by
  intro visible h before hbefore hcalm
  obtain ⟨hfits, hfits', hdisjoint⟩ := h.binary
  have hend := hfits.ends hns hbefore
  have hend' := hfits'.ends hns hend.proper
  rw [Analyse.expr] at hcalm ⊢
  obtain ⟨hcalm, hcalm'⟩ := hcalm.split hend.moves hend'.moves
  obtain ⟨hcovered', heq'⟩ := hright visible hfits' _ hend.proper hcalm'
  obtain ⟨hcovered, heq⟩ := hfits.part.keeps hfits'.part hdisjoint (left.coveredAs_depends _)
    hend.proper hend' hcalm' (hleft visible hfits before hbefore hcalm)
  show Expr.Covered _ _ (Lattice.binary (Analyse.value left before).1 op
    (Analyse.value right (Analyse.value left before).2).1)
  rw [← heq', ← heq]
  exact .binary hcovered hcovered'

/-- The branches are analysed after the condition. -/
theorem covered_conditional (hns : ns.WellScoped) {condition : Value}
    {consequent alternative : Expr} (hconsequent : SettlesExpr ns consequent)
    (halternative : SettlesExpr ns alternative) {known : Lattice} {mid : Analysis}
    (h : (Expr.conditional condition consequent alternative).Fits ns visible)
    (hmid : mid.Proper ns) (hcondition : condition.CoveredAs known mid)
    (hcalm : Calm ns visible mid
      (Analyse.conditional known (Analyse.expr consequent) (Analyse.expr alternative) mid).2) :
    (Expr.conditional condition consequent alternative).Covered
      (Analyse.conditional known (Analyse.expr consequent) (Analyse.expr alternative) mid).2
      (Analyse.conditional known (Analyse.expr consequent) (Analyse.expr alternative) mid).1 := by
  obtain ⟨hfits, hfits₁, hfits₂, hdisjoint, hdisjoint'⟩ := h.conditional
  rw [List.map_append] at hdisjoint'
  have hapart : ∀ name ∈ condition.binders.map Prod.fst,
      name ∉ alternative.binders.map Prod.fst := fun name hname =>
    hdisjoint' name (List.mem_append_left _ hname)
  have hend₁ := hfits₁.ends hns hmid
  have hend₂ := hfits₂.ends hns hmid
  unfold Analyse.conditional at hcalm ⊢
  split at hcalm
  · exact .stuck hcondition.2
  · have hkept := hfits.part.keeps hfits₁.part hdisjoint (condition.coveredAs_depends _) hmid hend₁
      hcalm hcondition
    exact .consequent hkept.2 (hconsequent visible hfits₁ mid hmid hcalm)
  · have hkept := hfits.part.keeps hfits₂.part hapart (condition.coveredAs_depends _) hmid hend₂
      hcalm hcondition
    exact .alternative hkept.2 (halternative visible hfits₂ mid hmid hcalm)
  · have hend₂ := hfits₂.ends hns hend₁.proper
    obtain ⟨hcalm₁, hcalm₂⟩ := hcalm.split hend₁.moves hend₂.moves
    have hkept := hfits.part.keeps hfits₁.part hdisjoint (condition.coveredAs_depends _) hmid hend₁
      hcalm₁ hcondition
    have hkept' := hfits.part.keeps hfits₂.part hapart (condition.coveredAs_depends _) hend₁.proper
      hend₂ hcalm₂ hkept
    have hfirst := hfits₁.part.keeps hfits₂.part
      (fun name hname => hdisjoint' name (List.mem_append_right _ hname))
      (consequent.covered_depends _) hend₁.proper hend₂ hcalm₂
      (hconsequent visible hfits₁ mid hmid hcalm₁)
    exact .either hkept'.1 hfirst (Lattice.below_join_left hend₁.good hend₂.good)
      (halternative visible hfits₂ _ hend₁.proper hcalm₂)
      (Lattice.below_join_right hend₁.good hend₂.good)

theorem settles_conditional (hns : ns.WellScoped) {condition : Value}
    {consequent alternative : Expr} (hcondition : SettlesValue ns condition)
    (hconsequent : SettlesExpr ns consequent) (halternative : SettlesExpr ns alternative) :
    SettlesExpr ns (.conditional condition consequent alternative) := by
  intro visible h before hbefore hcalm
  have hend := h.conditional.1.ends hns hbefore
  have hbranches : Ends ns (consequent.boundNames ++ alternative.boundNames)
      (consequent.references ++ alternative.references) _ _ (Analyse.conditional
        (Analyse.value condition before).1 (Analyse.expr consequent)
            (Analyse.expr alternative)) _ :=
    ends_conditional hend.proper _
      (((does_all hns).2 consequent visible h.conditional.2.1).part (List.subset_append_left _ _)
        (List.sublist_append_left _ _))
      (((does_all hns).2 alternative visible h.conditional.2.2.1).part
        (List.subset_append_right _ _) (List.sublist_append_right _ _))
  rw [Analyse.expr] at hcalm ⊢
  obtain ⟨hcalm, hcalm'⟩ := hcalm.split hend.moves hbranches.moves
  exact covered_conditional hns hconsequent halternative h hend.proper
    (hcondition visible h.conditional.1 before hbefore hcalm) hcalm'

end Branches

/-! ## Cases -/

section Cases

variable {ns : Namespace} {visible : List Name}

theorem holds_record {before : Analysis} {value : Lattice} (h : before.Proper ns)
    (hvalue : value.Declared ns) (name : Name) :
    (before.record name value).2.Holds name value := by
  have hbelow := (h.record_eq name hvalue).2.2
  rw [before.record_fst] at hbelow
  obtain ⟨entry, hentry⟩ := Option.ne_none_iff_exists'.1 (before.record_values_ne_none name value)
  rw [Analysis.lookup, hentry] at hbelow
  exact ⟨entry, hentry, hbelow⟩

mutual
/-- The analysis of a pattern leaves it covered. -/
theorem covered_pattern {value : Lattice} (hvalue : value.Declared ns) :
    ∀ (pattern : Pattern) {before : Analysis}, before.Proper ns →
      (∀ name ∈ pattern.boundNames, Reaches ns pattern.boundNames [] before name) →
      pattern.Covered (Analyse.pattern value pattern before).2 value
  | .id name, _, h, hnames => by
    have hreach := hnames name List.mem_cons_self
    have hend : Ends ns _ [] 0 _ (Analyse.record name value) _ := ends_record h hvalue hreach
    exact ⟨hend.proper.functionParams_eq_none hreach.2.1, holds_record h hvalue name⟩
  | .alias name inner, before, h, hnames => by
    have hreach := hnames name List.mem_cons_self
    have hend : Ends ns _ [] 0 before (Analyse.record name value) _ := ends_record h hvalue hreach
    have hrest : ∀ other ∈ inner.boundNames,
        Reaches ns inner.boundNames [] (before.record name value).2 other := fun other hother =>
      ⟨(hnames other (List.mem_cons_of_mem _ hother)).1,
        (hnames other (List.mem_cons_of_mem _ hother)).2.1, .inl hother⟩
    have hinner : Ends ns _ [] 0 _ (Analyse.pattern value inner) _ :=
      ends_pattern hvalue inner hend.proper hrest
    exact ⟨⟨hinner.proper.functionParams_eq_none hreach.2.1,
      (holds_record h hvalue name).grows hinner.moves.grows⟩,
      covered_pattern hvalue inner hend.proper hrest⟩
  | .literal _, _, _, _ => True.intro
  | .constructor _ fields, _, h, hnames => covered_fieldPatterns fields h hnames
theorem covered_fieldPattern :
    ∀ (field : FieldPattern) {before : Analysis}, before.Proper ns →
      (∀ name ∈ field.boundNames, Reaches ns field.boundNames [] before name) →
      field.Covered (Analyse.fieldPattern field before).2
  | ⟨_, inner⟩, _, h, hnames =>
    covered_pattern (Lattice.declared_nonConstant ns) inner h hnames
theorem covered_fieldPatterns :
    ∀ (fields : List FieldPattern) {before : Analysis}, before.Proper ns →
      (∀ name ∈ FieldPattern.boundNamesList fields,
        Reaches ns (FieldPattern.boundNamesList fields) [] before name) →
      FieldPattern.CoveredList (Analyse.fieldPatterns fields before).2 fields
  | [], _, _, _ => True.intro
  | field :: rest, before, h, hnames => by
    have hfirst : ∀ name ∈ field.boundNames, Reaches ns field.boundNames [] before name :=
      fun name hname => ⟨(hnames name (List.mem_append_left _ hname)).1,
        (hnames name (List.mem_append_left _ hname)).2.1, .inl hname⟩
    have hend : Ends ns _ [] 0 _ (Analyse.fieldPattern field) _ := ends_fieldPattern field h hfirst
    have hothers : ∀ name ∈ FieldPattern.boundNamesList rest, Reaches ns
        (FieldPattern.boundNamesList rest) [] (Analyse.fieldPattern field before).2 name :=
      fun name hname => ⟨(hnames name (List.mem_append_right _ hname)).1,
        (hnames name (List.mem_append_right _ hname)).2.1, .inl hname⟩
    have hrest : Ends ns _ [] 0 _ (Analyse.fieldPatterns rest) _ :=
      ends_fieldPatterns rest hend.proper hothers
    refine ⟨?_, covered_fieldPatterns rest hend.proper hothers⟩
    refine FieldPattern.Covered.raised ⟨hrest.moves.grows, fun name hname => ?_⟩ field
      (List.Subset.refl _) (covered_fieldPattern field h hfirst)
    rw [hrest.proper.functionParams_eq_none (hfirst name hname).2.1,
      hend.proper.functionParams_eq_none (hfirst name hname).2.1]
end

theorem Case.Fits.part {case : Case} (h : case.Fits ns visible) :
    Part ns visible case.binders case.references := by
  have hinner := h.body
  obtain ⟨pattern, body⟩ := case
  have hmem : ∀ name ∈ pattern.boundNames, name ∈ (Case.mk pattern body).binders.map Prod.fst := by
    intro name hname
    rw [Case.binders, List.map_append, map_fst_plainBinders]
    exact List.mem_append_left _ hname
  exact hinner.1.part.front hinner.2 (fun name hname => h.locals name (hmem name hname))
    fun name hname hbound => h.apart name hname (hmem name hbound)

theorem Case.FitsList.part {cases : List Case} (h : Case.FitsList ns visible cases) :
    Part ns visible (Case.bindersList cases) (Case.referencesList cases) := by
  induction cases with
  | nil => exact Part.nil
  | cons case rest ih => exact h.cons.1.part.append (ih h.cons.2.1)

theorem Case.map_fst_bindersList (cases : List Case) :
    (Case.bindersList cases).map Prod.fst = Case.boundNamesList cases :=
  Expr.map_fst_binders (.cases (.literal default) cases)

/-- A case is covered as far as its own names tell. -/
theorem Case.covered_depends (case : Case) (scrutinee result : Lattice) :
    Depends (case.references ++ case.binders.map Prod.fst)
      (Case.Covered · scrutinee case result) := by
  intro before after h hcovered
  obtain ⟨pattern, body⟩ := case
  rw [Case.binders, List.map_append, map_fst_plainBinders, Expr.map_fst_binders] at h
  cases hcovered with
  | mk hpattern hbody hown =>
    refine .mk (hpattern.raised ⟨h.grows, h.functions⟩ _ fun name hname => ?_)
      ((covered_agree h).2 body (List.subset_append_left _ _) (fun name hname => ?_) _ hbody) hown
    · exact List.mem_append_right _ (List.mem_append_left _ hname)
    · exact List.mem_append_right _ (List.mem_append_right _ hname)

theorem Case.Covered.mono {known : Analysis} {scrutinee result result' : Lattice} {case : Case}
    (h : case.Covered known scrutinee result) (hresult : result.Below result') :
    case.Covered known scrutinee result' := by
  cases h with
  | mk hpattern hbody hown => exact .mk hpattern hbody (hown.trans hresult)

/-- The analysis of one case. -/
def analyseCase (scrutinee : Lattice) (case : Case) : Analyse Lattice := do
  Analyse.pattern scrutinee case.pattern
  Analyse.expr case.body

theorem ends_analyseCase (hns : ns.WellScoped) {case : Case} (h : case.Fits ns visible)
    {before : Analysis} (hbefore : before.Proper ns) {scrutinee : Lattice}
    (hscrutinee : scrutinee.Declared ns) :
    Ends ns (case.binders.map Prod.fst) case.references case.references.length before
      (analyseCase scrutinee case) (Lattice.Declared ns) := by
  have hinner := h.body
  obtain ⟨pattern, body⟩ := case
  have hmem : ∀ name ∈ pattern.boundNames, name ∈ (Case.mk pattern body).binders.map Prod.fst := by
    intro name hname
    rw [Case.binders, List.map_append, map_fst_plainBinders]
    exact List.mem_append_left _ hname
  refine Ends.bind (ends_pattern hscrutinee pattern hbefore fun name hname => ?_)
    fun _ mid hmid _ _ => ?_
  · exact ⟨mem_boundNames_of_fits h (hmem name hname), hinner.2 name hname, .inl (hmem name hname)⟩
  · refine (hinner.1.ends hns hmid).mono ?_ (List.Subset.refl _) (Nat.le_refl _)
    rw [Case.binders, List.map_append]
    exact List.subset_append_right _ _

theorem covered_analyseCase (hns : ns.WellScoped) {case : Case} (h : case.Fits ns visible)
    (hbody : SettlesExpr ns case.body) {before : Analysis} (hbefore : before.Proper ns)
    {scrutinee : Lattice} (hscrutinee : scrutinee.Declared ns)
    (hcalm : Calm ns visible before (analyseCase scrutinee case before).2) :
    case.Covered (analyseCase scrutinee case before).2 scrutinee
      (analyseCase scrutinee case before).1 := by
  have hnames : ∀ name ∈ case.pattern.boundNames,
      Reaches ns case.pattern.boundNames [] before name := by
    intro name hname
    refine ⟨mem_boundNames_of_fits h ?_, h.body.2 name hname, .inl hname⟩
    obtain ⟨pattern, body⟩ := case
    rw [Case.binders, List.map_append, map_fst_plainBinders]
    exact List.mem_append_left _ hname
  have hend : Ends ns _ [] 0 before (Analyse.pattern scrutinee case.pattern) _ :=
    ends_pattern hscrutinee case.pattern hbefore hnames
  have hend' := h.body.1.ends hns hend.proper
  have hcalm' := ((hcalm.split hend.moves hend'.moves).2).under h.body.2
  refine .mk ?_ (hbody _ h.body.1 _ hend.proper hcalm') (Lattice.Below.refl _)
  refine (covered_pattern hscrutinee case.pattern hbefore hnames).raised
    ⟨hend'.moves.grows, fun name hname => ?_⟩ _ (List.Subset.refl _)
  rw [hend'.proper.functionParams_eq_none (h.body.2 name hname),
    hend.proper.functionParams_eq_none (h.body.2 name hname)]

theorem analyseCases_cons (scrutinee : Lattice) (case : Case) (rest : List Case)
    (result : Lattice) (before : Analysis) :
    analyseCases scrutinee (Analyse.caseList (case :: rest)) result before =
      analyseCases scrutinee (Analyse.caseList rest)
        (result.join (analyseCase scrutinee case before).1)
        (analyseCase scrutinee case before).2 := by
  obtain ⟨pattern, body⟩ := case
  rw [Analyse.caseList, Analyse.caseNode, analyseCases, List.foldlM_cons]
  rfl

/-- The analysis of cases one after the other leaves all of them covered. -/
theorem covered_analyseCases (hns : ns.WellScoped) {scrutinee : Lattice}
    (hscrutinee : scrutinee.Declared ns) {cases : List Case} (h : Case.FitsList ns visible cases)
    (hbodies : ∀ case ∈ cases, SettlesExpr ns case.body) {before : Analysis}
    (hbefore : before.Proper ns) {result : Lattice} (hresult : result.Declared ns)
    (hcalm : Calm ns visible before
      (analyseCases scrutinee (Analyse.caseList cases) result before).2) :
    result.Below (analyseCases scrutinee (Analyse.caseList cases) result before).1 ∧
      ∀ case ∈ cases,
        case.Covered (analyseCases scrutinee (Analyse.caseList cases) result before).2 scrutinee
          (analyseCases scrutinee (Analyse.caseList cases) result before).1 := by
  induction cases generalizing before result with
  | nil => exact ⟨Lattice.Below.refl _, fun _ hcase => (List.not_mem_nil hcase).elim⟩
  | cons case rest ih =>
    obtain ⟨hfits, hothers, hdisjoint⟩ := h.cons
    have hend := ends_analyseCase hns hfits hbefore hscrutinee
    have hjoined := Lattice.declared_join hresult hend.good
    have hrest : Ends ns _ _ _ _ (analyseCases scrutinee (Analyse.caseList rest) _) _ :=
      ends_analyseCases hend.proper hscrutinee hjoined
        (does_caseList hothers fun other ho => (does_all hns).2 _ _ (hothers.mem ho).body.1)
    rw [← Case.map_fst_bindersList] at hrest
    rw [analyseCases_cons] at hcalm ⊢
    obtain ⟨hcalm, hcalm'⟩ := hcalm.split hend.moves hrest.moves
    obtain ⟨hbelow, hcovered⟩ := ih hothers
      (fun other ho => hbodies other (List.mem_cons_of_mem _ ho)) hend.proper hjoined hcalm'
    refine ⟨(Lattice.below_join_left hresult hend.good).trans hbelow, fun other ho => ?_⟩
    rcases List.mem_cons.1 ho with rfl | ho
    · have hfirst := covered_analyseCase hns hfits (hbodies other List.mem_cons_self) hbefore
        hscrutinee hcalm
      refine Case.Covered.mono ?_ ((Lattice.below_join_right hresult hend.good).trans hbelow)
      exact hfits.part.keeps hothers.part hdisjoint (other.covered_depends scrutinee _)
        hend.proper hrest hcalm' hfirst
    · exact hcovered other ho

/-- The candidates among the cases are those among what is analysed for them. -/
theorem candidates_caseList (scrutinee : Lattice) (cases : List Case) :
    (candidates Prod.fst scrutinee (Analyse.caseList cases)).map Prod.fst =
      Analyse.caseList ((candidates Case.pattern scrutinee cases).map Prod.fst) := by
  rw [Analyse.caseList_eq, Analyse.caseList_eq, candidates_map fun _ => rfl, List.map_map,
    List.map_map]
  rfl

theorem sublist_candidates (scrutinee : Lattice) (cases : List Case) :
    ((candidates Case.pattern scrutinee cases).map Prod.fst).Sublist cases := by
  induction cases with
  | nil => exact List.Sublist.refl _
  | cons case rest ih =>
    rw [candidates]
    cases case.pattern.matching scrutinee with
    | never => exact ih.cons _
    | maybe => exact ih.cons_cons _
    | always => exact (List.nil_sublist _).cons_cons _

theorem Case.FitsList.sublist {cases cases' : List Case} (h : Case.FitsList ns visible cases)
    (hsub : cases'.Sublist cases) : Case.FitsList ns visible cases' := by
  have hscoped := h.inScope
  rw [Case.isScopedList_eq, List.all_eq_true] at hscoped
  refine h.same ?_ ?_
  · rw [Case.bindersList_eq, Case.bindersList_eq]
    exact hsub.flatMap _
  · rw [Case.isScopedList_eq, List.all_eq_true]
    exact fun case hcase => hscoped case (hsub.subset hcase)

/-- The cases are analysed after the scrutinee. -/
theorem covered_cases (hns : ns.WellScoped) {scrutinee : Value} {cases : List Case}
    (hbodies : ∀ case ∈ cases, SettlesExpr ns case.body)
    (h : (Expr.cases scrutinee cases).Fits ns visible) {known : Lattice} {mid : Analysis}
    (hmid : mid.Proper ns) (hknown : known.Declared ns) (hscrutinee : scrutinee.CoveredAs known mid)
    (hcalm : Calm ns visible mid (Analyse.cases known (Analyse.caseList cases) mid).2) :
    (Expr.cases scrutinee cases).Covered (Analyse.cases known (Analyse.caseList cases) mid).2
      (Analyse.cases known (Analyse.caseList cases) mid).1 := by
  obtain ⟨hfits, hcases, hdisjoint⟩ := h.cases
  rw [cases_eq] at hcalm ⊢
  by_cases hstuck : known = .unassigned
  · rw [if_pos hstuck]
    exact .unmatched (hscrutinee.2.trans hstuck)
  · rw [if_neg hstuck, candidates_caseList] at hcalm ⊢
    have hsub := sublist_candidates known cases
    have hsome := hcases.sublist hsub
    have hend : Ends ns _ _ _ _ (analyseCases known (Analyse.caseList _) _) _ :=
      ends_analyseCases hmid hknown (Lattice.declared_unassigned ns)
        (does_caseList hsome fun case hcase => (does_all hns).2 _ _ (hsome.mem hcase).body.1)
    rw [← Case.map_fst_bindersList] at hend
    have hapart : ∀ name ∈ scrutinee.binders.map Prod.fst, name ∉ (Case.bindersList
        ((candidates Case.pattern known cases).map Prod.fst)).map Prod.fst := by
      intro name hname hmem
      refine hdisjoint name hname ?_
      rw [Case.map_fst_bindersList, Case.boundNamesList_eq] at hmem ⊢
      obtain ⟨case, hcase, hmem⟩ := List.mem_flatMap.1 hmem
      exact List.mem_flatMap.2 ⟨case, hsub.subset hcase, hmem⟩
    obtain ⟨hcovered, heq⟩ := hfits.part.keeps hsome.part hapart (scrutinee.coveredAs_depends known)
      hmid hend hcalm hscrutinee
    refine .cases hcovered fun candidate hcandidate => ?_
    rw [heq] at hcandidate ⊢
    exact (covered_analyseCases hns hknown hsome
      (fun case hcase => hbodies case (hsub.subset hcase)) hmid (Lattice.declared_unassigned ns)
      hcalm).2 _ (List.mem_map_of_mem (f := Prod.fst) hcandidate)

theorem settles_cases (hns : ns.WellScoped) {scrutinee : Value} {cases : List Case}
    (hscrutinee : SettlesValue ns scrutinee) (hbodies : ∀ case ∈ cases, SettlesExpr ns case.body) :
    SettlesExpr ns (.cases scrutinee cases) := by
  intro visible h before hbefore hcalm
  have hend := h.cases.1.ends hns hbefore
  have hcases : Ends ns _ _ _ _ (Analyse.cases (Analyse.value scrutinee before).1
      (Analyse.caseList cases)) _ :=
    ends_cases hend.proper hend.good (does_caseList h.cases.2.1 fun case hcase =>
      (does_all hns).2 _ _ (h.cases.2.1.mem hcase).body.1)
  rw [Analyse.expr] at hcalm ⊢
  obtain ⟨hcalm, hcalm'⟩ := hcalm.split hend.moves hcases.moves
  exact covered_cases hns hbodies h hend.proper hend.good
    (hscrutinee visible h.cases.1 before hbefore hcalm) hcalm'

end Cases

/-! ## Calls -/

section Calls

variable {ns : Namespace} {visible : List Name} {before : Analysis}

theorem Value.map_fst_bindersList (values : List Value) :
    (Value.bindersList values).map Prod.fst = Value.boundNamesList values :=
  Expr.map_fst_binders (.apply default (.literal default) values)

/-- The names that values refer to or bind. -/
def Value.namesList (values : List Value) : List Name :=
  Value.referencesList values ++ (Value.bindersList values).map Prod.fst

theorem Value.names_subset {values : List Value} {value : Value} (h : value ∈ values) :
    value.references ++ value.binders.map Prod.fst ⊆ Value.namesList values := by
  rw [namesList, Value.map_fst_bindersList, Value.map_fst_binders, Value.referencesList_eq,
    Value.boundNamesList_eq]
  refine List.append_subset.2 ⟨fun name hname => ?_, fun name hname => ?_⟩
  · exact List.mem_append_left _ (List.mem_flatMap.2 ⟨value, h, hname⟩)
  · exact List.mem_append_right _ (List.mem_flatMap.2 ⟨value, h, hname⟩)

theorem Value.namesList_subset (first : Value) (others : List Value) :
    Value.namesList others ⊆ Value.namesList (first :: others) := by
  rw [namesList, namesList, Value.referencesList, Value.bindersList, List.map_append]
  refine List.append_subset.2 ⟨fun name hname => ?_, fun name hname => ?_⟩
  · exact List.mem_append_left _ (List.mem_append_right _ hname)
  · exact List.mem_append_right _ (List.mem_append_right _ hname)

theorem Value.FitsList.does (hns : ns.WellScoped) {args : List Value}
    (h : Value.FitsList ns visible args) :
    ∀ run ∈ Analyse.values args, Does ns ((Value.bindersList args).map Prod.fst)
      (Value.referencesList args) (Value.referencesList args).length run (Lattice.Declared ns) := by
  rw [Value.map_fst_bindersList]
  exact does_values fun arg harg => (does_all hns).1 arg visible (h.mem harg)

/-- Arguments that are only analysed are covered afterwards. -/
theorem covered_forM (hns : ns.WellScoped) {args : List Value}
    (h : Value.FitsList ns visible args) (hargs : ∀ arg ∈ args, SettlesValue ns arg)
    (hbefore : before.Proper ns)
    (hcalm : Calm ns visible before
      ((Analyse.values args).forM (fun arg => do let _ ← arg) before).2) :
    ∀ arg ∈ args, arg.Covered ((Analyse.values args).forM (fun arg =>
        do let _ ← arg) before).2 := by
  induction args generalizing before with
  | nil => exact fun _ harg => (List.not_mem_nil harg).elim
  | cons first rest ih =>
    obtain ⟨hfits, hothers, hdisjoint⟩ := h.cons
    have hend := hfits.ends hns hbefore
    have hrest := ends_forM hend.proper (hothers.does hns)
    obtain ⟨hcalm, hcalm'⟩ := hcalm.split hend.moves hrest.moves
    intro arg harg
    rcases List.mem_cons.1 harg with rfl | harg
    · exact (hfits.part.keeps hothers.part hdisjoint (arg.coveredAs_depends _) hend.proper hrest
        hcalm' (hargs arg List.mem_cons_self visible hfits before hbefore hcalm)).1
    · exact ih hothers (fun other ho => hargs other (List.mem_cons_of_mem _ ho)) hend.proper hcalm'
        arg harg

/-- A name that is no function can be passed to by everything. -/
theorem reaches_self {params : List Name} {bound called : List Name} {analysis : Analysis}
    (h : ∀ p ∈ params, p ∈ ns.boundNames ∧ ns.params? p = none) :
    ∀ p ∈ params, Reaches ns (params ++ bound) called analysis p := fun p hp =>
  ⟨(h p hp).1, (h p hp).2, .inl (List.mem_append_left _ hp)⟩

theorem ends_passed (hns : ns.WellScoped) {params : List Name} {args : List Value}
    (h : Value.FitsList ns visible args)
    (hparams : ∀ p ∈ params, p ∈ ns.boundNames ∧ ns.params? p = none) (hbefore : before.Proper ns) :
    Ends ns (params ++ (Value.bindersList args).map Prod.fst) (Value.referencesList args)
      (Value.referencesList args).length before
      (Analyse.recordArgs params (Analyse.values args)) fun _ => True :=
  ends_recordArgs hbefore (reaches_self hparams) fun run hrun =>
    (h.does hns run hrun).mono (List.subset_append_right _ _) (List.Subset.refl _) (Nat.le_refl _)

theorem recordArgs_cons (p : Name) (rest : List Name) (first : Value) (others : List Value)
    (before : Analysis) :
    Analyse.recordArgs (p :: rest) (Analyse.values (first :: others)) before =
      Analyse.recordArgs rest (Analyse.values others)
        (Analyse.record p (Analyse.value first before).1 (Analyse.value first before).2).2 := rfl

/-- Where no function is visible, arguments that are passed leave other names alone, as long as
these are no parameters about which something is known. -/
theorem agree_recordArgs (hns : ns.WellScoped) (hnone : ∀ name ∈ visible, ns.params? name = none)
    {names params : List Name} {args : List Value} (h : Value.FitsList ns visible args)
    (hparams : ∀ p ∈ params, p ∈ ns.boundNames ∧ ns.params? p = none) (hbefore : before.Proper ns)
    (hnames : ∀ name ∈ names, name ∉ (Value.bindersList args).map Prod.fst)
    (hapart : ∀ p ∈ params, p ∉ names ∨ before.lookup p = .nonConstant) :
    Agree names before (Analyse.recordArgs params (Analyse.values args) before).2 := by
  induction params generalizing before args with
  | nil => exact Agree.refl _ _
  | cons p rest ih =>
    cases args with
    | nil => exact Agree.refl _ _
    | cons first others =>
      obtain ⟨hfits, hothers, -⟩ := h.cons
      rw [Value.bindersList, List.map_append] at hnames
      have hend := hfits.ends hns hbefore
      have hfirst := hfits.part.agree hbefore hend.proper hend.moves (.inr hnone)
        fun name hname hmem => hnames name hname (List.mem_append_left _ hmem)
      have hrecord : Ends ns (p :: rest ++ []) [] 0 _ (Analyse.record p _) _ :=
        ends_record hend.proper hend.good (reaches_self hparams p List.mem_cons_self)
      have hagree : Agree names _ _ := agree_record hend.proper hend.good hrecord.proper
        ((hapart p List.mem_cons_self).imp_right fun hp =>
          lookup_record_of_nonConstant hend.proper hend.good (hend.moves.nonConstant hp))
      refine hfirst.trans (hagree.trans (ih hothers (fun q hq =>
          hparams q (List.mem_cons_of_mem _ hq))
        hrecord.proper (fun name hname hmem => hnames name hname (List.mem_append_right _ hmem))
        fun q hq => ?_))
      exact (hapart q (List.mem_cons_of_mem _ hq)).imp_right fun hq =>
        hrecord.moves.nonConstant (hend.moves.nonConstant hq)

/-- Arguments are covered, and the entries of their parameters allow for them. -/
def Passed (params : List Name) (args : List Value) (known : Analysis) : Prop :=
  ∀ pair ∈ params.zip args, pair.2.Covered known ∧ known.Holds pair.1 (known.valueOf pair.2)

theorem Value.CoveredAs.passed {value : Value} {known : Lattice} {analysis : Analysis} {p : Name}
    (h : value.CoveredAs known analysis) (hholds : analysis.Holds p known) :
    value.Covered analysis ∧ analysis.Holds p (analysis.valueOf value) :=
  ⟨h.1, h.2 ▸ hholds⟩

theorem Passed.agree {params : List Name} {args : List Value} {mid after : Analysis}
    (h : Passed params args mid) (hagree : Agree (Value.namesList args) mid after) :
    Passed params args after := by
  intro pair hpair
  have hkept := pair.2.coveredAs_depends _ mid after
    (hagree.mono (Value.names_subset (List.of_mem_zip hpair).2)) ⟨(h pair hpair).1, rfl⟩
  exact hkept.passed ((h pair hpair).2.grows hagree.grows)

/-- Nothing changes when arguments are passed, or else no function is visible and the parameters
are apart from the names in the arguments or may be anything already. -/
def PassesCalmly (ns : Namespace) (visible params : List Name) (args : List Value)
    (before after : Analysis) : Prop :=
  after.changes = before.changes ∨ (∀ name ∈ visible, ns.params? name = none) ∧
    ∀ p ∈ params, p ∉ Value.namesList args ∨ before.lookup p = .nonConstant

theorem covered_recordArgs (hns : ns.WellScoped) {params : List Name} {args : List Value}
    (h : Value.FitsList ns visible args) (hargs : ∀ arg ∈ args, SettlesValue ns arg)
    (hparams : ∀ p ∈ params, p ∈ ns.boundNames ∧ ns.params? p = none) (hbefore : before.Proper ns)
    (hcalm : PassesCalmly ns visible params args before
      (Analyse.recordArgs params (Analyse.values args) before).2) :
    Passed params args (Analyse.recordArgs params (Analyse.values args) before).2 := by
  induction params generalizing before args with
  | nil => exact fun _ hpair => (List.not_mem_nil hpair).elim
  | cons p rest ih =>
    cases args with
    | nil => exact fun _ hpair => (List.not_mem_nil hpair).elim
    | cons first others =>
      obtain ⟨hfits, hothers, hdisjoint⟩ := h.cons
      have hrestParams : ∀ q ∈ rest, q ∈ ns.boundNames ∧ ns.params? q = none := fun q hq =>
        hparams q (List.mem_cons_of_mem _ hq)
      have hend := hfits.ends hns hbefore
      have hrecord : Ends ns (p :: rest ++ []) [] 0 _ (Analyse.record p _) _ :=
        ends_record hend.proper hend.good (reaches_self hparams p List.mem_cons_self)
      have hrest := ends_passed hns hothers hrestParams hrecord.proper
      have hsettled := hargs first List.mem_cons_self visible hfits before hbefore
      have ih' := ih hothers (fun other ho => hargs other (List.mem_cons_of_mem _ ho)) hrestParams
        hrecord.proper
      have hpassed := (holds_record hend.proper hend.good p).grows hrest.moves.grows
      rw [recordArgs_cons] at hcalm ⊢
      intro pair hpair
      rcases hcalm with hstill | ⟨hnone, hapart⟩
      · -- No step on the way changes anything.
        have hle := hend.moves.counted
        have hle' := hrecord.moves.counted
        have hle'' := hrest.moves.counted
        rcases List.mem_cons.1 hpair with rfl | hpair
        · refine Value.CoveredAs.passed ?_ hpassed
          have hfirst := hsettled (.inl (by omega))
          rw [← hrecord.moves.still (by omega), ← hrest.moves.still (by omega)] at hfirst
          exact hfirst
        · exact ih' (.inl (by omega)) pair hpair
      · have hfirst := hsettled (.inr hnone)
        have hleft : ∀ q ∈ p :: rest, q ∉ first.references ++ first.binders.map Prod.fst ∨
            before.lookup q = .nonConstant := fun q hq => (hapart q hq).imp_left fun hmem hown =>
          hmem (Value.names_subset List.mem_cons_self hown)
        have hright : ∀ q ∈ rest, q ∉ Value.namesList others ∨ before.lookup q = .nonConstant :=
          fun q hq => (hapart q (List.mem_cons_of_mem _ hq)).imp_left fun hmem hown =>
            hmem (Value.namesList_subset first others hown)
        have hraised : ∀ {q}, before.lookup q = .nonConstant →
            (Analyse.record p _ (Analyse.value first before).2).2.lookup q = .nonConstant :=
          fun hq => hrecord.moves.nonConstant (hend.moves.nonConstant hq)
        rcases List.mem_cons.1 hpair with rfl | hpair
        · refine Value.CoveredAs.passed ?_ hpassed
          have hagree := agree_record hend.proper hend.good hrecord.proper
            ((hleft p List.mem_cons_self).imp_right fun hp =>
              lookup_record_of_nonConstant hend.proper hend.good (hend.moves.nonConstant hp))
          have hagree' := agree_recordArgs hns hnone hothers hrestParams hrecord.proper
            (hfits.part.separate hothers.part hdisjoint) fun q hq =>
              (hleft q (List.mem_cons_of_mem _ hq)).imp_right hraised
          exact first.coveredAs_depends _ _ _ (hagree.trans hagree') hfirst
        · exact ih' (.inr ⟨hnone, fun q hq => (hright q hq).imp_right hraised⟩) pair hpair

/-- The worklist says nothing about names. -/
theorem agree_worklist (names : List Name) (analysis : Analysis) (worklist : List Name) :
    Agree names analysis { analysis with worklist := worklist } :=
  ⟨.refl analysis, fun _ _ => rfl, fun _ _ => rfl, fun _ _ => rfl⟩

theorem Value.fits_reference {type functionType : Ty} {name : Name} {args : List Value}
    (h : (Expr.apply type (.reference name functionType) args).Fits ns visible) :
    Part ns visible [] [name] := by
  have hscoped := h.inScope
  rw [Expr.isScoped, Bool.and_eq_true] at hscoped
  refine ⟨fun _ hmem => (List.not_mem_nil hmem).elim, fun _ _ hmem => (List.not_mem_nil hmem).elim,
    fun _ hmem => (List.not_mem_nil hmem).elim, fun other hlocal hother => ?_,
    fun _ _ _ _ hmem => (List.not_mem_nil hmem).elim⟩
  exact ((references_of_isScoped hlocal).1 _ visible hscoped.1 hother).imp_right fun hmem => hmem

/-- A function that is not visible is called with anything. -/
theorem params_of_call (hbefore : before.Proper ns) {type functionType : Ty} {name : Name}
    {args : List Value} (h : (Expr.apply type (.reference name functionType) args).Fits ns visible)
    (hnone : ∀ name ∈ visible, ns.params? name = none) {params : List Name}
    (hparams : before.functionParams.get? name = some params) :
    ∀ p ∈ params, before.lookup p = .nonConstant := by
  have hfunction := hbefore.functions name params hparams
  have hlocal : name ∉ ns.locals := by
    intro hlocal
    rcases (Value.fits_reference h).inScope name hlocal List.mem_cons_self with hvisible | hmem
    · rw [hnone name hvisible] at hfunction
      cases hfunction
    · cases hmem
  obtain ⟨d, hd, -, heq⟩ := Namespace.definition_of_params? hfunction hlocal
  obtain ⟨list, hlist, rfl⟩ := Option.map_eq_some_iff.1 heq
  exact hbefore.top d hd list hlist

theorem call_apply (name : Name) (args : List (Analyse Lattice)) (before : Analysis) :
    Analyse.call name args before =
      (match before.functionParams.get? name with
        | some params => do
          let _ ← Analyse.record name .unassigned
          let before := (← get).changes
          Analyse.recordArgs params args
          modify fun analysis =>
            if before < analysis.changes && analysis.positions.contains name then
              { analysis with worklist := analysis.worklist ++ [name] }
            else analysis
          pure ((← get).lookup name)
        | none => do
          args.forM fun arg => do let _ ← arg
          pure ((← get).reference name) : Analyse Lattice) before :=
  rfl

/-- A call by name passes the arguments, and may put the function on the worklist. -/
theorem call_eq {name : Name} {params : List Name}
    (hparams : before.functionParams.get? name = some params) (args : List (Analyse Lattice)) :
    ∃ worklist, Analyse.call name args before =
      ((Analyse.recordArgs params args (Analyse.record name .unassigned before).2).2.lookup name,
        { (Analyse.recordArgs params args (Analyse.record name .unassigned before).2).2 with
          worklist := worklist }) := by
  rw [call_apply, hparams]
  let mid := (Analyse.record name .unassigned before).2
  let after := (Analyse.recordArgs params args mid).2
  let last := if mid.changes < after.changes && after.positions.contains name then
    { after with worklist := after.worklist ++ [name] } else after
  change ∃ worklist, (last.lookup name, last) = _
  by_cases hpushed : (mid.changes < after.changes && after.positions.contains name) = true
  · rw [show last = _ from if_pos hpushed]
    exact ⟨_, rfl⟩
  · rw [show last = _ from if_neg hpushed]
    exact ⟨after.worklist, rfl⟩

theorem settles_call (hns : ns.WellScoped) {type functionType : Ty} {name : Name}
    {args : List Value} (hargs : ∀ arg ∈ args, SettlesValue ns arg) :
    SettlesExpr ns (.apply type (.reference name functionType) args) := by
  intro visible h before hbefore hcalm
  rw [Analyse.expr, Analyse.apply] at hcalm ⊢
  cases hparams : before.functionParams.get? name with
  | none =>
    have heq : Analyse.call name (Analyse.values args) before =
        (((Analyse.values args).forM (fun arg => do let _ ← arg) before).2.reference name,
          ((Analyse.values args).forM (fun arg => do let _ ← arg) before).2) := by
      rw [call_apply, hparams]
      rfl
    rw [heq] at hcalm ⊢
    have hend := ends_forM hbefore (h.args.does hns)
    have hagree := h.args.part.agree hbefore hend.proper hend.moves hcalm
      ((Value.fits_reference h).separate h.args.part fun _ hmem => (List.not_mem_nil hmem).elim)
    refine .applyName ?_ (covered_forM hns h.args hargs hbefore hcalm)
    exact (hagree.functions name List.mem_cons_self).trans hparams
  | some params =>
    have hfunction := hbefore.functions name params hparams
    have hplain : ∀ p ∈ params, p ∈ ns.boundNames ∧ ns.params? p = none := fun p hp =>
      ⟨Namespace.mem_boundNames_of_mem_locals (Namespace.params_mem_locals hfunction hp),
        hns.params?_param hfunction hp⟩
    have hrecord : Ends ns [] [name] 0 before (Analyse.record name .unassigned) _ :=
      ends_recordFunctionName hbefore List.mem_cons_self hparams
    have hpassed := ends_passed hns h.args hplain hrecord.proper
    obtain ⟨worklist, heq⟩ := call_eq hparams (Analyse.values args)
    rw [heq] at hcalm ⊢
    have hquiet : PassesCalmly ns visible params args (Analyse.record name .unassigned before).2
        (Analyse.recordArgs params (Analyse.values args)
          (Analyse.record name .unassigned before).2).2 := by
      refine hcalm.imp (fun hstill => ?_) fun hnone => ⟨hnone, fun p hp => .inr ?_⟩
      · have hle := hrecord.moves.counted
        have hle' := hpassed.moves.counted
        have hstill : (Analyse.recordArgs params (Analyse.values args)
          (Analyse.record name .unassigned before).2).2.changes = before.changes := hstill
        omega
      · exact hrecord.moves.nonConstant (params_of_call hbefore h hnone hparams p hp)
    have hcovered := covered_recordArgs hns h.args hargs hplain hrecord.proper hquiet
    refine (covered_agree (agree_worklist _ _ worklist)).2 _ (List.subset_append_left _ _)
      (List.subset_append_right _ _) _ ?_
    have hcalled := (holds_record hbefore (Lattice.declared_unassigned ns) name).grows
      hpassed.moves.grows
    exact .applyFunction (hpassed.moves.kept name params (hrecord.moves.kept name params hparams))
      hcalled (fun pair hpair => (hcovered pair hpair).1) fun pair hpair => (hcovered pair hpair).2

theorem settles_applyLambda (hns : ns.WellScoped) {type : Ty} {params : List Param} {body : Expr}
    {args : List Value} (hbody : SettlesExpr ns body) (hargs : ∀ arg ∈ args, SettlesValue ns arg) :
    SettlesExpr ns (.apply type (.lambda params body) args) := by
  intro visible h before hbefore hcalm
  have hfunction := h.function
  have hinner := hfunction.lambda
  have hseparate := h.args.part.separate hfunction.part h.function_args
  rw [Value.binders, List.map_append, map_fst_plainBinders] at hseparate
  have hplain : ∀ p ∈ params.map Param.name, p ∈ ns.boundNames ∧ ns.params? p = none :=
    fun p hp => ⟨Namespace.mem_boundNames_of_mem_locals (hfunction.locals p (by
      rw [Value.binders, List.map_append, map_fst_plainBinders]
      exact List.mem_append_left _ hp)), hinner.2 p hp⟩
  have hpassed := ends_passed hns h.args hplain hbefore
  have hend := hinner.1.ends hns hpassed.proper
  rw [Analyse.expr, Analyse.apply] at hcalm ⊢
  obtain ⟨hcalm, hcalm'⟩ := hcalm.split hpassed.moves hend.moves
  have hcovered := covered_recordArgs hns h.args hargs hplain hbefore (hcalm.imp_right fun hnone =>
    ⟨hnone, fun p hp => .inl fun hmem => hseparate p hmem (List.mem_append_left _ hp)⟩)
  have hagree := hinner.1.part.agree hpassed.proper hend.proper hend.moves (hcalm'.under hinner.2)
    fun name hname hmem => hseparate name hname (List.mem_append_right _ hmem)
  have hkept := hcovered.agree hagree
  exact .applyLambda (fun p hp => hend.proper.functionParams_eq_none (hinner.2 p hp))
    (fun pair hpair => (hkept pair hpair).1) (fun pair hpair => (hkept pair hpair).2)
    (hbody _ hinner.1 _ hpassed.proper (hcalm'.under hinner.2))

/-- What is called is analysed after the arguments. -/
theorem apply_eq {function : Value} (hother : ∀ name type, function ≠ .reference name type)
    (hlambda : ∀ params body, function ≠ .lambda params body) (args : List (Analyse Lattice)) :
    Analyse.apply args function = (do
      args.forM fun arg => do let _ ← arg
      let _ ← Analyse.value function
      pure .nonConstant) := by
  cases function with
  | reference name type => exact (hother name type rfl).elim
  | lambda params body => exact (hlambda params body rfl).elim
  | _ =>
    rw [Analyse.apply, Analyse.value]
    rfl

theorem settles_applyValue (hns : ns.WellScoped) {type : Ty} {function : Value} {args : List Value}
    (hfunction : SettlesValue ns function) (hargs : ∀ arg ∈ args, SettlesValue ns arg)
    (hother : ∀ name type, function ≠ .reference name type)
    (hlambda : ∀ params body, function ≠ .lambda params body) :
    SettlesExpr ns (.apply type function args) := by
  intro visible h before hbefore hcalm
  have hfits := h.function
  have hend := ends_forM hbefore (h.args.does hns)
  have hend' := hfits.ends hns hend.proper
  rw [Analyse.expr, apply_eq hother hlambda] at hcalm ⊢
  obtain ⟨hcalm, hcalm'⟩ := hcalm.split hend.moves hend'.moves
  refine .applyValue hother (hfunction visible hfits _ hend.proper hcalm').1 fun arg harg => ?_
  refine (arg.coveredAs_depends _ _ _ (hfits.part.agree hend.proper hend'.proper hend'.moves hcalm'
    fun name hname => ?_) ⟨covered_forM hns h.args hargs hbefore hcalm arg harg, rfl⟩).1
  exact h.args.part.separate hfits.part h.function_args name (Value.names_subset harg hname)

theorem settles_apply (hns : ns.WellScoped) {type : Ty} {function : Value} {args : List Value}
    (hfunction : SettlesValue ns function)
    (hbody : ∀ params body, function = .lambda params body → SettlesExpr ns body)
    (hargs : ∀ arg ∈ args, SettlesValue ns arg) : SettlesExpr ns (.apply type function args) := by
  cases function with
  | reference name functionType => exact settles_call hns hargs
  | lambda params body => exact settles_applyLambda hns (hbody params body rfl) hargs
  | _ => exact settles_applyValue hns hfunction hargs nofun nofun

end Calls

end PolyFront.Lowered
