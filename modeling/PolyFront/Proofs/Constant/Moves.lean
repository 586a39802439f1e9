import PolyFront.Proofs.Constant.Advances

/-!
# What an analysis may change

An analysis of a part of a namespace moves what is known about the names that the part binds, and
about the parameters of the functions that it refers to.  Functions that it records are bound in
the part.  Every change is counted, so that an analysis without changes leaves everything as it
was, and every definition that is put on the worklist is paid for by a change.
-/

namespace PolyFront

/-- What is known agrees with a namespace. -/
structure Analysis.Proper (ns : Lowered.Namespace) (analysis : Analysis) : Prop where
  functions : ∀ name params, analysis.functionParams.get? name = some params →
    ns.params? name = some params
  /-- A function is recorded before anything is known about it. -/
  assigned : ∀ name, analysis.values.get? name ≠ none → ns.params? name ≠ none →
    analysis.functionParams.get? name ≠ none
  declared : ∀ name value, analysis.values.get? name = some value → value.Declared ns
  named : ∀ name, analysis.values.get? name ≠ none → name ∈ ns.boundNames
  bound : ∀ name, name ∈ analysis.bound ↔ name ∈ ns.boundNames
  /-- A function at the top level can be called with anything. -/
  top : ∀ d ∈ ns.definitions, ∀ params, d.body.params? = some params →
    ∀ p ∈ params.map Lowered.Param.name, analysis.lookup p = .nonConstant

/-- What an analysis that agrees with a namespace does beyond advancing: values grow, nothing else
is touched, and without a change everything is as it was. -/
structure Moves (bound called : List Name) (calls : Nat) (before after : Analysis) : Prop
    extends Advances bound called calls before after where
  grows : before.Grows after
  touched : ∀ name, after.lookup name ≠ before.lookup name →
    name ∈ bound ∨ ∃ f ∈ called, ∃ params, after.functionParams.get? f = some params ∧
      name ∈ params
  still : after.changes = before.changes → after = before

namespace Moves

variable {bound bound' called called' : List Name} {calls calls' : Nat}
  {before mid after : Analysis}

theorem refl (bound called : List Name) (calls : Nat) (analysis : Analysis) :
    Moves bound called calls analysis analysis where
  toAdvances := .refl _ _ _ _
  grows := .refl analysis
  touched _ h := (h rfl).elim
  still _ := rfl

theorem trans (h : Moves bound called calls before mid) (h' : Moves bound called calls mid after) :
    Moves bound called calls before after where
  toAdvances := h.toAdvances.trans h'.toAdvances
  grows := h.grows.trans h'.grows
  touched name hname := by
    by_cases hmid : mid.lookup name = before.lookup name
    · rw [← hmid] at hname
      exact h'.touched name hname
    · rcases h.touched name hmid with hown | ⟨f, hf, params, hparams, hmem⟩
      · exact .inl hown
      · exact .inr ⟨f, hf, params, h'.kept f params hparams, hmem⟩
  still heq := by
    have hle := h.counted
    have hle' := h'.counted
    rw [h'.still (by omega), h.still (by omega)]

theorem mono (h : Moves bound called calls before after) (hbound : bound ⊆ bound')
    (hcalled : called ⊆ called') (hcalls : calls ≤ calls') :
    Moves bound' called' calls' before after where
  toAdvances := h.toAdvances.mono hbound hcalled hcalls
  grows := h.grows
  touched name hname := by
    rcases h.touched name hname with hown | ⟨f, hf, hparams⟩
    · exact .inl (hbound hown)
    · exact .inr ⟨f, hcalled hf, hparams⟩
  still := h.still

theorem nonConstant (h : Moves bound called calls before after) {name : Name}
    (hname : before.lookup name = .nonConstant) : after.lookup name = .nonConstant := by
  have hbelow := h.grows.below name
  rw [hname] at hbelow
  exact hbelow.eq_nonConstant

/-- What two analyses in a row leave unchanged is changed by neither. -/
theorem still_parts (h : Moves bound called calls before mid)
    (h' : Moves bound' called' calls' mid after)
    (heq : after.changes = before.changes) : mid = before ∧ after = mid := by
  have hle := h.counted
  have hle' := h'.counted
  exact ⟨h.still (by omega), h'.still (by omega)⟩

end Moves

/-! ## Records -/

namespace Analysis

variable {ns : Lowered.Namespace} {analysis : Analysis} {name : Name} {value : Lattice}

theorem Proper.lookup_declared (h : analysis.Proper ns) (name : Name) :
    (analysis.lookup name).Declared ns := by
  rw [lookup]
  cases hvalue : analysis.values.get? name with
  | none => exact True.intro
  | some value => exact h.declared name value hvalue

theorem Proper.functionParams_eq_none (h : analysis.Proper ns) {name : Name}
    (hname : ns.params? name = none) : analysis.functionParams.get? name = none := by
  cases hparams : analysis.functionParams.get? name with
  | none => rfl
  | some params =>
    rw [h.functions name params hparams] at hname
    cases hname

/-- What is known where a name is referred to. -/
theorem Proper.reference_eq (h : analysis.Proper ns) (name : Name) :
    analysis.reference name =
      if name ∈ ns.boundNames then analysis.lookup name else .nonConstant := by
  rw [reference, lookup]
  cases hvalue : analysis.values.get? name with
  | some value => rw [if_pos (h.named name (by rw [hvalue]; exact Option.some_ne_none _))]; rfl
  | none =>
    have hiff : analysis.bound.contains name = true ↔ name ∈ ns.boundNames :=
      List.contains_iff_mem.trans (h.bound name)
    by_cases hname : name ∈ ns.boundNames
    · rw [if_pos hname]
      exact if_pos (hiff.2 hname)
    · rw [if_neg hname]
      exact if_neg (mt hiff.1 hname)

theorem Proper.record_eq (h : analysis.Proper ns) (name : Name) (hvalue : value.Declared ns) :
    (analysis.record name value).1.Declared ns ∧
      (analysis.lookup name).Below (analysis.record name value).1 ∧
      value.Below (analysis.record name value).1 := by
  rcases analysis.record_cases name value with ⟨known, hknown, hjoin, heq⟩ | ⟨raised, hraised, heq⟩
  · have hdeclared := h.declared name known hknown
    rw [heq, lookup, hknown]
    refine ⟨hdeclared, Lattice.Below.refl known, ?_⟩
    have hbelow := Lattice.below_join_right hdeclared hvalue
    rw [hjoin] at hbelow
    exact hbelow
  · rw [heq, lookup]
    rcases hraised with ⟨hnone, rfl⟩ | ⟨known, hknown, rfl, -⟩
    · rw [hnone]
      exact ⟨hvalue, Lattice.unassigned_below _, Lattice.Below.refl _⟩
    · have hdeclared := h.declared name known hknown
      rw [hknown]
      exact ⟨Lattice.declared_join hdeclared hvalue, Lattice.below_join_left hdeclared hvalue,
        Lattice.below_join_right hdeclared hvalue⟩

theorem Proper.record (h : analysis.Proper ns) (hvalue : value.Declared ns)
    (hname : name ∈ ns.boundNames)
    (hfunction : ns.params? name ≠ none → analysis.functionParams.get? name ≠ none) :
    (analysis.record name value).2.Proper ns := by
  have hresult := (h.record_eq name hvalue).1
  have hbelow := (h.record_eq name hvalue).2.1
  rcases analysis.record_cases name value with ⟨known, -, -, heq⟩ | ⟨raised, -, heq⟩
  · rw [heq]
    exact h
  · rw [heq] at hresult hbelow ⊢
    refine ⟨h.functions, fun other hother hparams => ?_, fun other known hknown => ?_,
      fun other hother => ?_, h.bound, fun d hd params hparams p hp => ?_⟩
    · by_cases heq : other = name
      · exact heq ▸ hfunction (heq ▸ hparams)
      · rw [get?_raise, if_neg heq] at hother
        exact h.assigned other hother hparams
    · rw [get?_raise] at hknown
      split at hknown
      · obtain rfl := Option.some.inj hknown
        exact hresult
      · exact h.declared other known hknown
    · by_cases heq : other = name
      · exact heq ▸ hname
      · rw [get?_raise, if_neg heq] at hother
        exact h.named other hother
    · have htop := h.top d hd params hparams p hp
      rw [lookup_raise]
      split
      · rename_i heq
        rw [← heq, htop] at hbelow
        exact hbelow.eq_nonConstant
      · exact htop

end Analysis

theorem Moves.record {ns : Lowered.Namespace} {analysis : Analysis} {name : Name} {value : Lattice}
    {bound called : List Name} {calls : Nat} (h : analysis.Proper ns) (hvalue : value.Declared ns)
    (hname : name ∈ bound ∨ ∃ f ∈ called, ∃ params,
      analysis.functionParams.get? f = some params ∧
        (name ∈ params ∨ name = f ∧ value = .unassigned)) :
    Moves bound called calls analysis (analysis.record name value).2 := by
  have hadvances : Advances bound called calls analysis (analysis.record name value).2 := by
    refine .record (hname.imp_right ?_) value
    rintro ⟨f, hf, params, hparams, hmem⟩
    exact ⟨f, hf, params, hparams, hmem.imp_right And.left⟩
  have hbelow := (h.record_eq name hvalue).2.1
  rcases analysis.record_cases name value with ⟨known, -, -, heq⟩ | ⟨raised, hraised, heq⟩
  · rw [heq]
    exact Moves.refl _ _ _ _
  · rw [heq] at hadvances hbelow ⊢
    refine ⟨hadvances, fun other entry hentry => ?_, fun other hother => ?_,
      fun hcount => (Nat.succ_ne_self _ hcount).elim⟩
    · rw [Analysis.Holds, Analysis.get?_raise]
      split
      · rename_i heq
        rw [← heq, Analysis.lookup, hentry] at hbelow
        exact ⟨raised, rfl, hbelow⟩
      · exact ⟨entry, hentry, .refl entry⟩
    · rw [Analysis.lookup_raise] at hother
      split at hother
      · rename_i heq
        subst heq
        rcases hname with hown | ⟨f, hf, params, hparams, hmem | ⟨rfl, rfl⟩⟩
        · exact .inl hown
        · exact .inr ⟨f, hf, params, hparams, hmem⟩
        · -- What was known is joined with nothing.
          refine (hother ?_).elim
          rcases hraised with ⟨hnone, rfl⟩ | ⟨known, hknown, rfl, hne⟩
          · rw [Analysis.lookup, hnone]
            rfl
          · refine (hne ?_).elim
            cases known <;> simp [Lattice.join, Lattice.compare]
      · exact (hother rfl).elim

/-! ## Calls and functions -/

section Functions

variable {ns : Lowered.Namespace} {bound called : List Name} {calls : Nat} {before : Analysis}

theorem Analysis.Proper.push (h : before.Proper ns) (names : List Name) :
    Analysis.Proper ns { before with worklist := before.worklist ++ names } :=
  ⟨h.functions, h.assigned, h.declared, h.named, h.bound, h.top⟩

/-- A change pays for a name on the worklist. -/
theorem Moves.push {after : Analysis} (h : Moves bound called calls before after)
    (hchanges : before.changes < after.changes) (name : Name) :
    Moves bound called (calls + 1) before
      { after with worklist := after.worklist ++ [name] } where
  toAdvances := h.toAdvances.push hchanges name
  grows := h.grows
  touched := h.touched
  still heq := by
    have : after.changes = before.changes := heq
    omega

theorem Analysis.Proper.withFunction (h : before.Proper ns) {name : Name} {params : List Name}
    (hname : ns.params? name = some params) : (before.withFunction name params).Proper ns := by
  by_cases hnone : before.functionParams.get? name = none
  · have hget := Analysis.get?_withFunction params hnone
    refine ⟨fun other found hfound => ?_, fun other hother hparams => ?_, h.declared, h.named,
      h.bound, h.top⟩
    · rw [hget] at hfound
      split at hfound
      · rename_i heq
        rw [heq, hname, Option.some.inj hfound]
      · exact h.functions other found hfound
    · rw [hget]
      split
      · exact nofun
      · exact h.assigned other hother hparams
  · rw [Analysis.withFunction_of_some hnone]
    exact h

/-- A function that is recorded is assigned a result, and that is a change. -/
theorem Moves.withFunction {after : Analysis} (hbefore : before.Proper ns) {name : Name}
    {params : List Name} (hname : ns.params? name = some params) (hbound : name ∈ bound)
    (hparams : params ⊆ bound)
    (h : Moves bound called calls (before.withFunction name params) after)
    (hassigned : after.values.get? name ≠ none) : Moves bound called calls before after := by
  refine ⟨(Advances.withFunction hbound hparams).trans h.toAdvances, h.grows, h.touched,
    fun hstill => ?_⟩
  by_cases hnone : before.functionParams.get? name = none
  · -- Nothing was known about the function before.
    rw [h.still hstill] at hassigned
    exact (hbefore.assigned name hassigned (by rw [hname]; exact nofun) hnone).elim
  · rw [Analysis.withFunction_of_some hnone] at h
    exact h.still hstill

end Functions

end PolyFront
