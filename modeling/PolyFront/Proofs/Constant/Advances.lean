import PolyFront.Proofs.Constant.Order

/-!
# How an analysis advances

Whatever is analysed, the entries of an analysis only move up, and the changes are counted: the
count has grown exactly when some entry is another one.  Only names that are bound in the analysed
code, functions that it refers to, and their parameters are assigned, and every name that is put
on the worklist is paid for by a change.  None of this depends on how the code is formed.
-/

namespace PolyFront

namespace Analysis

/-! ## Entries and their count -/

/-- The entries have moved up, and the changes are counted. -/
structure Rises (before after : Analysis) : Prop where
  up : ∀ name known, before.values.get? name = some known →
    ∃ value, after.values.get? name = some value ∧ known.AtMost value
  counted : before.changes ≤ after.changes
  /-- The count has grown exactly when an entry has changed. -/
  moved : before.changes < after.changes ↔
    ∃ name, after.values.get? name ≠ before.values.get? name

namespace Rises

variable {before mid after : Analysis}

theorem of_eq (hvalues : after.values = before.values) (hchanges : after.changes = before.changes) :
    Rises before after where
  up name known hknown := ⟨known, by rw [hvalues, hknown], .refl known⟩
  counted := Nat.le_of_eq hchanges.symm
  moved := by simp [hvalues, hchanges]

/-- An entry that ends where it started has not moved in between. -/
theorem eq_of_eq (h : Rises before mid) (h' : Rises mid after) {name : Name}
    (heq : after.values.get? name = before.values.get? name) :
    mid.values.get? name = before.values.get? name := by
  cases hbefore : before.values.get? name with
  | none =>
    cases hmid : mid.values.get? name with
    | none => rfl
    | some value =>
      obtain ⟨last, hlast, -⟩ := h'.up name value hmid
      rw [hlast, hbefore] at heq
      cases heq
  | some known =>
    obtain ⟨value, hmid, hle⟩ := h.up name known hbefore
    obtain ⟨last, hlast, hle'⟩ := h'.up name value hmid
    rw [hlast, hbefore] at heq
    obtain rfl := Option.some.inj heq
    rw [hmid, hle.antisymm hle']

theorem trans (h : Rises before mid) (h' : Rises mid after) : Rises before after where
  up name known hknown := by
    obtain ⟨value, hvalue, hle⟩ := h.up name known hknown
    obtain ⟨last, hlast, hle'⟩ := h'.up name value hvalue
    exact ⟨last, hlast, hle.trans hle'⟩
  counted := Nat.le_trans h.counted h'.counted
  moved := by
    constructor
    · intro hlt
      by_cases hfirst : before.changes < mid.changes
      · obtain ⟨name, hname⟩ := h.moved.1 hfirst
        exact ⟨name, fun heq => hname (h.eq_of_eq h' heq)⟩
      · obtain ⟨name, hname⟩ := h'.moved.1 (by omega)
        exact ⟨name, fun heq => hname (heq.trans (h.eq_of_eq h' heq).symm)⟩
    · rintro ⟨name, hname⟩
      by_cases hmid : mid.values.get? name = before.values.get? name
      · exact Nat.lt_of_le_of_lt h.counted (h'.moved.2 ⟨name, hmid ▸ hname⟩)
      · exact Nat.lt_of_lt_of_le (h.moved.2 ⟨name, hmid⟩) h'.counted

/-- Without a change, all is known as before. -/
theorem lookup_eq (h : Rises before after) (hstill : ¬before.changes < after.changes)
    (name : Name) : after.lookup name = before.lookup name := by
  have heq : after.values.get? name = before.values.get? name :=
    by_contra fun hne => hstill (h.moved.2 ⟨name, hne⟩)
  rw [lookup, lookup, heq]

end Rises

/-- A record raises the entry of its name, or leaves everything as it is. -/
theorem rises_record (analysis : Analysis) (name : Name) (value : Lattice) :
    Rises analysis (analysis.record name value).2 := by
  rcases analysis.record_cases name value with ⟨known, -, -, heq⟩ | ⟨raised, hraised, heq⟩
  · rw [heq]
    exact .of_eq rfl rfl
  · rw [heq]
    refine ⟨fun other known hknown => ?_, Nat.le_succ _, fun _ => ⟨name, ?_⟩,
      fun _ => Nat.lt_succ_self _⟩
    · rw [get?_raise]
      by_cases hother : other = name
      · subst hother
        rcases hraised with ⟨hnone, -⟩ | ⟨known', hknown', rfl, -⟩
        · rw [hnone] at hknown
          cases hknown
        · rw [hknown'] at hknown
          obtain rfl := Option.some.inj hknown
          exact ⟨_, if_pos rfl, Lattice.atMost_join_left _ _⟩
      · exact ⟨known, (if_neg hother).trans hknown, .refl known⟩
    · rw [get?_raise, if_pos rfl]
      rcases hraised with ⟨hnone, -⟩ | ⟨known, hknown, -, hne⟩
      · rw [hnone]
        exact nofun
      · rw [hknown]
        exact fun heq => hne (Option.some.inj heq)

end Analysis

/-! ## Names, calls and costs -/

/-- What an analysis does that binds some names, refers to others and makes a number of calls. -/
structure Advances (bound called : List Name) (calls : Nat) (before after : Analysis) : Prop where
  rises : before.Rises after
  kept : ∀ name params, before.functionParams.get? name = some params →
    after.functionParams.get? name = some params
  added : ∀ name params, after.functionParams.get? name = some params →
    before.functionParams.get? name = some params ∨ name ∈ bound ∧ params ⊆ bound
  fixed : after.bound = before.bound ∧ after.positions = before.positions ∧
    after.dependents = before.dependents
  cost : ∀ names, bound ⊆ names →
    (∀ f ∈ called, ∀ params, after.functionParams.get? f = some params →
      f ∈ names ∧ params ⊆ names) →
    after.changes + after.potential names ≤ before.changes + before.potential names
  pushed : ∃ extra, after.worklist = before.worklist ++ extra ∧
    extra.length ≤ (after.changes - before.changes) * calls

namespace Advances

variable {bound bound' called called' : List Name} {calls calls' : Nat}
  {before mid after : Analysis}

theorem counted (h : Advances bound called calls before after) :
    before.changes ≤ after.changes := h.rises.counted

theorem refl (bound called : List Name) (calls : Nat) (analysis : Analysis) :
    Advances bound called calls analysis analysis where
  rises := .of_eq rfl rfl
  kept _ _ h := h
  added _ _ h := .inl h
  fixed := ⟨rfl, rfl, rfl⟩
  cost _ _ _ := Nat.le_refl _
  pushed := ⟨[], (List.append_nil _).symm, Nat.zero_le _⟩

theorem trans (h : Advances bound called calls before mid)
    (h' : Advances bound called calls mid after) : Advances bound called calls before after where
  rises := h.rises.trans h'.rises
  kept name params hparams := h'.kept name params (h.kept name params hparams)
  added name params hparams := by
    rcases h'.added name params hparams with hmid | hown
    · exact h.added name params hmid
    · exact .inr hown
  fixed := ⟨h'.fixed.1.trans h.fixed.1, h'.fixed.2.1.trans h.fixed.2.1,
    h'.fixed.2.2.trans h.fixed.2.2⟩
  cost names hbound hcalled := by
    have hcost := h.cost names hbound fun f hf params hparams =>
      hcalled f hf params (h'.kept f params hparams)
    have hcost' := h'.cost names hbound hcalled
    omega
  pushed := by
    obtain ⟨extra, heq, hlength⟩ := h.pushed
    obtain ⟨extra', heq', hlength'⟩ := h'.pushed
    refine ⟨extra ++ extra', by rw [heq', heq, List.append_assoc], ?_⟩
    have hsum : after.changes - before.changes =
        (mid.changes - before.changes) + (after.changes - mid.changes) := by
      have := h.counted
      have := h'.counted
      omega
    rw [List.length_append, hsum, Nat.add_mul]
    omega

theorem mono (h : Advances bound called calls before after) (hbound : bound ⊆ bound')
    (hcalled : called ⊆ called') (hcalls : calls ≤ calls') :
    Advances bound' called' calls' before after where
  rises := h.rises
  kept := h.kept
  added name params hparams :=
    (h.added name params hparams).imp_right fun hown =>
      ⟨hbound hown.1, fun _ hp => hbound (hown.2 hp)⟩
  fixed := h.fixed
  cost names hnames hparams :=
    h.cost names (fun _ hp => hnames (hbound hp)) fun f hf => hparams f (hcalled hf)
  pushed := by
    obtain ⟨extra, heq, hlength⟩ := h.pushed
    exact ⟨extra, heq, Nat.le_trans hlength (Nat.mul_le_mul_left _ hcalls)⟩

/-- A record is paid for by what its name can move. -/
theorem record {analysis : Analysis} {name : Name}
    (hname : name ∈ bound ∨ ∃ f ∈ called, ∃ params,
      analysis.functionParams.get? f = some params ∧ (name ∈ params ∨ name = f))
    (value : Lattice) : Advances bound called calls analysis (analysis.record name value).2 := by
  have hrises := analysis.rises_record name value
  rcases analysis.record_cases name value with ⟨known, -, -, heq⟩ | ⟨raised, hraised, heq⟩
  · rw [heq]
    exact refl _ _ _ _
  · rw [heq] at hrises ⊢
    refine ⟨hrises, fun _ _ hparams => hparams, fun _ _ hparams => .inl hparams, ⟨rfl, rfl, rfl⟩,
      fun names hbound hcalled => ?_, [], (List.append_nil _).symm, Nat.zero_le _⟩
    have hmem : name ∈ names := by
      rcases hname with hown | ⟨f, hf, params, hparams, hmem | rfl⟩
      · exact hbound hown
      · exact (hcalled f hf params hparams).2 hmem
      · exact (hcalled name hf params hparams).1
    have hlevel : analysis.level name < raised.rank := by
      rw [Analysis.level]
      rcases hraised with ⟨hnone, rfl⟩ | ⟨known, hknown, rfl, hne⟩
      · rw [hnone]
        exact Lattice.rank_pos raised
      · rw [hknown]
        exact Lattice.rank_lt_join hne
    have hlt := Analysis.potential_raise hmem hlevel
    show analysis.changes + 1 + (analysis.raise name raised).potential names ≤ _
    omega

/-- A change pays for a name on the worklist. -/
theorem push (h : Advances bound called calls before after)
    (hchanges : before.changes < after.changes) (name : Name) :
    Advances bound called (calls + 1) before
      { after with worklist := after.worklist ++ [name] } where
  rises := h.rises.trans (.of_eq rfl rfl)
  kept := h.kept
  added := h.added
  fixed := h.fixed
  cost := h.cost
  pushed := by
    obtain ⟨extra, heq, hlength⟩ := h.pushed
    refine ⟨extra ++ [name], ?_, ?_⟩
    · show after.worklist ++ [name] = _
      rw [heq, List.append_assoc]
    · show _ ≤ (after.changes - before.changes) * (calls + 1)
      rw [List.length_append, List.length_singleton, Nat.mul_succ]
      omega

end Advances

/-! ## Functions -/

namespace Analysis

/-- The analysis in which a function is recorded. -/
def withFunction (analysis : Analysis) (name : Name) (params : List Name) : Analysis :=
  { analysis with functionParams := analysis.functionParams.insertIfNew name params }

theorem withFunction_of_some {analysis : Analysis} {name : Name} {params : List Name}
    (h : analysis.functionParams.get? name ≠ none) :
    analysis.withFunction name params = analysis := by
  have hcontains : analysis.functionParams.contains name = true :=
    Option.isSome_iff_ne_none.2 h
  rw [withFunction, Table.insertIfNew, if_pos hcontains]

theorem get?_withFunction {analysis : Analysis} {name : Name} (params : List Name)
    (h : analysis.functionParams.get? name = none) (other : Name) :
    (analysis.withFunction name params).functionParams.get? other =
      if other = name then some params else analysis.functionParams.get? other := by
  have hcontains : ¬analysis.functionParams.contains name = true := by
    rw [Table.contains, h]
    exact nofun
  rw [withFunction, Table.insertIfNew, if_neg hcontains]
  show List.lookup other (analysis.functionParams.entries ++ [(name, params)]) = _
  rw [List.lookup_append]
  by_cases heq : other = name
  · subst heq
    have hnone : List.lookup other analysis.functionParams.entries = none := h
    rw [if_pos rfl, hnone, List.lookup_cons_self]
    rfl
  · have hbeq : (other == name) = false := beq_false_of_ne heq
    rw [if_neg heq, List.lookup_cons, hbeq]
    exact Option.or_none

end Analysis

theorem Advances.withFunction {bound called : List Name} {calls : Nat} {analysis : Analysis}
    {name : Name} {params : List Name} (hname : name ∈ bound) (hparams : params ⊆ bound) :
    Advances bound called calls analysis (analysis.withFunction name params) := by
  by_cases hnone : analysis.functionParams.get? name = none
  · have hget := Analysis.get?_withFunction params hnone
    refine ⟨.of_eq rfl rfl, fun f found hfound => ?_, fun f found hfound => ?_, ⟨rfl, rfl, rfl⟩,
      fun _ _ _ => Nat.le_refl _, [], (List.append_nil _).symm, Nat.zero_le _⟩
    · rw [hget, if_neg]
      · exact hfound
      · rintro rfl
        rw [hnone] at hfound
        cases hfound
    · rw [hget] at hfound
      by_cases heq : f = name
      · rw [if_pos heq] at hfound
        rw [heq, ← Option.some.inj hfound]
        exact .inr ⟨hname, hparams⟩
      · rw [if_neg heq] at hfound
        exact .inl hfound
  · rw [Analysis.withFunction_of_some hnone]
    exact refl _ _ _ _

end PolyFront
