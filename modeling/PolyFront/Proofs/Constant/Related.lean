import PolyFront.Constant.Simplify
import PolyFront.Proofs.Constant.Drained

/-!
# Values of simplified code

The values of simplified code are related to those of the original code.  A function of the
original code is related to the function with the simplified body; functions that come from
elsewhere have the same code on both sides.  A name that simplified code does not refer to any
more may be missing from its frames, and so may a frame that binds such names only.
-/

namespace PolyFront

/-- What is known about a value allows for it. -/
def Lattice.Allows : Lattice → Lowered.Datum → Prop
  | .unassigned, _ => False
  | .constant value, datum => datum = .literal value
  | .known name, datum =>
    (∃ fields contents, datum = .data name fields contents) ∨ ∃ fields, datum = .maker name fields
  | .constantConstructor name, datum => datum = .data name [] []
  | .nonConstant, _ => True

/-! ## What is allowed -/

section Allows

open Lowered

variable {value high : Lattice} {datum result : Datum}

theorem Lattice.Allows.ne_unassigned (h : value.Allows datum) : value ≠ .unassigned := by
  rintro rfl
  exact h

theorem Lattice.Allows.below (h : value.Allows datum) (hbelow : value.Below high) :
    high.Allows datum := by
  rcases hbelow with rfl | rfl | rfl
  · exact h.elim
  · exact h
  · exact True.intro

theorem Lattice.Allows.reference {known : Analysis} {name : Name}
    (h : (known.lookup name).Allows datum) :
    (known.reference name).Allows datum := by
  rw [Analysis.lookup] at h
  rw [Analysis.reference]
  cases hvalue : known.values.get? name with
  | none =>
    rw [hvalue] at h
    exact h.elim
  | some value =>
    rw [hvalue] at h
    exact h

theorem Lattice.Allows.unary {op : UnaryOp} (h : value.Allows datum)
    (hresult : unaryDatum op datum = some result) : (Lattice.unary op value).Allows result := by
  cases value with
  | unassigned => exact h.elim
  | constant operand =>
    obtain rfl : datum = .literal operand := h
    obtain ⟨folded, hfolded, rfl⟩ := Option.map_eq_some_iff.1 hresult
    rw [Lattice.unary]
    cases hunary : Fold.unary op operand with
    | constant literal =>
      rw [hunary] at hfolded
      obtain rfl := Option.some.inj hfolded
      rfl
    | _ =>
      rw [hunary] at hfolded
      cases hfolded
  | _ => exact True.intro

/-- An operator on literals has the result that is folded, if it has one. -/
theorem Lowered.binaryDatum_eq {op : BinaryOp} {left right : Datum}
    (h : binaryDatum op left right = some result) :
    ∃ l r folded, left = .literal l ∧ right = .literal r ∧ result = .literal folded ∧
      Fold.binary l op r = .constant folded := by
  cases left with
  | literal l =>
    cases right with
    | literal r =>
      obtain ⟨folded, hfolded, rfl⟩ := Option.map_eq_some_iff.1 h
      refine ⟨l, r, folded, rfl, rfl, rfl, ?_⟩
      cases hbinary : Fold.binary l op r with
      | constant literal =>
        rw [hbinary] at hfolded
        exact congrArg Lattice.constant (Option.some.inj hfolded)
      | _ =>
        rw [hbinary] at hfolded
        cases hfolded
    | _ => cases h
  | _ => cases h

theorem Lattice.Allows.binary {op : BinaryOp} {leftValue rightValue : Lattice} {left right : Datum}
    (hleft : leftValue.Allows left) (hright : rightValue.Allows right)
    (hresult : binaryDatum op left right = some result) :
    (Lattice.binary leftValue op rightValue).Allows result := by
  obtain ⟨l, r, folded, rfl, rfl, rfl, hfolded⟩ := binaryDatum_eq hresult
  unfold Lattice.binary
  split
  · -- The right operand is a boolean, or the operator would not be defined on it.
    obtain rfl := Datum.literal.inj hleft
    cases r with
    | boolean r => exact congrArg Datum.literal (Lattice.constant.inj hfolded.symm)
    | _ => cases hfolded
  · obtain rfl := Datum.literal.inj hleft
    cases r with
    | boolean r => exact congrArg Datum.literal (Lattice.constant.inj hfolded.symm)
    | _ => cases hfolded
  · obtain rfl := Datum.literal.inj hleft
    obtain rfl := Datum.literal.inj hright
    rw [hfolded]
    rfl
  · exact hleft.elim
  · exact hright.elim
  · exact True.intro

/-- What is called is a constructor, if anything is known about it. -/
theorem Lattice.Allows.call {eval : List Lowered.Frame → Lowered.Expr → Option Datum}
    {args : List Datum} (h : value.Allows datum) (hresult : datum.call eval args = some result) :
    value.Allows result := by
  cases value with
  | unassigned => exact h.elim
  | constant operand =>
    obtain rfl : datum = .literal operand := h
    cases hresult
  | known name =>
    rcases h with ⟨fields, contents, rfl⟩ | ⟨fields, rfl⟩
    · cases fields <;> cases contents <;> simp only [Datum.call, reduceCtorEq] at hresult
      obtain ⟨-, hresult⟩ := Option.ite_none_right_eq_some.1 hresult
      exact .inl ⟨[], [], (Option.some.inj hresult).symm⟩
    · obtain ⟨-, hresult⟩ := Option.ite_none_right_eq_some.1 hresult
      exact .inl ⟨fields, args, (Option.some.inj hresult).symm⟩
  | constantConstructor name =>
    obtain rfl : datum = .data name [] [] := h
    obtain ⟨-, hresult⟩ := Option.ite_none_right_eq_some.1 hresult
    exact (Option.some.inj hresult).symm
  | nonConstant => exact True.intro

/-- What is built by a known constructor. -/
theorem Lattice.Allows.constructor {name : ConstructorName} (h : value.Allows datum)
    (hvalue : value.constructor? = some name) :
    (∃ fields contents, datum = .data name fields contents) ∨
      ∃ fields, datum = .maker name fields := by
  cases value with
  | known known =>
    obtain rfl := Option.some.inj hvalue
    exact h
  | constantConstructor known =>
    obtain rfl := Option.some.inj hvalue
    exact .inl ⟨[], [], h⟩
  | _ => cases hvalue

end Allows

namespace Lowered

/-! ## What patterns bind -/

/-- What is known about names allows for what they are bound to. -/
abbrev Permits (known : Analysis) : List Name → List Datum → Prop :=
  List.Forall₂ fun name datum => (known.lookup name).Allows datum

theorem Match.and_eq_binds {left right : Match} {names : List Name} {contents : List Datum}
    (h : left.and right = .binds names contents) :
    ∃ n c n' c', left = .binds n c ∧ right = .binds n' c' ∧ names = n ++ n' ∧
      contents = c ++ c' := by
  cases left with
  | stuck => cases h
  | fails => cases h
  | binds n c =>
    cases right with
    | stuck => cases h
    | fails => cases h
    | binds n' c' =>
      obtain ⟨rfl, rfl⟩ := Match.binds.inj h
      exact ⟨n, c, n', c', rfl, rfl, rfl, rfl⟩

theorem Pattern.run_literal {expected : Literal} {datum : Datum} {names : List Name}
    {contents : List Datum} (h : (Pattern.literal expected).run datum = .binds names contents) :
    datum = .literal expected ∧ names = [] ∧ contents = [] := by
  cases datum with
  | literal given =>
    rw [Pattern.run] at h
    split at h
    · rename_i heq
      obtain ⟨rfl, rfl⟩ := Match.binds.inj h
      exact ⟨congrArg Datum.literal heq, rfl, rfl⟩
    · cases h
  | _ => cases h

theorem Pattern.run_constructor {name : ConstructorName} {fields : List FieldPattern}
    {datum : Datum} {names : List Name} {contents : List Datum}
    (h : (Pattern.constructor name fields).run datum = .binds names contents) :
    ∃ given parts, datum = .data name given parts ∧
      FieldPattern.runList given parts fields = .binds names contents := by
  cases datum with
  | data constructor given parts =>
    rw [Pattern.run] at h
    split at h
    · rename_i heq
      exact ⟨given, parts, by rw [heq], h⟩
    · cases h
  | maker constructor given =>
    rw [Pattern.run] at h
    split at h <;> cases h
  | _ => cases h

mutual
/-- A pattern binds its names to what is allowed for them. -/
theorem Pattern.run_binds {known : Analysis} : ∀ (pattern : Pattern) {value : Lattice}
    {datum : Datum} {names : List Name} {contents : List Datum}, pattern.Covered known value →
    value.Allows datum → pattern.run datum = .binds names contents →
    names = pattern.boundNames ∧ Permits known names contents
  | .id name, value, datum, names, contents, hcovered, hallows, h => by
    obtain ⟨rfl, rfl⟩ := Match.binds.inj h
    exact ⟨rfl, .cons (hallows.below hcovered.2.below) .nil⟩
  | .alias name inner, value, datum, names, contents, hcovered, hallows, h => by
    obtain ⟨_, _, n, c, hname, hinner, rfl, rfl⟩ := Match.and_eq_binds h
    obtain ⟨rfl, rfl⟩ := Match.binds.inj hname
    obtain ⟨rfl, hpermits⟩ := inner.run_binds hcovered.2 hallows hinner
    exact ⟨rfl, .cons (hallows.below hcovered.1.2.below) hpermits⟩
  | .literal expected, value, datum, names, contents, _, _, h => by
    obtain ⟨-, rfl, rfl⟩ := Pattern.run_literal h
    exact ⟨rfl, .nil⟩
  | .constructor name fields, value, datum, names, contents, hcovered, _, h => by
    obtain ⟨given, parts, -, hfields⟩ := Pattern.run_constructor h
    exact FieldPattern.runList_binds fields hcovered hfields
theorem FieldPattern.run_binds {known : Analysis} : ∀ (field : FieldPattern)
    {given : List FieldName} {parts : List Datum} {names : List Name} {contents : List Datum},
    field.Covered known → field.run given parts = .binds names contents →
    names = field.boundNames ∧ Permits known names contents
  | ⟨name, inner⟩, given, parts, names, contents, hcovered, h => by
    rw [FieldPattern.run] at h
    split at h
    · exact inner.run_binds hcovered (show Lattice.nonConstant.Allows _ from True.intro) h
    · cases h
theorem FieldPattern.runList_binds {known : Analysis} : ∀ (fields : List FieldPattern)
    {given : List FieldName} {parts : List Datum} {names : List Name} {contents : List Datum},
    FieldPattern.CoveredList known fields →
    FieldPattern.runList given parts fields = .binds names contents →
    names = FieldPattern.boundNamesList fields ∧ Permits known names contents
  | [], given, parts, names, contents, _, h => by
    obtain ⟨rfl, rfl⟩ := Match.binds.inj h
    exact ⟨rfl, .nil⟩
  | field :: rest, given, parts, names, contents, hcovered, h => by
    obtain ⟨n, c, n', c', hfield, hrest, rfl, rfl⟩ := Match.and_eq_binds h
    obtain ⟨rfl, hpermits⟩ := field.run_binds hcovered.1 hfield
    obtain ⟨rfl, hpermits'⟩ := FieldPattern.runList_binds rest hcovered.2 hrest
    exact ⟨rfl, List.rel_append hpermits hpermits'⟩
end

/-! ## Candidates -/

/-- A pattern that is known not to match does not. -/
theorem Pattern.run_of_never {pattern : Pattern} {value : Lattice} {datum : Datum}
    {names : List Name} {contents : List Datum} (hallows : value.Allows datum)
    (hrun : pattern.run datum = .binds names contents) : pattern.matching value ≠ .never := by
  intro h
  fun_induction pattern.matching value generalizing names contents with
  | case1 name => cases h
  | case2 name inner ih =>
    obtain ⟨-, -, n, c, -, hinner, -, -⟩ := Match.and_eq_binds hrun
    exact ih hinner h
  | case3 expected => cases h
  | case4 expected known hvalue hne =>
    obtain ⟨rfl, -, -⟩ := Pattern.run_literal hrun
    rw [hvalue] at hallows
    exact hne (Datum.literal.inj hallows).symm
  | case5 expected => cases h
  | case6 => cases h
  | case7 => cases h
  | case8 name fields known hvalue hne =>
    obtain ⟨given, parts, rfl, -⟩ := Pattern.run_constructor hrun
    rcases hallows.constructor hvalue with ⟨_, _, heq⟩ | ⟨_, heq⟩
    · exact hne (Datum.data.inj heq).1.symm
    · cases heq
  | case9 => cases h

theorem Match.and_ne_fails {left right : Match} (hleft : left ≠ .fails) (hright : right ≠ .fails) :
    left.and right ≠ .fails := by
  cases left with
  | stuck => exact nofun
  | fails => exact (hleft rfl).elim
  | binds names contents =>
    cases right with
    | stuck => exact nofun
    | fails => exact (hright rfl).elim
    | binds names' contents' => exact nofun

theorem Pattern.run_of_isIrrefutable {pattern : Pattern} (h : pattern.isIrrefutable = true)
    (datum : Datum) : pattern.run datum ≠ .fails := by
  fun_induction Pattern.isIrrefutable pattern with
  | case1 name => exact nofun
  | case2 name inner ih => exact Match.and_ne_fails nofun (ih h)
  | case3 => cases h
  | case4 => cases h

theorem FieldPattern.runList_of_isIrrefutable {fields : List FieldPattern}
    (h : fields.all (fun field => field.pattern.isIrrefutable) = true) (given : List FieldName)
    (parts : List Datum) : FieldPattern.runList given parts fields ≠ .fails := by
  induction fields with
  | nil => exact nofun
  | cons field rest ih =>
    rw [List.all_cons, Bool.and_eq_true] at h
    refine Match.and_ne_fails ?_ (ih h.2)
    obtain ⟨name, pattern⟩ := field
    rw [FieldPattern.run]
    split
    · exact Pattern.run_of_isIrrefutable h.1 _
    · exact nofun

/-- A pattern that is known to match does not fail. -/
theorem Pattern.run_of_always {pattern : Pattern} {value : Lattice} {datum : Datum}
    (hallows : value.Allows datum) (h : pattern.matching value = .always) :
    pattern.run datum ≠ .fails := by
  fun_induction pattern.matching value with
  | case1 name => exact nofun
  | case2 name inner ih => exact Match.and_ne_fails nofun (ih h)
  | case3 expected hvalue =>
    rw [hvalue] at hallows
    obtain rfl : datum = .literal expected := hallows
    rw [Pattern.run, if_pos rfl]
    exact nofun
  | case4 => cases h
  | case5 => cases h
  | case6 fields name hvalue hirrefutable =>
    rcases hallows.constructor hvalue with ⟨given, parts, rfl⟩ | ⟨given, rfl⟩
    · rw [Pattern.run, if_pos rfl]
      exact FieldPattern.runList_of_isIrrefutable hirrefutable given parts
    · rw [Pattern.run, if_pos rfl]
      exact nofun
  | case7 => cases h
  | case8 => cases h
  | case9 => cases h

/-- The case that is selected is a candidate. -/
theorem Case.select_candidate {value : Lattice} {datum : Datum} (hallows : value.Allows datum)
    {cases : List Case} {selected : Frame × Expr} (h : Case.select datum cases = some selected) :
    ∃ candidate ∈ candidates Case.pattern value cases, ∃ names contents,
      candidate.1.pattern.run datum = .binds names contents ∧
        selected = (.mk [] names contents, candidate.1.body) := by
  induction cases with
  | nil => cases h
  | cons case rest ih =>
    rw [Case.select] at h
    rw [candidates]
    cases hrun : case.pattern.run datum with
    | stuck =>
      rw [hrun] at h
      cases h
    | binds names contents =>
      rw [hrun] at h
      refine ⟨(case, case.pattern.matching value), ?_, names, contents, hrun,
        (Option.some.inj h).symm⟩
      cases hmatching : case.pattern.matching value with
      | never => exact (Pattern.run_of_never hallows hrun hmatching).elim
      | maybe => exact List.mem_cons_self
      | always => exact List.mem_cons_self
    | fails =>
      rw [hrun] at h
      obtain ⟨candidate, hcandidate, hselected⟩ := ih h
      refine ⟨candidate, ?_, hselected⟩
      cases hmatching : case.pattern.matching value with
      | never => exact hcandidate
      | maybe => exact List.mem_cons_of_mem _ hcandidate
      | always => exact (Pattern.run_of_always hallows hmatching hrun).elim

/-! ## Related values -/

section Relations

variable (ns : Namespace) (known : Analysis)

/-- Names that are referred to at other than function types are no functions. -/
def Typed (plain : List Name) : Prop := ∀ name ∈ plain, ns.params? name = none

/-- The code of a function, with the names that are visible around it. -/
structure Code (visible params : List Name) (body : Expr) (result : Lattice) : Prop where
  plain : ∀ p ∈ params, known.functionParams.get? p = none
  fits : body.Fits ns (params ++ visible)
  typed : Typed ns body.plainReferences
  covered : body.Covered known result

/-- A frame makes names visible in front of others: those that have a value, and those of its
bindings. -/
structure FrameScope (front visible : List Name) (bindings : List Binding) (names : List Name) :
    Prop where
  named : ∀ name ∈ front, name ∈ names ∨ ∃ binding ∈ bindings, binding.name = name
  valued : ∀ name ∈ names, name ∈ front
  bound : ∀ binding ∈ bindings, binding.name ∈ front
  covered : ∀ binding ∈ bindings, binding.Covered known
  fits : ∀ binding ∈ bindings,
    binding.inner.Fits ns (binding.paramNames ++ (front ++ visible))
  typed : ∀ binding ∈ bindings, Typed ns binding.inner.plainReferences

mutual
/-- What original code and simplified code evaluate to. -/
inductive Related : Datum → Datum → Prop
  | literal {value : Literal} : Related (.literal value) (.literal value)
  | data {constructor : ConstructorName} {fields : List FieldName} {contents contents' : List Datum}
      (hcontents : List.Forall₂ Related contents contents') :
      Related (.data constructor fields contents) (.data constructor fields contents')
  | maker {constructor : ConstructorName} {fields : List FieldName} :
      Related (.maker constructor fields) (.maker constructor fields)
  | boxed {content content' : Datum} (hcontent : Related content content') :
      Related (.boxed content) (.boxed content')
  /-- A function that can be called with anything. -/
  | closure {visible params : List Name} {body : Expr} {result : Lattice}
      {frames frames' : List Frame} (hcode : Code ns known visible params body result)
      (hparams : ∀ p ∈ params, known.lookup p = .nonConstant)
      (hframes : RelatedFrames visible frames frames') :
      Related (.closure params body frames) (.closure params (known.simplifyExpr body) frames')
  /-- A function that is not part of the namespace. -/
  | foreign {params : List Name} {body : Expr} {frames frames' : List Frame}
      (hframes : SameFrames frames frames') :
      Related (.closure params body frames) (.closure params body frames')
/-- Frames of code that is not simplified. -/
inductive SameFrames : List Frame → List Frame → Prop
  | nil : SameFrames [] []
  | cons {bindings : List Binding} {names : List Name} {contents contents' : List Datum}
      {rest rest' : List Frame} (hcontents : List.Forall₂ Related contents contents')
      (hrest : SameFrames rest rest') :
      SameFrames (.mk bindings names contents :: rest) (.mk bindings names contents' :: rest')
/-- What a name stands for in original and in simplified code. -/
inductive BoundTo : Name → Datum → Option Datum → Prop
  | plain {name : Name} {datum datum' : Datum} (hname : known.functionParams.get? name = none)
      (hallows : (known.reference name).Allows datum) (hrelated : Related datum datum') :
      BoundTo name datum (some datum')
  /-- A function whose calls are all known. -/
  | function {name : Name} {visible params : List Name} {body : Expr} {result : Lattice}
      {frames frames' : List Frame} (hname : known.functionParams.get? name = some params)
      (hcode : Code ns known visible params body result)
      (hresult : result.Below (known.lookup name))
      (hframes : RelatedFrames visible frames frames') :
      BoundTo name (.closure params body frames)
        (some (.closure params (known.simplifyExpr body) frames'))
  /-- A constant that is not referred to any more. -/
  | dropped {name : Name} {value : Literal} {datum' : Option Datum}
      (hname : known.functionParams.get? name = none)
      (hvalue : known.values.get? name = some (.constant value)) :
      BoundTo name (.literal value) datum'
/-- The names of a frame that have a value. -/
inductive Entries : List Name → List Datum → List Name → List Datum → Prop
  | nil : Entries [] [] [] []
  | kept {name : Name} {datum datum' : Datum} {names names' : List Name}
      {contents contents' : List Datum} (hbound : BoundTo name datum (some datum'))
      (hrest : Entries names contents names' contents') :
      Entries (name :: names) (datum :: contents) (name :: names') (datum' :: contents')
  | dropped {name : Name} {datum : Datum} {names names' : List Name}
      {contents contents' : List Datum} (hbound : BoundTo name datum none)
      (hrest : Entries names contents names' contents') :
      Entries (name :: names) (datum :: contents) names' contents'
/-- Frames of original and simplified code, in which some names are visible. -/
inductive RelatedFrames : List Name → List Frame → List Frame → Prop
  | nil : RelatedFrames [] [] []
  | both {front visible : List Name} {bindings : List Binding} {names names' : List Name}
      {contents contents' : List Datum} {rest rest' : List Frame}
      (hscope : FrameScope ns known front visible bindings names)
      (hentries : Entries names contents names' contents')
      (hrest : RelatedFrames visible rest rest') :
      RelatedFrames (front ++ visible) (.mk bindings names contents :: rest)
        (.mk (known.simplifyBindings bindings) names' contents' :: rest')
  /-- Nothing of the frame is left. -/
  | skipped {front visible : List Name} {bindings : List Binding} {names : List Name}
      {contents : List Datum} {rest rest' : List Frame}
      (hscope : FrameScope ns known front visible bindings names)
      (hentries : Entries names contents [] [])
      (hbindings : known.simplifyBindings bindings = [])
      (hrest : RelatedFrames visible rest rest') :
      RelatedFrames (front ++ visible) (.mk bindings names contents :: rest) rest'
end

end Relations

section Related

variable {ns : Namespace} {known : Analysis}

mutual
/-- Values that come from elsewhere are related to themselves. -/
theorem Related.refl : ∀ datum : Datum, Related ns known datum datum
  | .literal _ => .literal
  | .data _ _ contents => .data (Related.reflList contents)
  | .maker _ _ => .maker
  | .boxed content => .boxed (Related.refl content)
  | .closure _ _ frames => .foreign (SameFrames.refl frames)
theorem Related.reflList : ∀ contents : List Datum,
    List.Forall₂ (Related ns known) contents contents
  | [] => .nil
  | datum :: rest => .cons (Related.refl datum) (Related.reflList rest)
theorem SameFrames.refl : ∀ frames : List Frame, SameFrames ns known frames frames
  | [] => .nil
  | .mk _ _ contents :: rest => .cons (Related.reflList contents) (SameFrames.refl rest)
end

mutual
/-- Related values differ in the code of functions only. -/
theorem Related.bare : ∀ {datum datum' : Datum}, Related ns known datum datum' →
    datum'.bare = datum.bare
  | .literal _, _, h => by
    cases h
    rfl
  | .data _ _ contents, _, h => by
    cases h with
    | data hcontents => rw [Datum.bare, Datum.bare, Related.bareList hcontents]
  | .maker _ _, _, h => by
    cases h
    rfl
  | .boxed content, _, h => by
    cases h with
    | boxed hcontent => rw [Datum.bare, Datum.bare, Related.bare hcontent]
  | .closure _ _ _, _, h => by
    cases h <;> rfl
theorem Related.bareList : ∀ {contents contents' : List Datum},
    List.Forall₂ (Related ns known) contents contents' →
    Datum.bareList contents' = Datum.bareList contents
  | [], _, h => by
    cases h
    rfl
  | datum :: rest, _, h => by
    cases h with
    | cons hdatum hrest => rw [Datum.bareList, Datum.bareList, Related.bare hdatum,
        Related.bareList hrest]
end

theorem Related.isPlain {datum datum' : Datum} (h : Related ns known datum datum') :
    datum'.isPlain = datum.isPlain := by
  cases h <;> rfl

theorem Related.eq_literal {datum : Datum} {value : Literal}
    (h : Related ns known (.literal value) datum) : datum = .literal value := by
  cases h
  rfl

/-! ## Matches -/

theorem pick_related {κ ν ν' : Type} [DecidableEq κ] {R : ν → ν' → Prop} {contents : List ν}
    {contents' : List ν'} (h : List.Forall₂ R contents contents') (key : κ) (keys : List κ) :
    Option.Rel R (pick key keys contents) (pick key keys contents') := by
  induction h generalizing keys with
  | nil => cases keys <;> exact .none
  | cons hdatum hrest ih =>
    cases keys with
    | nil => exact .none
    | cons other keys =>
      rw [pick, pick]
      split
      · exact .some hdatum
      · exact ih keys

variable (ns known) in
/-- Two matches have the same outcome. -/
inductive RelatedMatch : Match → Match → Prop
  | stuck : RelatedMatch .stuck .stuck
  | fails : RelatedMatch .fails .fails
  | binds {names : List Name} {contents contents' : List Datum}
      (hcontents : List.Forall₂ (Related ns known) contents contents') :
      RelatedMatch (.binds names contents) (.binds names contents')

theorem RelatedMatch.and {left left' right right' : Match}
    (hleft : RelatedMatch ns known left left')
    (hright : RelatedMatch ns known right right') :
    RelatedMatch ns known (left.and right) (left'.and right') := by
  cases hleft with
  | stuck => exact .stuck
  | fails => exact .fails
  | binds hcontents =>
    cases hright with
    | stuck => exact .stuck
    | fails => exact .fails
    | binds hcontents' => exact .binds (List.rel_append hcontents hcontents')

mutual
theorem Pattern.run_related : ∀ (pattern : Pattern) {datum datum' : Datum},
    Related ns known datum datum' → RelatedMatch ns known (pattern.run datum) (pattern.run datum')
  | .id name, datum, datum', h => .binds (.cons h .nil)
  | .alias name inner, datum, datum', h =>
    RelatedMatch.and (.binds (.cons h .nil)) (inner.run_related h)
  | .literal expected, datum, datum', h => by
    cases h with
    | literal =>
      rw [Pattern.run]
      split
      · exact .binds .nil
      · exact .fails
    | _ => exact .fails
  | .constructor name fields, datum, datum', h => by
    cases h with
    | data hcontents =>
      rw [Pattern.run, Pattern.run]
      split
      · exact FieldPattern.runList_related fields hcontents
      · exact .fails
    | maker =>
      rw [Pattern.run]
      split
      · exact .stuck
      · exact .fails
    | _ => exact .fails
theorem FieldPattern.run_related : ∀ (field : FieldPattern) {given : List FieldName}
    {parts parts' : List Datum}, List.Forall₂ (Related ns known) parts parts' →
    RelatedMatch ns known (field.run given parts) (field.run given parts')
  | ⟨name, inner⟩, given, parts, parts', h => by
    have hpick := pick_related h name given
    rw [FieldPattern.run, FieldPattern.run]
    generalize pick name given parts = part at hpick ⊢
    generalize pick name given parts' = part' at hpick ⊢
    cases hpick with
    | none => exact .stuck
    | some hpart => exact inner.run_related hpart
theorem FieldPattern.runList_related : ∀ (fields : List FieldPattern) {given : List FieldName}
    {parts parts' : List Datum}, List.Forall₂ (Related ns known) parts parts' →
    RelatedMatch ns known (FieldPattern.runList given parts fields)
      (FieldPattern.runList given parts' fields)
  | [], _, _, _, _ => .binds .nil
  | field :: rest, _, _, _, h =>
    RelatedMatch.and (field.run_related h) (FieldPattern.runList_related rest h)
end

/-- The same case is selected when the bodies of the cases change. -/
theorem Case.select_related {datum datum' : Datum} (h : Related ns known datum datum')
    {cases : List Case} {names : List Name} {contents : List Datum} {body : Expr}
    (hselect : Case.select datum cases = some (.mk [] names contents, body)) (f : Expr → Expr) :
    ∃ contents', List.Forall₂ (Related ns known) contents contents' ∧
      Case.select datum' (cases.map fun case => ⟨case.pattern, f case.body⟩) =
        some (.mk [] names contents', f body) := by
  induction cases with
  | nil => cases hselect
  | cons case rest ih =>
    have hrun := case.pattern.run_related h
    rw [Case.select] at hselect
    rw [List.map_cons, Case.select]
    generalize case.pattern.run datum = outcome at hrun hselect
    generalize case.pattern.run datum' = outcome' at hrun ⊢
    cases hrun with
    | stuck => cases hselect
    | fails => exact ih hselect
    | binds hcontents =>
      obtain ⟨hframe, rfl⟩ := Prod.mk.inj (Option.some.inj hselect)
      obtain ⟨-, rfl, rfl⟩ := Frame.mk.inj hframe
      exact ⟨_, hcontents, rfl⟩

/-! ## Names in frames -/

theorem Binding.closure?_eq (binding : Binding) (frames : List Frame) :
    binding.closure? frames = binding.params?.map fun params =>
      .closure (params.map Param.name) binding.inner frames := by
  cases binding with
  | join name type params body => rfl
  | assign name type body =>
    rcases body.function_or_plain with ⟨params, inner, rfl⟩ | ⟨hplain, hparams, -⟩
    · rfl
    · rw [closure?, params?, hparams]
      · rfl
      · exact hplain

theorem lookup_picked {name : Name} {bindings : List Binding} {names : List Name}
    {contents : List Datum} {rest : List Frame} {datum : Datum}
    (hpick : pick name names contents = some datum) :
    lookup name (.mk bindings names contents :: rest) = some (some datum) := by
  rw [lookup, hpick]

theorem lookup_found {name : Name} {bindings : List Binding} {names : List Name}
    {contents : List Datum} {rest : List Frame} {binding : Binding}
    (hpick : pick name names contents = none)
    (hfind : (bindings.find? fun binding => binding.name = name) = some binding) :
    lookup name (.mk bindings names contents :: rest) =
      some (binding.closure? (.mk bindings names contents :: rest)) := by
  rw [lookup, hpick, hfind]

theorem lookup_outer {name : Name} {bindings : List Binding} {names : List Name}
    {contents : List Datum} {rest : List Frame} (hpick : pick name names contents = none)
    (hfind : (bindings.find? fun binding => binding.name = name) = none) :
    lookup name (.mk bindings names contents :: rest) = lookup name rest := by
  rw [lookup, hpick, hfind]

theorem SameFrames.lookup {frames frames' : List Frame} (h : SameFrames ns known frames frames')
    (name : Name) : Option.Rel (Option.Rel (Related ns known)) (lookup name frames)
      (lookup name frames') := by
  induction frames generalizing frames' with
  | nil =>
    cases h
    exact .none
  | cons frame rest ih =>
    cases h with
    | @cons bindings names contents contents' _ rest' hcontents hrest =>
      have hpick := pick_related hcontents name names
      rw [Lowered.lookup, Lowered.lookup]
      generalize pick name names contents = found at hpick ⊢
      generalize pick name names contents' = found' at hpick ⊢
      cases hpick with
      | some hdatum => exact .some (.some hdatum)
      | none =>
        cases bindings.find? fun binding => binding.name = name with
        | none => exact ih hrest
        | some binding =>
          refine .some ?_
          rw [binding.closure?_eq, binding.closure?_eq]
          cases binding.params? with
          | none => exact .none
          | some params => exact .some (.foreign (.cons hcontents hrest))

theorem simplifyBinding_name (binding : Binding) :
    (known.simplifyBinding binding).name = binding.name := by
  cases binding <;> rfl

theorem simplifyBinding_closure? {binding : Binding} {params : List Param}
    (h : binding.params? = some params) (frames : List Frame) :
    (known.simplifyBinding binding).closure? frames =
      some (.closure (params.map Param.name) (known.simplifyExpr binding.inner) frames) := by
  cases binding with
  | join name type params body =>
    obtain rfl := Option.some.inj h
    rfl
  | assign name type body =>
    rcases body.function_or_plain with ⟨params', inner, rfl⟩ | ⟨-, hparams, -⟩
    · obtain rfl := Option.some.inj h
      rfl
    · rw [Binding.params?, hparams] at h
      cases h

theorem find?_simplifyBindings_none {bindings : List Binding} {name : Name}
    (h : (bindings.find? fun binding => binding.name = name) = none) :
    ((known.simplifyBindings bindings).find? fun binding => binding.name = name) = none := by
  induction bindings with
  | nil => rfl
  | cons binding rest ih =>
    rw [List.find?_cons] at h
    split at h
    · cases h
    · rename_i hname
      rw [Analysis.simplifyBindings]
      split
      · exact ih h
      · rw [List.find?_cons_of_neg, ih h]
        rw [simplifyBinding_name, hname]
        exact Bool.false_ne_true

/-- A binding that is kept is still found. -/
theorem find?_simplifyBindings_some {bindings : List Binding} {name : Name} {binding : Binding}
    (h : (bindings.find? fun binding => binding.name = name) = some binding)
    (hkept : known.isInlined binding = false) :
    ((known.simplifyBindings bindings).find? fun binding => binding.name = name) =
      some (known.simplifyBinding binding) := by
  induction bindings with
  | nil => cases h
  | cons first rest ih =>
    rw [List.find?_cons] at h
    split at h
    · rename_i hname
      obtain rfl := Option.some.inj h
      rw [Analysis.simplifyBindings, if_neg (by rw [hkept]; exact Bool.false_ne_true),
        List.find?_cons_of_pos]
      rw [simplifyBinding_name]
      exact hname
    · rename_i hname
      rw [Analysis.simplifyBindings]
      split
      · exact ih h
      · rw [List.find?_cons_of_neg, ih h]
        rw [simplifyBinding_name, hname]
        exact Bool.false_ne_true

theorem isConstant_eq {name : Name} (h : known.isConstant name = true) :
    ∃ value, known.values.get? name = some (.constant value) := by
  rw [Analysis.isConstant] at h
  split at h
  · exact ⟨_, by assumption⟩
  · cases h

/-- An inlined binding is no function, and what it binds is constant. -/
theorem isInlined_eq {binding : Binding} (h : known.isInlined binding = true) :
    known.functionParams.get? binding.name = none ∧
      ∃ value, known.values.get? binding.name = some (.constant value) := by
  cases binding with
  | join name type params body => cases h
  | assign name type body =>
    rw [Analysis.isInlined, Bool.and_eq_true, Bool.and_eq_true] at h
    obtain ⟨⟨-, hfunction⟩, hconstant⟩ := h
    refine ⟨?_, ?_⟩
    · rw [Bool.not_eq_true', Table.contains, Option.isSome_eq_false_iff,
        Option.isNone_iff_eq_none] at hfunction
      exact hfunction
    · exact isConstant_eq hconstant

theorem simplifyBindings_eq_nil {bindings : List Binding}
    (h : known.simplifyBindings bindings = []) :
    ∀ binding ∈ bindings, known.isInlined binding = true := by
  induction bindings with
  | nil => exact fun _ hbinding => (List.not_mem_nil hbinding).elim
  | cons first rest ih =>
    rw [Analysis.simplifyBindings] at h
    split at h
    · rename_i hfirst
      exact List.forall_mem_cons.2 ⟨hfirst, ih h⟩
    · cases h

theorem BoundTo.of_none {name : Name} {datum : Datum} (h : BoundTo ns known name datum none)
    (found : Option Datum) : BoundTo ns known name datum found := by
  cases h with
  | dropped hname hvalue => exact .dropped hname hvalue

theorem Entries.pick_of_mem {names names' : List Name} {contents contents' : List Datum}
    (h : Entries ns known names contents names' contents') {name : Name} (hname : name ∈ names) :
    ∃ datum, pick name names contents = some datum ∧
      BoundTo ns known name datum (pick name names' contents') := by
  induction names generalizing contents names' contents' with
  | nil => cases hname
  | cons first rest ih =>
    by_cases heq : name = first
    · subst heq
      cases h with
      | kept hbound hrest =>
        rw [pick, if_pos rfl, pick, if_pos rfl]
        exact ⟨_, rfl, hbound⟩
      | dropped hbound hrest =>
        rw [pick, if_pos rfl]
        exact ⟨_, rfl, hbound.of_none _⟩
    · have hmem := (List.mem_cons.1 hname).resolve_left heq
      cases h with
      | kept hbound hrest =>
        rw [pick, if_neg heq, pick, if_neg heq]
        exact ih hrest hmem
      | dropped hbound hrest =>
        rw [pick, if_neg heq]
        exact ih hrest hmem

theorem Entries.pick_of_not_mem {names names' : List Name} {contents contents' : List Datum}
    (h : Entries ns known names contents names' contents') {name : Name} (hname : name ∉ names) :
    pick name names contents = none ∧ pick name names' contents' = none := by
  induction names generalizing contents names' contents' with
  | nil =>
    cases h
    exact ⟨rfl, rfl⟩
  | cons first rest ih =>
    rw [List.mem_cons, not_or] at hname
    cases h with
    | kept hbound hrest =>
      rw [pick, if_neg hname.1, pick, if_neg hname.1]
      exact ih hrest hname.2
    | dropped hbound hrest =>
      rw [pick, if_neg hname.1]
      exact ih hrest hname.2

section Scope

variable {front visible : List Name} {bindings : List Binding} {names : List Name}

theorem FrameScope.find?_of_not_mem (h : FrameScope ns known front visible bindings names)
    {name : Name} (hname : name ∉ front) :
    (bindings.find? fun binding => binding.name = name) = none := by
  rw [List.find?_eq_none]
  intro binding hbinding
  rw [decide_eq_true_iff]
  exact fun heq => hname (heq ▸ h.bound binding hbinding)

/-- A name that a frame does not bind is visible around it. -/
theorem FrameScope.outer (h : FrameScope ns known front visible bindings names) {name : Name}
    (hname : name ∈ front ++ visible) (hvalued : name ∉ names)
    (hfind : (bindings.find? fun binding => binding.name = name) = none) : name ∈ visible := by
  refine (List.mem_append.1 hname).resolve_left fun hfront => ?_
  rcases h.named name hfront with hmem | ⟨binding, hbinding, heq⟩
  · exact hvalued hmem
  · exact List.find?_eq_none.1 hfind binding hbinding (decide_eq_true heq)

/-- A function of a block can be called wherever the names of the block are visible. -/
theorem FrameScope.boundTo (h : FrameScope ns known front visible bindings names)
    {binding : Binding} (hbinding : binding ∈ bindings) {params : List Param}
    (hparams : binding.params? = some params) {frames frames' : List Frame}
    (hframes : RelatedFrames ns known (front ++ visible) frames frames') :
    BoundTo ns known binding.name (.closure (params.map Param.name) binding.inner frames)
      (some (.closure (params.map Param.name) (known.simplifyExpr binding.inner) frames')) := by
  have hnames : binding.paramNames = params.map Param.name := by
    rw [Binding.paramNames, hparams]
    rfl
  have hfits := h.fits binding hbinding
  obtain ⟨hname, hplain, hinner, hresult⟩ := h.covered binding hbinding
  rw [hnames] at hfits hplain
  rw [hparams] at hname
  exact .function hname ⟨hplain, hfits, h.typed binding hbinding, hinner⟩ hresult.below
    hframes

/-- Functions are not inlined. -/
theorem FrameScope.kept (h : FrameScope ns known front visible bindings names)
    {binding : Binding} (hbinding : binding ∈ bindings) {params : List Param}
    (hparams : binding.params? = some params) : known.isInlined binding = false := by
  rw [← Bool.not_eq_true]
  intro hinlined
  obtain ⟨hname, -, -, -⟩ := h.covered binding hbinding
  rw [(isInlined_eq hinlined).1, hparams] at hname
  cases hname

end Scope

section Frames

variable {visible : List Name} {frames frames' : List Frame}

/-- Names that are not visible are not bound. -/
theorem RelatedFrames.lookup_of_not_mem (h : RelatedFrames ns known visible frames frames')
    {name : Name} (hname : name ∉ visible) :
    lookup name frames = none ∧ lookup name frames' = none := by
  induction frames generalizing visible frames' with
  | nil =>
    cases h
    exact ⟨rfl, rfl⟩
  | cons frame rest ih =>
    cases h with
    | both hscope hentries hrest =>
      rw [List.mem_append, not_or] at hname
      obtain ⟨hpick, hpick'⟩ := hentries.pick_of_not_mem (mt (hscope.valued name) hname.1)
      have hfind := hscope.find?_of_not_mem hname.1
      rw [lookup_outer hpick hfind, lookup_outer hpick' (find?_simplifyBindings_none hfind)]
      exact ih hrest hname.2
    | skipped hscope hentries _ hrest =>
      rw [List.mem_append, not_or] at hname
      have hpick := (hentries.pick_of_not_mem (mt (hscope.valued name) hname.1)).1
      rw [lookup_outer hpick (hscope.find?_of_not_mem hname.1)]
      exact ih hrest hname.2

/-- A visible name has a value on both sides, unless it is not referred to any more. -/
theorem RelatedFrames.boundTo (h : RelatedFrames ns known visible frames frames') {name : Name}
    (hname : name ∈ visible) :
    lookup name frames = some none ∨ ∃ datum, lookup name frames = some (some datum) ∧
      BoundTo ns known name datum (lookup name frames').join := by
  induction frames generalizing visible frames' with
  | nil =>
    cases h
    cases hname
  | cons frame rest ih =>
    have hframes := h
    cases h with
    | both hscope hentries hrest =>
      rename_i front visible bindings names names' contents contents' rest'
      by_cases hmem : name ∈ names
      · obtain ⟨datum, hpick, hbound⟩ := hentries.pick_of_mem hmem
        refine .inr ⟨datum, lookup_picked hpick, ?_⟩
        cases hpick' : pick name names' contents' with
        | some datum' =>
          rw [hpick'] at hbound
          rw [lookup_picked hpick']
          exact hbound
        | none =>
          rw [hpick'] at hbound
          exact hbound.of_none _
      · obtain ⟨hpick, hpick'⟩ := hentries.pick_of_not_mem hmem
        cases hfind : bindings.find? fun binding => binding.name = name with
        | some binding =>
          have hbinding := List.mem_of_find?_eq_some hfind
          have heq : binding.name = name := by
            simpa using List.find?_some hfind
          rw [lookup_found hpick hfind, binding.closure?_eq]
          cases hparams : binding.params? with
          | none => exact .inl rfl
          | some params =>
            refine .inr ⟨_, rfl, ?_⟩
            rw [lookup_found hpick' (find?_simplifyBindings_some hfind
              (hscope.kept hbinding hparams)), simplifyBinding_closure? hparams, ← heq]
            exact hscope.boundTo hbinding hparams hframes
        | none =>
          rw [lookup_outer hpick hfind, lookup_outer hpick' (find?_simplifyBindings_none hfind)]
          exact ih hrest (hscope.outer hname hmem hfind)
    | skipped hscope hentries hbindings hrest =>
      rename_i front visible bindings names contents
      by_cases hmem : name ∈ names
      · obtain ⟨datum, hpick, hbound⟩ := hentries.pick_of_mem hmem
        exact .inr ⟨datum, lookup_picked hpick, hbound.of_none _⟩
      · have hpick := (hentries.pick_of_not_mem hmem).1
        cases hfind : bindings.find? fun binding => binding.name = name with
        | some binding =>
          have hbinding := List.mem_of_find?_eq_some hfind
          rw [lookup_found hpick hfind, binding.closure?_eq]
          cases hparams : binding.params? with
          | none => exact .inl rfl
          | some params =>
            have hkept := hscope.kept hbinding hparams
            rw [simplifyBindings_eq_nil hbindings binding hbinding] at hkept
            cases hkept
        | none =>
          rw [lookup_outer hpick hfind]
          exact ih hrest (hscope.outer hname hmem hfind)

/-! ## New frames -/

section Enter

variable {names : List Name} {contents contents' : List Datum}

theorem Entries.of_permits (hplain : ∀ name ∈ names, known.functionParams.get? name = none)
    (hpermits : Permits known names contents)
    (hrelated : List.Forall₂ (Related ns known) contents contents') :
    Entries ns known names contents names contents' := by
  induction hpermits generalizing contents' with
  | nil =>
    cases hrelated
    exact .nil
  | cons hallows _ ih =>
    rw [List.forall_mem_cons] at hplain
    cases hrelated with
    | cons hdatum hrest =>
      exact .kept (.plain hplain.1 hallows.reference hdatum) (ih hplain.2 hrest)

theorem Entries.of_constants (hplain : ∀ name ∈ names, known.functionParams.get? name = none)
    (hpermits : Permits known names contents)
    (hconstants : ∀ name ∈ names, known.isConstant name = true) :
    Entries ns known names contents [] [] := by
  induction hpermits with
  | nil => exact .nil
  | @cons name datum _ _ hallows _ ih =>
    rw [List.forall_mem_cons] at hplain hconstants
    obtain ⟨value, hvalue⟩ := isConstant_eq hconstants.1
    rw [Analysis.lookup, hvalue] at hallows
    obtain rfl : datum = .literal value := hallows
    exact .dropped (.dropped hplain.1 hvalue) (ih hplain.2 hconstants.2)

theorem FrameScope.of_names : FrameScope ns known names visible [] names where
  named _ hname := .inl hname
  valued _ hname := hname
  bound _ hbinding := (List.not_mem_nil hbinding).elim
  covered _ hbinding := (List.not_mem_nil hbinding).elim
  fits _ hbinding := (List.not_mem_nil hbinding).elim
  typed _ hbinding := (List.not_mem_nil hbinding).elim

/-- The frame of a call or of a case. -/
theorem RelatedFrames.enter (h : RelatedFrames ns known visible frames frames')
    (hplain : ∀ name ∈ names, known.functionParams.get? name = none)
    (hpermits : Permits known names contents)
    (hrelated : List.Forall₂ (Related ns known) contents contents') :
    RelatedFrames ns known (names ++ visible) (.mk [] names contents :: frames)
      (.mk [] names contents' :: frames') :=
  .both .of_names (.of_permits hplain hpermits hrelated) h

/-- The frame of a case that binds constants only. -/
theorem RelatedFrames.skip (h : RelatedFrames ns known visible frames frames')
    (hplain : ∀ name ∈ names, known.functionParams.get? name = none)
    (hpermits : Permits known names contents)
    (hconstants : ∀ name ∈ names, known.isConstant name = true) :
    RelatedFrames ns known (names ++ visible) (.mk [] names contents :: frames) frames' :=
  .skipped .of_names (.of_constants hplain hpermits hconstants) rfl h

end Enter

end Frames

end Related

end Lowered

end PolyFront
