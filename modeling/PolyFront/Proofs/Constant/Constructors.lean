import PolyFront.Proofs.Constant.Settled
import PolyFront.Proofs.Constant.Terminates

/-!
# Where constructors come from

The only values of an analysis that hold a constructor are those that declarations record for their
own constructors.  Operators give literals, and a join gives one of its operands or nothing that is
constant.  Hence what is known about any name holds a declared constructor, if it holds one at all,
however the names of a namespace are bound.
-/

namespace PolyFront

namespace Lattice

/-- The constructor that the value holds, if it holds one, is among the given ones. -/
def Among (declared : List ConstructorName) (value : Lattice) : Prop :=
  ∀ name ∈ value.constructor?, name ∈ declared

variable {declared : List ConstructorName} {left right : Lattice}

theorem among_of_none {value : Lattice} (h : value.constructor? = none) : value.Among declared := by
  intro name hname
  rw [h] at hname
  cases hname

theorem Among.join (hleft : left.Among declared) (hright : right.Among declared) :
    (left.join right).Among declared := by
  unfold Lattice.join
  split
  · exact among_of_none rfl
  · exact hright
  · exact hleft
  · exact hleft

/-- What is declared as it is used in a namespace without constructors holds none. -/
theorem Declared.among {value : Lattice} (h : value.Declared ⟨⟨[], ""⟩, []⟩) :
    value.Among declared := by
  cases value with
  | known name =>
    obtain ⟨fields, hfields, -⟩ := h
    cases hfields
  | constantConstructor name => cases h
  | _ => exact among_of_none rfl

end Lattice

/-- What is known about a name holds one of the given constructors, if it holds one. -/
def Analysis.Among (declared : List ConstructorName) (analysis : Analysis) : Prop :=
  ∀ name value, analysis.values.get? name = some value → value.Among declared

section Among

variable {declared : List ConstructorName} {analysis : Analysis}

theorem Analysis.Among.lookup (h : analysis.Among declared) (name : Name) :
    (analysis.lookup name).Among declared := by
  rw [Analysis.lookup]
  cases hvalue : analysis.values.get? name with
  | none => exact Lattice.among_of_none rfl
  | some value => exact h name value hvalue

theorem Analysis.Among.reference (h : analysis.Among declared) (name : Name) :
    (analysis.reference name).Among declared := by
  unfold Analysis.reference
  split
  · rename_i value hvalue
    exact h name value hvalue
  · split
    · exact Lattice.among_of_none rfl
    · exact Lattice.among_of_none rfl

end Among

namespace Lowered

/-! ## Runs -/

/-- The run keeps all constructors among the given ones, and what it returns is good. -/
def Keeps {α : Type} (declared : List ConstructorName) (run : Analyse α) (good : α → Prop) : Prop :=
  ∀ analysis : Analysis, analysis.Among declared →
    good (run analysis).1 ∧ (run analysis).2.Among declared

section Rules

variable {α β : Type} {declared : List ConstructorName} {good : α → Prop} {good' : β → Prop}

theorem Keeps.pure {a : α} (h : good a) : Keeps declared (Pure.pure a) good :=
  fun _ hamong => ⟨h, hamong⟩

theorem Keeps.bind {run : Analyse α} {next : α → Analyse β} (h : Keeps declared run good)
    (hnext : ∀ a, good a → Keeps declared (next a) good') : Keeps declared
        (run >>= next) good' := by
  intro analysis hamong
  obtain ⟨hgood, hafter⟩ := h analysis hamong
  exact hnext _ hgood _ hafter

/-- What a run looks at in an analysis holds the given constructors only. -/
theorem Keeps.get {next : Analysis → Analyse β}
    (h : ∀ seen : Analysis, seen.Among declared → Keeps declared (next seen) good') :
    Keeps declared (MonadState.get >>= next) good' := fun analysis hamong =>
  h analysis hamong analysis hamong

theorem Keeps.modify {change : Analysis → Analysis}
    (h : ∀ analysis, (change analysis).values = analysis.values) :
    Keeps declared (modify change) fun _ : PUnit => True := by
  intro analysis hamong
  refine ⟨True.intro, fun name value hvalue => hamong name value ?_⟩
  rw [← h analysis]
  exact hvalue

/-- A run of which the result is not used. -/
theorem Keeps.discard {run : Analyse α} (h : Keeps declared run good) :
    Keeps declared (do let _ ← run) fun _ : PUnit => True :=
  h.bind fun _ _ => Keeps.pure True.intro

theorem Keeps.forM {items : List α} {run : α → Analyse PUnit}
    (h : ∀ item ∈ items, Keeps declared (run item) fun _ => True) :
    Keeps declared (items.forM run) fun _ => True := by
  induction items with
  | nil => exact Keeps.pure True.intro
  | cons item rest ih =>
    rw [List.forall_mem_cons] at h
    exact h.1.bind fun _ _ => ih h.2

end Rules

/-! ## Records and calls -/

section Records

variable {declared : List ConstructorName}

/-- The run keeps all constructors among the given ones, and returns none but them. -/
abbrev KeepsValue (declared : List ConstructorName) (run : Analyse Lattice) : Prop :=
  Keeps declared run (Lattice.Among declared)

theorem keeps_record (name : Name) {value : Lattice} (h : value.Among declared) :
    KeepsValue declared (Analyse.record name value) := by
  intro analysis hamong
  show ((analysis.record name value).1).Among declared ∧
      (analysis.record name value).2.Among declared
  rcases analysis.record_cases name value with ⟨known, hknown, -, heq⟩ | ⟨raised, hraised, heq⟩
  · rw [heq]
    exact ⟨hamong name known hknown, hamong⟩
  · have hvalue : raised.Among declared := by
      rcases hraised with ⟨-, rfl⟩ | ⟨known, hknown, rfl, -⟩
      · exact h
      · exact (hamong name known hknown).join h
    rw [heq]
    refine ⟨hvalue, fun other found hfound => ?_⟩
    rw [Analysis.get?_raise] at hfound
    split at hfound
    · obtain rfl := Option.some.inj hfound
      exact hvalue
    · exact hamong other found hfound

theorem keeps_recordUnknown (params : List Name) :
    Keeps declared (Analyse.recordUnknown params) fun _ => True :=
  Keeps.forM fun p _ => (keeps_record p (Lattice.among_of_none rfl)).discard

theorem keeps_recordArgs (params : List Name) {args : List (Analyse Lattice)}
    (hargs : ∀ arg ∈ args, KeepsValue declared arg) :
    Keeps declared (Analyse.recordArgs params args) fun _ => True :=
  Keeps.forM fun pair hpair => (hargs pair.2 (List.of_mem_zip hpair).2).bind fun _ hvalue =>
    (keeps_record pair.1 hvalue).discard

theorem keeps_reference (name : Name) (type : Ty) :
    KeepsValue declared (Analyse.reference name type) := by
  unfold Analyse.reference
  split
  · exact Keeps.get fun _ _ => (keeps_recordUnknown _).bind fun _ _ =>
      Keeps.pure (Lattice.among_of_none rfl)
  · exact Keeps.get fun _ hseen => Keeps.pure (hseen.reference name)

theorem keeps_call (name : Name) {args : List (Analyse Lattice)}
    (hargs : ∀ arg ∈ args, KeepsValue declared arg) :
    KeepsValue declared (Analyse.call name args) := by
  refine Keeps.get fun seen _ => ?_
  split
  · refine (keeps_record name (Lattice.among_of_none rfl)).bind fun _ _ => Keeps.get fun _ _ => ?_
    refine (keeps_recordArgs _ hargs).bind fun _ _ => ?_
    refine (Keeps.modify fun analysis => ?_).bind fun _ _ =>
      Keeps.get fun _ hseen => Keeps.pure (hseen.lookup name)
    split
    · rfl
    · rfl
  · refine (Keeps.forM fun arg harg => (hargs arg harg).discard).bind fun _ _ => ?_
    exact Keeps.get fun _ hseen => Keeps.pure (hseen.reference name)

end Records

/-! ## Branches and blocks -/

section Branches

variable {declared : List ConstructorName}

theorem keeps_conditional (condition : Lattice) {consequent alternative : Analyse Lattice}
    (hconsequent : KeepsValue declared consequent)
        (halternative : KeepsValue declared alternative) :
    KeepsValue declared (Analyse.conditional condition consequent alternative) := by
  unfold Analyse.conditional
  split
  · exact Keeps.pure (Lattice.among_of_none rfl)
  · exact hconsequent
  · exact halternative
  · exact hconsequent.bind fun _ hleft => halternative.bind fun _ hright =>
      Keeps.pure (hleft.join hright)

mutual
theorem keeps_pattern : ∀ (pattern : Pattern) {value : Lattice}, value.Among declared →
    Keeps declared (Analyse.pattern value pattern) fun _ => True
  | .id name, _, h => (keeps_record name h).discard
  | .alias name inner, _, h => (keeps_record name h).bind fun _ _ => keeps_pattern inner h
  | .literal _, _, _ => Keeps.pure True.intro
  | .constructor _ fields, _, _ => keeps_fieldPatterns fields
theorem keeps_fieldPattern : ∀ field : FieldPattern,
    Keeps declared (Analyse.fieldPattern field) fun _ => True
  | ⟨_, inner⟩ => keeps_pattern inner (Lattice.among_of_none rfl)
theorem keeps_fieldPatterns : ∀ fields : List FieldPattern,
    Keeps declared (Analyse.fieldPatterns fields) fun _ => True
  | [] => Keeps.pure True.intro
  | field :: rest => (keeps_fieldPattern field).bind fun _ _ => keeps_fieldPatterns rest
end

theorem keeps_analyseCases {scrutinee : Lattice} (h : scrutinee.Among declared)
    {cases : List (Pattern × Analyse Lattice)} (hcases : ∀ case ∈ cases, KeepsValue declared case.2)
    {result : Lattice} (hresult : result.Among declared) :
    KeepsValue declared (analyseCases scrutinee cases result) := by
  unfold analyseCases
  induction cases generalizing result with
  | nil => exact Keeps.pure hresult
  | cons case rest ih =>
    rw [List.forall_mem_cons] at hcases
    rw [List.foldlM_cons]
    have hcase : KeepsValue declared (do
        Analyse.pattern scrutinee case.1
        pure (result.join (← case.2))) :=
      (keeps_pattern case.1 h).bind fun _ _ => hcases.1.bind fun _ hvalue =>
        Keeps.pure (hresult.join hvalue)
    exact hcase.bind fun _ hjoined => ih hcases.2 hjoined

theorem keeps_cases {scrutinee : Lattice} (h : scrutinee.Among declared) {cases : List Case}
    (hcases : ∀ case ∈ cases, KeepsValue declared (Analyse.expr case.body)) :
    KeepsValue declared (Analyse.cases scrutinee (Analyse.caseList cases)) := by
  rw [cases_eq]
  split
  · exact Keeps.pure (Lattice.among_of_none rfl)
  · rw [candidates_caseList, Analyse.caseList_eq]
    refine keeps_analyseCases h (fun entry hentry => ?_) (Lattice.among_of_none rfl)
    obtain ⟨case, hcase, rfl⟩ := List.mem_map.1 hentry
    exact hcases case ((sublist_candidates scrutinee cases).subset hcase)

theorem keeps_stabilise {pass : Analyse Lattice} (h : KeepsValue declared pass) (fuel : Nat) :
    KeepsValue declared (Analyse.stabilise pass fuel) := by
  induction fuel with
  | zero => exact h
  | succ fuel ih =>
    refine Keeps.get fun seen _ => h.bind fun value hvalue => Keeps.get fun after _ => ?_
    split
    · exact ih
    · exact Keeps.pure hvalue

theorem keeps_binding {binding : Binding} (h : KeepsValue declared (Analyse.expr binding.inner)) :
    Keeps declared (Analyse.binding binding) fun _ => True := by
  have hresult : Keeps declared (Analyse.recordResult binding.name (Analyse.expr binding.inner))
      fun _ => True := h.bind fun _ hvalue => (keeps_record binding.name hvalue).discard
  rw [Analyse.binding_eq]
  split
  · rename_i params _
    have hfunction : Keeps declared (Analyse.recordFunction binding.name params) fun _ => True :=
      Keeps.modify fun _ => rfl
    exact hfunction.bind fun _ _ => hresult
  · exact hresult

theorem keeps_bindingList {bindings : List Binding}
    (h : ∀ binding ∈ bindings, KeepsValue declared (Analyse.expr binding.inner)) :
    Keeps declared (Analyse.bindingList bindings) fun _ => True := by
  induction bindings with
  | nil => exact Keeps.pure True.intro
  | cons binding rest ih =>
    rw [List.forall_mem_cons] at h
    exact (keeps_binding h.1).bind fun _ _ => ih h.2

theorem keeps_apply {function : Value} {args : List (Analyse Lattice)}
    (hfunction : KeepsValue declared (Analyse.value function))
    (hbody : ∀ params body, function = .lambda params body →
      KeepsValue declared (Analyse.expr body))
    (hargs : ∀ arg ∈ args, KeepsValue declared arg) :
    KeepsValue declared (Analyse.apply args function) := by
  have hunused : Keeps declared (args.forM fun arg => do let _ ← arg) fun _ => True :=
    Keeps.forM fun arg harg => (hargs arg harg).discard
  cases function with
  | reference name type => exact keeps_call name hargs
  | lambda params body => exact (keeps_recordArgs _ hargs).bind fun _ _ => hbody params body rfl
  | literal value => exact hunused.bind fun _ _ => Keeps.pure (Lattice.among_of_none rfl)
  | box inner => exact hunused.bind fun _ _ => hfunction
  | unbox inner => exact hunused.bind fun _ _ => hfunction

end Branches

/-! ## Code -/

/-- The analysis of code records declared constructors only. -/
theorem keeps_all (declared : List ConstructorName) :
    (∀ value, KeepsValue declared (Analyse.value value)) ∧
      ∀ expr, KeepsValue declared (Analyse.expr expr) := by
  have hnone : ∀ {value : Lattice}, value.constructor? = none → value.Among declared :=
    Lattice.among_of_none
  refine induct ?_ ?_ ?_ ?_ ?_ ?_ ?_ ?_ ?_ ?_ ?_ ?_
  · exact fun value => Keeps.pure (hnone rfl)
  · exact fun name type => keeps_reference name type
  · exact fun params body ih => (keeps_recordUnknown _).bind fun _ _ =>
      Keeps.bind ih fun _ _ => Keeps.pure (hnone rfl)
  · exact fun value ih => Keeps.bind ih fun _ _ => Keeps.pure (hnone rfl)
  · exact fun value ih => Keeps.bind ih fun _ _ => Keeps.pure (hnone rfl)
  · exact fun value ih => ih
  · intro type function args ihFunction ihBody ihArgs
    refine keeps_apply ihFunction ihBody fun arg harg => ?_
    rw [Analyse.values_eq, List.mem_map] at harg
    obtain ⟨value, hvalue, rfl⟩ := harg
    exact ihArgs value hvalue
  · exact fun op operand ih => Keeps.bind ih fun _ _ => Keeps.pure (declared_unary op _).among
  · exact fun left op right ihLeft ihRight => Keeps.bind ihLeft fun _ _ =>
      Keeps.bind ihRight fun _ _ => Keeps.pure (declared_binary _ op _).among
  · exact fun condition consequent alternative ihCondition ihConsequent ihAlternative =>
      Keeps.bind ihCondition fun value _ => keeps_conditional value ihConsequent ihAlternative
  · exact fun scrutinee cases ihScrutinee ihCases =>
      Keeps.bind ihScrutinee fun _ hvalue => keeps_cases hvalue ihCases
  · exact fun bindings result ihBindings ihResult => Keeps.get fun _ _ =>
      keeps_stabilise ((keeps_bindingList ihBindings).bind fun _ _ => ihResult) _

/-! ## Namespaces -/

section Namespaces

variable {ns : Namespace}

/-- The constructors that the namespace declares. -/
def Namespace.constructorNames (ns : Namespace) : List ConstructorName :=
  ns.constructors.map Constructor.name

theorem keeps_constructor {c : Constructor} (hc : c ∈ ns.constructors) :
    Keeps ns.constructorNames (Analyse.constructor c) fun _ => True := by
  have hdeclared : c.known.Among ns.constructorNames := by
    intro name hname
    have heq : c.known.constructor? = some c.name := by
      unfold Constructor.known
      split <;> rfl
    rw [heq] at hname
    rw [← Option.some.inj hname]
    exact List.mem_map_of_mem hc
  refine (Keeps.modify fun _ => ?_).bind fun _ _ => (keeps_record _ hdeclared).discard
  rfl

theorem keeps_declare {declaration : Declaration} (h : declaration ∈ ns.declarations) :
    Keeps ns.constructorNames (Analyse.declare declaration) fun _ => True := by
  cases declaration with
  | data d =>
    refine Keeps.forM fun c hc => keeps_constructor (List.mem_flatMap.2 ⟨_, h, hc⟩)
  | definition d => exact Keeps.modify fun _ => rfl

theorem keeps_schedule (declared : List ConstructorName) (index : Nat) (d : Definition) :
    Keeps declared (Analyse.schedule index d) fun _ => True := by
  intro analysis h
  obtain ⟨values, changes, functions, heq, hvalues, -⟩ := schedule_eq index d analysis
  refine ⟨True.intro, fun name value hvalue => ?_⟩
  rw [heq, hvalues] at hvalue
  split at hvalue
  · obtain rfl := Option.some.inj hvalue
    exact Lattice.among_of_none rfl
  · exact h name value hvalue

theorem keeps_scheduleAll :
    Keeps ns.constructorNames (Analyse.scheduleAll ns.declarations) fun _ => True := by
  refine (Keeps.forM fun declaration h => keeps_declare h).bind fun _ _ => ?_
  refine Keeps.forM fun place _ => ?_
  obtain ⟨_ | d, index⟩ := place
  · exact Keeps.pure True.intro
  · exact keeps_schedule _ index d

theorem keeps_definition (declared : List ConstructorName) (name : Name) (d : Definition) :
    Keeps declared (Analyse.definition name d) fun _ => True := by
  refine Keeps.get fun before _ => ((keeps_all declared).2 d.body.inner).bind fun value hvalue => ?_
  refine (keeps_record name hvalue).bind fun after _ => ?_
  split
  · exact Keeps.modify fun _ => rfl
  · exact Keeps.pure True.intro

/-- Every step of the worklist keeps the constructors, and so does the whole run. -/
theorem Drains.among {declared : List ConstructorName} {declarations : List Declaration}
    {before last : Analysis} (h : Drains declarations before last)
    (hbefore : before.Among declared) : last.Among declared := by
  induction h with
  | empty _ => exact hbefore
  | @next before mid last name rest _ hrun _ _ ih =>
    refine ih ?_
    have hpopped : Analysis.Among declared { before with worklist := rest } := hbefore
    rcases Analyse.scheduled_cases hrun with rfl | ⟨index, d, -, -, rfl⟩
    · exact hpopped
    · exact (keeps_definition declared name d _ hpopped).2

/-- The analysis of a namespace ends, and every constant constructor that it knows about is one of
the namespace. -/
theorem declarations_among (ns : Namespace) :
    ∃ known, Analyse.declarations ns.declarations Analysis.start = .ok () known ∧
      known.Among ns.constructorNames := by
  obtain ⟨known, hrun, -, hdrains⟩ := declarations_drained ns.declarations
  have hstart : Analysis.start.Among ns.constructorNames := nofun
  exact ⟨known, hrun, hdrains.among (keeps_scheduleAll _ hstart).2⟩

end Namespaces

end Lowered

end PolyFront
