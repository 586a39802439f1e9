import Mathlib.Data.List.Nodup
import PolyFront.Constant.Worklist
import PolyFront.Proofs.Constant.Moves

/-!
# Where the analysis of a namespace starts

Before any definition is analysed, its constructors are known to be constants or not, the
parameters of its functions may be anything, and every definition has a place, is recorded as a
dependent of the names that it leaves free, and is on the worklist.
-/

namespace PolyFront

namespace Analyse

/-- What the worklist names is looked up first among the places, then among the declarations. -/
theorem scheduled_apply (declarations : List Lowered.Declaration) (name : Name)
    (analysis : Analysis) : scheduled declarations name analysis =
      (match analysis.positions.get? name with
        | none => pure ()
        | some index =>
          match declarations[index]? with
          | none => throw (.noDeclaration declarations.length index)
          | some (.data _) => pure ()
          | some (.definition d) => definition name d : Run Analysis Unit) analysis :=
  rfl

/-- What the worklist names is skipped, or the definition at its place is analysed under its
name. -/
theorem scheduled_cases {declarations : List Lowered.Declaration} {name : Name}
    {analysis after : Analysis} (h : scheduled declarations name analysis = .ok () after) :
    after = analysis ∨ ∃ index d, analysis.positions.get? name = some index ∧
      declarations[index]? = some (.definition d) ∧ after = (definition name d analysis).2 := by
  rw [scheduled_apply] at h
  cases hindex : analysis.positions.get? name with
  | none =>
    rw [hindex] at h
    exact .inl (EStateM.Result.ok.inj h).2.symm
  | some index =>
    rw [hindex] at h
    cases hdeclaration : declarations[index]? with
    | none =>
      simp only [hdeclaration] at h
      cases h
    | some declaration =>
      simp only [hdeclaration] at h
      cases declaration with
      | data d => exact .inl (EStateM.Result.ok.inj h).2.symm
      | definition d =>
        exact .inr ⟨index, d, rfl, hdeclaration, (EStateM.Result.ok.inj h).2.symm⟩

/-- The first name on the worklist is taken off it and analysed, and then the others. -/
theorem drain_succ (declarations : List Lowered.Declaration) (fuel : Nat) (analysis : Analysis) :
    drain declarations (fuel + 1) analysis =
      (match analysis.worklist with
        | [] => pure ()
        | name :: rest => do
          modify fun analysis => { analysis with worklist := rest }
          scheduled declarations name
          drain declarations fuel : Run Analysis Unit) analysis :=
  rfl

end Analyse

namespace Multimap

variable {κ ν : Type} [BEq κ] [LawfulBEq κ] [BEq ν] [LawfulBEq ν]

/-- The values of a key after a pair was added. -/
theorem get_insert_cases (multimap : Multimap κ ν) (key other : κ) (value : ν) :
    (multimap.insert key value).get other = multimap.get other ∧
        (other = key → value ∈ multimap.get key) ∨
      other = key ∧ value ∉ multimap.get key ∧
        (multimap.insert key value).get other = multimap.get key ++ [value] := by
  unfold insert
  split
  · rename_i hcontains
    exact .inl ⟨rfl, fun _ => List.contains_iff_mem.1 hcontains⟩
  · rename_i hcontains
    rw [get, Table.get?_insert]
    by_cases heq : other = key
    · rw [if_pos (beq_iff_eq.2 heq)]
      exact .inr ⟨heq, fun hmem => hcontains (List.contains_iff_mem.2 hmem), rfl⟩
    · rw [if_neg fun h => heq (eq_of_beq h)]
      exact .inl ⟨rfl, fun h => (heq h).elim⟩

theorem mem_get_extend {multimap : Multimap κ ν} {pairs : List (κ × ν)} {key : κ} {value : ν} :
    value ∈ (multimap.extend pairs).get key ↔
      value ∈ multimap.get key ∨ (key, value) ∈ pairs := by
  induction pairs generalizing multimap with
  | nil => simp [extend]
  | cons pair rest ih =>
    obtain ⟨key', value'⟩ := pair
    have hfirst : value ∈ (multimap.insert key' value').get key ↔
        value ∈ multimap.get key ∨ (key, value) = (key', value') := by
      rw [Prod.mk.injEq]
      rcases multimap.get_insert_cases key' key value' with ⟨heq, hold⟩ | ⟨rfl, -, heq⟩
      · rw [heq]
        refine ⟨.inl, fun hor => hor.elim id ?_⟩
        rintro ⟨rfl, rfl⟩
        exact hold rfl
      · rw [heq, List.mem_append, List.mem_singleton]
        simp
    rw [List.mem_cons, ← or_assoc, ← hfirst]
    exact ih

theorem nodup_get_extend {multimap : Multimap κ ν} {pairs : List (κ × ν)}
    (h : ∀ key, (multimap.get key).Nodup) (key : κ) : ((multimap.extend pairs).get key).Nodup := by
  induction pairs generalizing multimap with
  | nil => exact h key
  | cons pair rest ih =>
    refine ih fun other => ?_
    rcases multimap.get_insert_cases pair.1 other pair.2 with ⟨heq, -⟩ | ⟨-, hnew, heq⟩
    · rw [heq]
      exact h other
    · rw [heq]
      refine List.nodup_append.2 ⟨h _, by simp, fun a ha b hb hsame => ?_⟩
      rw [List.mem_singleton.1 hb] at hsame
      exact hnew (hsame ▸ ha)

end Multimap

namespace Lowered

/-- What is known about a constructor. -/
def Constructor.known (constructor : Constructor) : Lattice :=
  if constructor.fields.isEmpty then .constantConstructor constructor.name
  else .known constructor.name

/-! ## Records -/

/-- A record of a name that may be anything. -/
theorem get?_recordUnknown (params : List Name) (analysis : Analysis) (name : Name) :
    (Analyse.recordUnknown params analysis).2.values.get? name =
      if name ∈ params then some .nonConstant else analysis.values.get? name := by
  induction params generalizing analysis with
  | nil => rfl
  | cons first rest ih =>
    have hfirst : (analysis.record first .nonConstant).2.values.get? name =
        if name = first then some .nonConstant else analysis.values.get? name := by
      rcases analysis.record_cases first .nonConstant with ⟨known, hknown, hjoin, heq⟩ |
        ⟨raised, hraised, heq⟩
      · rw [heq]
        split
        · rename_i hname
          rw [hname, hknown, ← hjoin]
          cases known <;> rfl
        · rfl
      · rw [heq, Analysis.get?_raise]
        have htop : raised = .nonConstant := by
          rcases hraised with ⟨-, rfl⟩ | ⟨known, -, rfl, -⟩
          · rfl
          · cases known <;> rfl
        rw [htop]
    refine (ih (analysis.record first .nonConstant).2).trans ?_
    rw [hfirst]
    by_cases hrest : name ∈ rest
    · rw [if_pos hrest, if_pos (List.mem_cons_of_mem _ hrest)]
    · rw [if_neg hrest]
      simp [hrest]

/-- A record leaves all but the values alone. -/
theorem record_rest (analysis : Analysis) (name : Name) (value : Lattice) :
    ∃ values changes, (analysis.record name value).2 =
      { analysis with values := values, changes := changes } := by
  rcases analysis.record_cases name value with ⟨known, -, -, heq⟩ | ⟨raised, -, heq⟩
  · exact ⟨analysis.values, analysis.changes, by rw [heq]⟩
  · exact ⟨_, _, by rw [heq]; rfl⟩

theorem recordUnknown_rest (params : List Name) (analysis : Analysis) :
    ∃ values changes, (Analyse.recordUnknown params analysis).2 =
      { analysis with values := values, changes := changes } := by
  induction params generalizing analysis with
  | nil => exact ⟨analysis.values, analysis.changes, rfl⟩
  | cons first rest ih =>
    obtain ⟨values, changes, heq⟩ := record_rest analysis first .nonConstant
    obtain ⟨values', changes', heq'⟩ := ih (analysis.record first .nonConstant).2
    refine ⟨values', changes', heq'.trans ?_⟩
    rw [heq]

/-! ## Declarations -/

/-- Some constructors and names are declared. -/
structure Begun (constructors : List Constructor) (names : List Name) (analysis : Analysis) :
    Prop where
  values : ∀ name value, analysis.values.get? name = some value ↔
    ∃ c ∈ constructors, name = .constructor c.name ∧ value = c.known
  bound : ∀ name, name ∈ analysis.bound ↔
    (∃ c ∈ constructors, name = .constructor c.name) ∨ name ∈ names
  functions : analysis.functionParams = Table.empty
  positions : analysis.positions = Table.empty
  dependents : analysis.dependents = Multimap.empty

theorem begun_start : Begun [] [] Analysis.start :=
  ⟨fun _ _ => ⟨nofun, fun ⟨_, h, _⟩ => (List.not_mem_nil h).elim⟩,
    fun _ => ⟨nofun, fun h => h.elim (fun ⟨_, h, _⟩ => (List.not_mem_nil h).elim) nofun⟩,
    rfl, rfl, rfl⟩

section Begun

variable {constructors : List Constructor} {names : List Name} {analysis : Analysis}

theorem Begun.constructor (h : Begun constructors names analysis) {c : Constructor}
    (hnew : ∀ other ∈ constructors, other.name ≠ c.name) :
    Begun (constructors ++ [c]) names (Analyse.constructor c analysis).2 := by
  let mid := { analysis with bound := analysis.bound ++ [Name.constructor c.name] }
  have hnone : mid.values.get? (.constructor c.name) = none := by
    cases hvalue : analysis.values.get? (.constructor c.name) with
    | none => rfl
    | some value =>
      obtain ⟨other, hother, heq, -⟩ := (h.values _ _).1 hvalue
      exact (hnew other hother (Name.constructor.inj heq).symm).elim
  have hrecord : (Analyse.constructor c analysis).2 = mid.raise (.constructor c.name) c.known := by
    show (mid.record (.constructor c.name) c.known).2 = _
    rcases mid.record_cases (.constructor c.name) c.known with ⟨known, hknown, -⟩ |
      ⟨raised, ⟨-, rfl⟩ | ⟨known, hknown, -⟩, heq⟩
    · rw [hnone] at hknown
      cases hknown
    · rw [heq]
    · rw [hnone] at hknown
      cases hknown
  rw [hrecord]
  refine ⟨fun name value => ?_, fun name => ?_, h.functions, h.positions, h.dependents⟩
  · rw [Analysis.get?_raise]
    split
    · rename_i heq
      subst heq
      refine ⟨fun hvalue => ⟨c, List.mem_append_right _ List.mem_cons_self, rfl,
        (Option.some.inj hvalue).symm⟩, ?_⟩
      rintro ⟨other, hother, heq, rfl⟩
      rcases List.mem_append.1 hother with hother | hother
      · exact (hnew other hother (Name.constructor.inj heq).symm).elim
      · rw [List.mem_singleton.1 hother]
    · rename_i hne
      rw [h.values]
      refine ⟨fun ⟨other, hother, heq⟩ => ⟨other, List.mem_append_left _ hother, heq⟩, ?_⟩
      rintro ⟨other, hother, heq, hvalue⟩
      rcases List.mem_append.1 hother with hother | hother
      · exact ⟨other, hother, heq, hvalue⟩
      · rw [List.mem_singleton.1 hother] at heq
        exact (hne heq).elim
  · show name ∈ analysis.bound ++ [Name.constructor c.name] ↔ _
    rw [List.mem_append, h.bound, List.mem_singleton]
    constructor
    · rintro ((⟨other, hother, heq⟩ | hname) | heq)
      · exact .inl ⟨other, List.mem_append_left _ hother, heq⟩
      · exact .inr hname
      · exact .inl ⟨c, List.mem_append_right _ List.mem_cons_self, heq⟩
    · rintro (⟨other, hother, heq⟩ | hname)
      · rcases List.mem_append.1 hother with hother | hother
        · exact .inl (.inl ⟨other, hother, heq⟩)
        · rw [List.mem_singleton.1 hother] at heq
          exact .inr heq
      · exact .inl (.inr hname)

theorem Begun.data (h : Begun constructors names analysis) (more : List Constructor)
    (hdistinct : ((constructors ++ more).map Constructor.name).Nodup) :
    Begun (constructors ++ more) names (more.forM Analyse.constructor analysis).2 := by
  induction more generalizing constructors analysis with
  | nil =>
    rw [List.append_nil]
    exact h
  | cons c rest ih =>
    rw [List.append_cons] at hdistinct ⊢
    refine ih (h.constructor fun other hother heq => ?_) hdistinct
    rw [List.map_append, List.map_append] at hdistinct
    have hfirst := (List.nodup_append.1 hdistinct).1
    exact (List.nodup_append.1 hfirst).2.2 _ (List.mem_map_of_mem hother) c.name
      (List.mem_singleton.2 rfl) heq

theorem Begun.definition (h : Begun constructors names analysis) (d : Definition) :
    Begun constructors (names ++ [.binding d.name])
        (Analyse.declare (.definition d) analysis).2 := by
  refine ⟨h.values, fun name => ?_, h.functions, h.positions, h.dependents⟩
  show name ∈ analysis.bound ++ [Name.binding d.name] ↔ _
  rw [List.mem_append, h.bound, List.mem_append, or_assoc]

theorem Begun.declare (h : Begun constructors names analysis) (declarations : List Declaration)
    (hdistinct : ((constructors ++ declarations.flatMap Declaration.constructors).map
      Constructor.name).Nodup) :
    Begun (constructors ++ declarations.flatMap Declaration.constructors)
      (names ++ (declarations.flatMap Declaration.definitions).map fun d => .binding d.name)
      (declarations.forM Analyse.declare analysis).2 := by
  induction declarations generalizing constructors names analysis with
  | nil =>
    rw [List.flatMap_nil, List.flatMap_nil, List.map_nil, List.append_nil, List.append_nil]
    exact h
  | cons declaration rest ih =>
    rw [List.flatMap_cons, ← List.append_assoc] at hdistinct ⊢
    rw [List.flatMap_cons, List.map_append, ← List.append_assoc]
    cases declaration with
    | data d =>
      have hown := h.data d.constructors (hdistinct.sublist
        ((List.sublist_append_left _ _).map _))
      have hrest := ih hown hdistinct
      rw [show (Declaration.data d).definitions.map _ = [] from rfl, List.append_nil]
      exact hrest
    | definition d =>
      rw [show (Declaration.definition d).constructors = [] from rfl, List.append_nil]
          at hdistinct ⊢
      exact ih (h.definition d) hdistinct

end Begun

/-! ## Definitions -/

/-- The names of the parameters of a definition that is a function. -/
def Definition.paramNames (d : Definition) : List Name :=
  (d.body.params?.getD []).map Param.name

/-- Some definitions are scheduled. -/
structure Scheduled (ns : Namespace) (done : List Definition) (analysis : Analysis) : Prop where
  constructors : ∀ c ∈ ns.constructors,
    analysis.values.get? (.constructor c.name) = some c.known
  values : ∀ name value, analysis.values.get? name = some value →
    (∃ c ∈ ns.constructors, name = .constructor c.name ∧ value = c.known) ∨
      ∃ d ∈ done, name ∈ d.paramNames ∧ value = .nonConstant
  unknown : ∀ d ∈ done, ∀ p ∈ d.paramNames, analysis.lookup p = .nonConstant
  functions : ∀ name params, analysis.functionParams.get? name = some params →
    ∃ d ∈ done, name = .binding d.name
  recorded : ∀ d ∈ done, analysis.functionParams.get? (.binding d.name) =
    d.body.params?.map fun params => params.map Param.name
  positions : ∀ name index, analysis.positions.get? name = some index →
    ∃ d ∈ done, name = .binding d.name ∧ ns.declarations[index]? = some (.definition d)
  placed : ∀ d ∈ done, analysis.positions.get? (.binding d.name) ≠ none
  dependents : ∀ free name, name ∈ analysis.dependents.get free ↔
    ∃ d ∈ done, name = .binding d.name ∧ free ∈ d.freeVariables
  distinct : ∀ free, (analysis.dependents.get free).Nodup
  worklist : ∀ d ∈ done, .binding d.name ∈ analysis.worklist
  bound : ∀ name, name ∈ analysis.bound ↔
    (∃ c ∈ ns.constructors, name = .constructor c.name) ∨
      (∃ d ∈ ns.definitions, name = .binding d.name) ∨ ∃ d ∈ done, name ∈ d.body.boundNames

section Scheduled

variable {ns : Namespace} {done : List Definition} {analysis : Analysis}

theorem Begun.scheduled (h : Begun ns.constructors
    (ns.definitions.map fun d => .binding d.name) analysis) : Scheduled ns [] analysis where
  constructors c hc := (h.values _ _).2 ⟨c, hc, rfl, rfl⟩
  values name value hvalue := .inl ((h.values _ _).1 hvalue)
  unknown _ hd := (List.not_mem_nil hd).elim
  functions name params hparams := by
    rw [h.functions] at hparams
    cases hparams
  recorded _ hd := (List.not_mem_nil hd).elim
  positions name index hindex := by
    rw [h.positions] at hindex
    cases hindex
  placed _ hd := (List.not_mem_nil hd).elim
  dependents free name := by
    rw [h.dependents]
    exact ⟨nofun, fun ⟨_, hd, _⟩ => (List.not_mem_nil hd).elim⟩
  distinct free := by
    rw [h.dependents]
    exact List.nodup_nil
  worklist _ hd := (List.not_mem_nil hd).elim
  bound name := by
    rw [h.bound, List.mem_map]
    refine or_congr_right ⟨fun ⟨d, hd, heq⟩ => .inl ⟨d, hd, heq.symm⟩, ?_⟩
    rintro (⟨d, hd, heq⟩ | ⟨d, hd, -⟩)
    · exact ⟨d, hd, heq.symm⟩
    · cases hd

/-- What the scheduling of a definition changes. -/
theorem schedule_eq (index : Nat) (d : Definition) (analysis : Analysis) :
    ∃ values changes functions, (Analyse.schedule index d analysis).2 =
        { values := values, changes := changes, functionParams := functions
          worklist := analysis.worklist ++ [.binding d.name]
          positions := analysis.positions.insert (.binding d.name) index
          dependents := analysis.dependents.extend
            (d.freeVariables.map fun free => (free, .binding d.name))
          bound := analysis.bound ++ d.body.boundNames } ∧
      (∀ name, values.get? name =
        if name ∈ d.paramNames then some .nonConstant else analysis.values.get? name) ∧
      ∀ name, functions.get? name = if name = .binding d.name ∧ d.body.params? ≠ none then
        d.body.params?.map fun params => params.map Param.name
        else analysis.functionParams.get? name := by
  let mid := { analysis with
    dependents := analysis.dependents.extend (d.freeVariables.map fun free =>
      (free, Name.binding d.name))
    bound := analysis.bound ++ d.body.boundNames }
  cases hparams : d.body.params? with
  | none =>
    refine ⟨mid.values, mid.changes, mid.functionParams, ?_, fun name => ?_, fun name => ?_⟩
    · unfold Analyse.schedule
      rw [hparams]
      rfl
    · rw [Definition.paramNames, hparams]
      rfl
    · rw [if_neg fun h => h.2 rfl]
  | some params =>
    obtain ⟨values, changes, heq⟩ := recordUnknown_rest (params.map Param.name) mid
    refine ⟨values, changes, mid.functionParams.insert (.binding d.name) (params.map Param.name),
      ?_, fun name => ?_, fun name => ?_⟩
    · unfold Analyse.schedule
      rw [hparams]
      let finish (after : Analysis) : Analysis := { after with
        functionParams := after.functionParams.insert (.binding d.name) (params.map Param.name)
        positions := after.positions.insert (.binding d.name) index
        worklist := after.worklist ++ [.binding d.name] }
      show finish (Analyse.recordUnknown (params.map Param.name) mid).2 = _
      rw [heq]
    · have hget := get?_recordUnknown (params.map Param.name) mid name
      rw [heq] at hget
      rw [Definition.paramNames, hparams]
      exact hget
    · rw [Table.get?_insert]
      by_cases hname : name = .binding d.name
      · rw [if_pos (beq_iff_eq.2 hname), if_pos ⟨hname, nofun⟩]
        rfl
      · rw [if_neg fun h => hname (eq_of_beq h), if_neg fun h => hname h.1]

theorem Scheduled.schedule (h : Scheduled ns done analysis) {index : Nat} {d : Definition}
    (hindex : ns.declarations[index]? = some (.definition d))
    (hnew : ∀ other ∈ done, other.name ≠ d.name)
    (hparams : ∀ p ∈ d.paramNames, p ∉ ns.constructors.map fun c => Name.constructor c.name) :
    Scheduled ns (done ++ [d]) (Analyse.schedule index d analysis).2 := by
  obtain ⟨values, changes, functions, heq, hvalues, hfunctions⟩ := schedule_eq index d analysis
  rw [heq]
  have hmem : ∀ {P : Definition → Prop}, (∃ other ∈ done ++ [d], P other) ↔
      (∃ other ∈ done, P other) ∨ P d := by
    intro P
    simp only [List.mem_append, List.mem_singleton, or_and_right, exists_or, exists_eq_left]
  have hall : ∀ {P : Definition → Prop}, (∀ other ∈ done, P other) → P d →
      ∀ other ∈ done ++ [d], P other := by
    intro P hdone hd other hother
    rcases List.mem_append.1 hother with hother | hother
    · exact hdone other hother
    · rw [List.mem_singleton.1 hother]
      exact hd
  have hother : ∀ other ∈ done, Name.binding other.name ≠ Name.binding d.name := fun other ho heq =>
    hnew other ho (Name.binding.inj heq)
  constructor
  case constructors =>
    intro c hc
    show values.get? _ = _
    rw [hvalues, if_neg fun hp => hparams _ hp (List.mem_map_of_mem hc)]
    exact h.constructors c hc
  case values =>
    intro name value hvalue
    have hvalue : values.get? name = some value := hvalue
    rw [hvalues] at hvalue
    rw [hmem]
    split at hvalue
    · rename_i hp
      exact .inr (.inr ⟨hp, (Option.some.inj hvalue).symm⟩)
    · exact (h.values name value hvalue).imp_right .inl
  case unknown =>
    have hlookup : ∀ p, analysis.lookup p = .nonConstant ∨ p ∈ d.paramNames →
        (values.get? p).getD .unassigned = .nonConstant := by
      intro p hp
      rw [hvalues]
      split
      · rfl
      · rename_i hnone
        exact hp.resolve_right hnone
    exact hall (fun other ho p hp => hlookup p (.inl (h.unknown other ho p hp)))
      fun p hp => hlookup p (.inr hp)
  case functions =>
    intro name params hfunction
    have hfunction : functions.get? name = some params := hfunction
    rw [hfunctions] at hfunction
    rw [hmem]
    split at hfunction
    · rename_i hname
      exact .inr hname.1
    · exact .inl (h.functions name params hfunction)
  case recorded =>
    refine hall (fun other ho => ?_) ?_
    · show functions.get? _ = _
      rw [hfunctions, if_neg fun hname => hother other ho hname.1]
      exact h.recorded other ho
    · show functions.get? _ = _
      rw [hfunctions]
      split
      · rfl
      · rename_i hname
        have hnone : d.body.params? = none := by_contra fun hne => hname ⟨rfl, hne⟩
        rw [hnone]
        cases hold : analysis.functionParams.get? (.binding d.name) with
        | none => rfl
        | some params =>
          obtain ⟨other, ho, heq⟩ := h.functions _ _ hold
          exact (hother other ho heq.symm).elim
  case positions =>
    intro name found hfound
    have hfound : (analysis.positions.insert (.binding d.name) index).get? name = some found :=
      hfound
    rw [Table.get?_insert] at hfound
    rw [hmem]
    split at hfound
    · rename_i hname
      exact .inr ⟨eq_of_beq hname, Option.some.inj hfound ▸ hindex⟩
    · exact .inl (h.positions name found hfound)
  case placed =>
    have hplaced : ∀ name, name = .binding d.name ∨ analysis.positions.get? name ≠ none →
        (analysis.positions.insert (.binding d.name) index).get? name ≠ none := by
      intro name hname
      rw [Table.get?_insert]
      split
      · exact nofun
      · rename_i hne
        exact hname.resolve_left fun heq => hne (beq_iff_eq.2 heq)
    exact hall (fun other ho => hplaced _ (.inr (h.placed other ho))) (hplaced _ (.inl rfl))
  case dependents =>
    intro free name
    show name ∈ (analysis.dependents.extend _).get free ↔ _
    rw [Multimap.mem_get_extend, h.dependents, hmem, List.mem_map]
    refine or_congr_right ⟨?_, ?_⟩
    · rintro ⟨other, hother, heq⟩
      obtain ⟨rfl, rfl⟩ := Prod.mk.inj heq
      exact ⟨rfl, hother⟩
    · rintro ⟨rfl, hfree⟩
      exact ⟨free, hfree, rfl⟩
  case distinct => exact fun free => Multimap.nodup_get_extend h.distinct free
  case worklist =>
    exact hall (fun other ho => List.mem_append_left _ (h.worklist other ho))
      (List.mem_append_right _ List.mem_cons_self)
  case bound =>
    intro name
    show name ∈ analysis.bound ++ d.body.boundNames ↔ _
    rw [List.mem_append, h.bound, hmem, or_assoc, or_assoc]

/-- All definitions of a list of declarations are scheduled one after the other. -/
theorem Scheduled.scheduleList (h : Scheduled ns done analysis)
    (places : List (Declaration × Nat))
    (hplaces : ∀ place ∈ places, ns.declarations[place.2]? = some place.1)
    (hdistinct : ((done ++ (places.map Prod.fst).flatMap Declaration.definitions).map
      Definition.name).Nodup)
    (hparams : ∀ d ∈ (places.map Prod.fst).flatMap Declaration.definitions, ∀ p ∈ d.paramNames,
      p ∉ ns.constructors.map fun c => Name.constructor c.name) :
    Scheduled ns (done ++ (places.map Prod.fst).flatMap Declaration.definitions)
      (places.forM (fun (declaration, index) =>
        match declaration with
        | .data _ => pure ()
        | .definition d => Analyse.schedule index d) analysis).2 := by
  induction places generalizing done analysis with
  | nil =>
    rw [List.map_nil, List.flatMap_nil, List.append_nil]
    exact h
  | cons place rest ih =>
    obtain ⟨declaration, index⟩ := place
    rw [List.map_cons, List.flatMap_cons, ← List.append_assoc] at hdistinct ⊢
    rw [List.map_cons, List.flatMap_cons] at hparams
    have hrest : ∀ place ∈ rest, ns.declarations[place.2]? = some place.1 := fun place hplace =>
      hplaces place (List.mem_cons_of_mem _ hplace)
    have hlater := fun d hd => hparams d (List.mem_append_right _ hd)
    cases declaration with
    | data d =>
      rw [show (Declaration.data d).definitions = [] from rfl, List.append_nil] at hdistinct ⊢
      exact ih h hrest hdistinct hlater
    | definition d =>
      refine ih (h.schedule (hplaces _ List.mem_cons_self) (fun other ho heq => ?_)
        (hparams d (List.mem_append_left _ List.mem_cons_self))) hrest hdistinct hlater
      rw [List.map_append, List.map_append] at hdistinct
      exact (List.nodup_append.1 (List.nodup_append.1 hdistinct).1).2.2 _
        (List.mem_map_of_mem ho) d.name (List.mem_singleton.2 rfl) heq

end Scheduled

/-! ## Namespaces -/

section Namespaces

variable {ns : Namespace} {analysis : Analysis}

theorem Definition.params?_of_mem {d : Definition} {p : Name} (hp : p ∈ d.paramNames) :
    ∃ params, d.body.params? = some params ∧ p ∈ params.map Param.name := by
  rw [paramNames] at hp
  cases hparams : d.body.params? with
  | none =>
    rw [hparams] at hp
    cases hp
  | some params =>
    rw [hparams] at hp
    exact ⟨params, rfl, hp⟩

theorem Namespace.WellScoped.constructors_nodup (hns : ns.WellScoped) :
    (ns.constructors.map Constructor.name).Nodup := by
  have hdistinct := (List.nodup_append.1 hns.distinct).1
  exact List.Nodup.of_map Name.constructor (by rw [List.map_map]; exact hdistinct)

theorem Namespace.WellScoped.definitions_nodup (hns : ns.WellScoped) :
    (ns.definitions.map Definition.name).Nodup := by
  have hdistinct := (List.nodup_append.1 (List.nodup_append.1 hns.distinct).2.1).1
  exact List.Nodup.of_map Name.binding (by rw [List.map_map]; exact hdistinct)

/-- Local names are no constructors. -/
theorem Namespace.WellScoped.not_constructor (hns : ns.WellScoped) {name : Name}
    (hlocal : name ∈ ns.locals) : name ∉ ns.constructors.map fun c => Name.constructor c.name :=
  fun hmem => (List.nodup_append.1 hns.distinct).2.2 name hmem name
    (List.mem_append_right _ hlocal) rfl

/-- Local names are no definitions. -/
theorem Namespace.WellScoped.not_definition (hns : ns.WellScoped) {name : Name}
    (hlocal : name ∈ ns.locals) {d : Definition} (hd : d ∈ ns.definitions) :
    name ≠ .binding d.name :=
  fun heq => (List.nodup_append.1 (List.nodup_append.1 hns.distinct).2.1).2.2 _
    (List.mem_map_of_mem (f := fun d : Definition => Name.binding d.name) hd) name hlocal heq.symm

theorem Namespace.param_mem_locals {d : Definition} (hd : d ∈ ns.definitions) {p : Name}
    (hp : p ∈ d.paramNames) : p ∈ ns.locals := by
  obtain ⟨params, hparams, hmem⟩ := Definition.params?_of_mem hp
  refine mem_locals hd ?_
  rw [← Expr.map_fst_binders]
  exact List.mem_map_of_mem (f := Prod.fst) (Expr.params_mem_binders hparams hmem)

theorem Namespace.WellScoped.params?_paramName (hns : ns.WellScoped) {d : Definition}
    (hd : d ∈ ns.definitions) {p : Name} (hp : p ∈ d.paramNames) : ns.params? p = none := by
  obtain ⟨params, hparams, hmem⟩ := Definition.params?_of_mem hp
  refine hns.params?_of_mem (List.mem_append_right _ (List.mem_append_right _ ?_))
  exact List.mem_flatMap.2 ⟨d, hd, Expr.params_mem_binders hparams hmem⟩

theorem scheduled_all (hns : ns.WellScoped) :
    Scheduled ns ns.definitions (Analyse.scheduleAll ns.declarations Analysis.start).2 := by
  have hbegun := begun_start.declare ns.declarations
    (by rw [List.nil_append]; exact hns.constructors_nodup)
  rw [List.nil_append, List.nil_append] at hbegun
  have hfst : ns.declarations.zipIdx.map Prod.fst = ns.declarations := List.zipIdx_map_fst _ _
  have hall := Begun.scheduled hbegun |>.scheduleList ns.declarations.zipIdx
    (fun place hplace => List.mem_zipIdx_iff_getElem?.1 hplace)
    (by rw [List.nil_append, hfst]; exact hns.definitions_nodup)
    (by
      rw [hfst]
      exact fun d hd p hp => hns.not_constructor (Namespace.param_mem_locals hd hp))
  rw [List.nil_append, hfst] at hall
  exact hall

theorem Namespace.WellScoped.fields?_of_mem (hns : ns.WellScoped) {c : Constructor}
    (hc : c ∈ ns.constructors) : ns.fields? c.name = some (c.fields.map Field.name) := by
  have hfind : ∀ constructors : List Constructor, (constructors.map Constructor.name).Nodup →
      c ∈ constructors → (constructors.find? fun other => other.name = c.name) = some c := by
    intro constructors hdistinct hc
    induction constructors with
    | nil => cases hc
    | cons first rest ih =>
      rw [List.map_cons, List.nodup_cons] at hdistinct
      rcases List.mem_cons.1 hc with rfl | hc
      · rw [List.find?_cons_of_pos (by simp)]
      · rw [List.find?_cons_of_neg, ih hdistinct.2 hc]
        rw [decide_eq_true_iff]
        exact fun heq => hdistinct.1 (heq ▸ List.mem_map_of_mem hc)
  rw [Namespace.fields?, hfind _ hns.constructors_nodup hc]
  rfl

theorem Constructor.declared_known (hns : ns.WellScoped) {c : Constructor}
    (hc : c ∈ ns.constructors) : c.known.Declared ns := by
  have hfields := hns.fields?_of_mem hc
  unfold Constructor.known
  split
  · rename_i hempty
    rw [List.isEmpty_iff.1 hempty] at hfields
    exact hfields
  · rename_i hempty
    refine ⟨_, hfields, fun hnil => hempty ?_⟩
    rw [List.isEmpty_iff]
    exact List.map_eq_nil_iff.1 hnil

/-- What is known at the start agrees with the namespace. -/
theorem Scheduled.proper (hns : ns.WellScoped) (h : Scheduled ns ns.definitions analysis) :
    analysis.Proper ns := by
  have hconstructor : ∀ c ∈ ns.constructors, ns.params? (.constructor c.name) = none := by
    intro c hc
    refine hns.params?_of_mem (List.mem_append_left _ ?_)
    exact List.mem_map_of_mem (List.mem_map_of_mem (f := fun c : Constructor =>
      Name.constructor c.name) hc)
  have hbound : ∀ name, name ∈ analysis.bound ↔ name ∈ ns.boundNames := by
    intro name
    rw [h.bound, Namespace.boundNames, List.mem_append, List.mem_append, List.mem_map, List.mem_map,
      Namespace.locals, List.mem_flatMap]
    simp only [eq_comm]
  constructor
  case functions =>
    intro name params hfunction
    obtain ⟨d, hd, rfl⟩ := h.functions name params hfunction
    rw [hns.params?_definition hd, ← h.recorded d hd]
    exact hfunction
  case assigned =>
    intro name hassigned hfunction
    obtain ⟨value, hvalue⟩ := Option.ne_none_iff_exists'.1 hassigned
    rcases h.values name value hvalue with ⟨c, hc, rfl, -⟩ | ⟨d, hd, hp, -⟩
    · exact (hfunction (hconstructor c hc)).elim
    · exact (hfunction (hns.params?_paramName hd hp)).elim
  case declared =>
    intro name value hvalue
    rcases h.values name value hvalue with ⟨c, hc, -, rfl⟩ | ⟨d, hd, -, rfl⟩
    · exact Constructor.declared_known hns hc
    · exact True.intro
  case named =>
    intro name hassigned
    obtain ⟨value, hvalue⟩ := Option.ne_none_iff_exists'.1 hassigned
    rcases h.values name value hvalue with ⟨c, hc, rfl, -⟩ | ⟨d, hd, hp, -⟩
    · exact List.mem_append_left _ (List.mem_map_of_mem (f := fun c : Constructor =>
        Name.constructor c.name) hc)
    · exact Namespace.mem_boundNames_of_mem_locals (Namespace.param_mem_locals hd hp)
  case bound => exact hbound
  case top =>
    intro d hd params hparams p hp
    refine h.unknown d hd p ?_
    rw [Definition.paramNames, hparams]
    exact hp

end Namespaces

end Lowered

end PolyFront
