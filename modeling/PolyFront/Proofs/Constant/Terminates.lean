import Mathlib.Data.List.Perm.Subperm
import PolyFront.Proofs.Constant.Scheduled
import PolyFront.Proofs.Constant.Steps

/-!
# The analysis of constants ends

Neither the loop over a block nor the worklist is cut short.  Names can only be changed so often,
each pass but the last changes a name, and every name that is put on the worklist is paid for by a
change.  This holds for all lists of declarations, however their names are bound.
-/

namespace PolyFront.Lowered

/-! ## Blocks -/

/-- A pass is repeated until one changes nothing. -/
inductive Loops (pass : Analyse Lattice) : Analysis → Lattice × Analysis → Prop where
  | last {before} : ¬before.changes < (pass before).2.changes → Loops pass before (pass before)
  | again {before result} : before.changes < (pass before).2.changes →
      Loops pass (pass before).2 result → Loops pass before result

theorem loops_stabilise {bound called names : List Name} {calls : Nat} {pass : Analyse Lattice}
    (hpass : ∀ before, Steps bound called calls before pass) (hbound : bound ⊆ names)
    {fuel : Nat} {before : Analysis} (hlisted : Listed names called before)
    (hfuel : before.potential names ≤ fuel) :
    Loops pass before (Analyse.stabilise pass fuel before) := by
  induction fuel generalizing before with
  | zero =>
    have hcost := (hpass before).cost names hbound (hlisted.advances (hpass before) hbound)
    exact .last (by omega)
  | succ fuel ih =>
    have hlater := hlisted.advances (hpass before) hbound
    have hcost := (hpass before).cost names hbound hlater
    rw [stabilise_succ]
    by_cases hchanged : before.changes < (pass before).2.changes
    · rw [if_pos hchanged]
      exact .again hchanged (ih hlater (by omega))
    · rw [if_neg hchanged]
      exact .last hchanged

/-- The loop over a block is never cut short. -/
theorem loops_block (bindings : List Binding) (result : Expr) (before : Analysis) :
    Loops (do Analyse.bindingList bindings; Analyse.expr result) before
      (Analyse.expr (.block bindings result) before) := by
  have hpass := steps_pass (fun binding (_ : binding ∈ bindings) => steps_all.2 binding.inner)
    (steps_all.2 result)
  have hbound : (Expr.block bindings result).boundNames ⊆
      (Expr.block bindings result).scope before :=
    List.Subset.trans (List.subset_append_left _ _) (List.subset_append_left _ _)
  rw [Analyse.expr]
  exact loops_stabilise hpass hbound (Expr.listed_scope _ _) (Expr.potential_scope _ _)

/-! ## Scheduling -/

/-- Only places of definitions are on record, and dependents have a place. -/
structure Placed (declarations : List Declaration) (analysis : Analysis) : Prop where
  definition : ∀ name index, analysis.positions.get? name = some index →
    ∃ d, declarations[index]? = some (.definition d)
  distinct : ∀ free, (analysis.dependents.get free).Nodup
  placed : ∀ free, ∀ name ∈ analysis.dependents.get free, analysis.positions.get? name ≠ none

section Scheduling

variable {declarations : List Declaration} {before analysis : Analysis}

theorem Placed.of_eq {after : Analysis} (h : Placed declarations analysis)
    (hpositions : after.positions = analysis.positions)
    (hdependents : after.dependents = analysis.dependents) : Placed declarations after := by
  constructor
  · rw [hpositions]
    exact h.definition
  · rw [hdependents]
    exact h.distinct
  · rw [hpositions, hdependents]
    exact h.placed

theorem placed_start (declarations : List Declaration) :
    Placed declarations Analysis.start where
  definition := nofun
  distinct _ := List.nodup_nil
  placed _ _ hname := (List.not_mem_nil hname).elim

/-- A run that raises entries and leaves only places of definitions on record. -/
def Prepares (declarations : List Declaration) (run : Analyse Unit) : Prop :=
  ∀ analysis, Placed declarations analysis →
    analysis.Rises (run analysis).2 ∧ Placed declarations (run analysis).2

theorem Prepares.forM {α : Type} {items : List α} {f : α → Analyse Unit}
    (h : ∀ item ∈ items, Prepares declarations (f item)) :
    Prepares declarations (items.forM f) := by
  induction items with
  | nil => exact fun _ hplaced => ⟨.of_eq rfl rfl, hplaced⟩
  | cons item rest ih =>
    intro analysis hplaced
    obtain ⟨hrises, hmid⟩ := h item List.mem_cons_self analysis hplaced
    obtain ⟨hrises', hafter⟩ := ih (fun other ho => h other (List.mem_cons_of_mem _ ho)) _ hmid
    exact ⟨hrises.trans hrises', hafter⟩

theorem prepares_constructor (c : Constructor) :
    Prepares declarations (Analyse.constructor c) := by
  intro analysis h
  let mid := { analysis with bound := analysis.bound ++ [Name.constructor c.name] }
  have heq : (Analyse.constructor c analysis).2 =
      (mid.record (.constructor c.name) c.known).2 := rfl
  have hmid : analysis.Rises mid := .of_eq rfl rfl
  obtain ⟨values, changes, hrest⟩ := record_rest mid (.constructor c.name) c.known
  have hrises := hmid.trans (mid.rises_record (.constructor c.name) c.known)
  rw [heq]
  exact ⟨hrises, h.of_eq (by rw [hrest]) (by rw [hrest])⟩

theorem prepares_declare (declaration : Declaration) :
    Prepares declarations (Analyse.declare declaration) := by
  cases declaration with
  | data d => exact Prepares.forM fun c _ => prepares_constructor c
  | definition d => exact fun _ h => ⟨.of_eq rfl rfl, h.of_eq rfl rfl⟩

/-- A definition is scheduled at its place. -/
theorem Placed.schedule (h : Placed declarations analysis) {index : Nat} {d : Definition}
    (hindex : declarations[index]? = some (.definition d)) :
    Placed declarations (Analyse.schedule index d analysis).2 := by
  obtain ⟨values, changes, functions, heq, -⟩ := schedule_eq index d analysis
  have hplace : ∀ name, (analysis.positions.insert (.binding d.name) index).get? name =
      if name = .binding d.name then some index else analysis.positions.get? name := by
    intro name
    rw [Table.get?_insert]
    by_cases hname : name = .binding d.name
    · rw [if_pos (beq_iff_eq.2 hname), if_pos hname]
    · rw [if_neg fun h => hname (eq_of_beq h), if_neg hname]
  rw [heq]
  refine ⟨fun name found hfound => ?_, Multimap.nodup_get_extend h.distinct,
      fun free name hname => ?_⟩
  · have hfound : (analysis.positions.insert (.binding d.name) index).get? name = some found :=
      hfound
    rw [hplace] at hfound
    by_cases hname : name = .binding d.name
    · rw [if_pos hname] at hfound
      exact ⟨d, Option.some.inj hfound ▸ hindex⟩
    · rw [if_neg hname] at hfound
      exact h.definition name found hfound
  · show (analysis.positions.insert (.binding d.name) index).get? name ≠ none
    rw [hplace]
    by_cases heq : name = .binding d.name
    · rw [if_pos heq]
      exact nofun
    · rw [if_neg heq]
      refine h.placed free name ((Multimap.mem_get_extend.1 hname).resolve_right fun hmem => ?_)
      obtain ⟨other, -, hpair⟩ := List.mem_map.1 hmem
      exact heq (congrArg Prod.snd hpair).symm

theorem prepares_schedule {index : Nat} {d : Definition}
    (hindex : declarations[index]? = some (.definition d)) :
    Prepares declarations (Analyse.schedule index d) := by
  intro analysis h
  refine ⟨?_, h.schedule hindex⟩
  let mid := { analysis with
    dependents := analysis.dependents.extend (d.freeVariables.map fun free =>
      (free, Name.binding d.name))
    bound := analysis.bound ++ d.body.boundNames }
  have hmid : analysis.Rises mid := .of_eq rfl rfl
  unfold Analyse.schedule
  cases hparams : d.body.params? with
  | none => exact .of_eq rfl rfl
  | some params =>
    have hunknown : Steps (params.map Param.name) [] 0 mid
        (Analyse.recordUnknown (params.map Param.name)) :=
      steps_recordUnknown fun p hp => .inl hp
    exact (hmid.trans hunknown.rises).trans (.of_eq rfl rfl)

theorem prepares_schedulePlaces (declarations : List Declaration) :
    Prepares declarations (declarations.zipIdx.forM fun (declaration, index) =>
      match declaration with
      | .data _ => pure ()
      | .definition d => Analyse.schedule index d) := by
  refine Prepares.forM fun place hplace => ?_
  obtain ⟨_ | d, index⟩ := place
  · exact fun _ h => ⟨.of_eq rfl rfl, h⟩
  · exact prepares_schedule (List.mem_zipIdx_iff_getElem?.1 hplace)

theorem prepares_scheduleAll (declarations : List Declaration) :
    Prepares declarations (Analyse.scheduleAll declarations) := by
  have hdeclare : Prepares declarations (declarations.forM Analyse.declare) :=
    Prepares.forM fun declaration _ => prepares_declare declaration
  intro analysis h
  obtain ⟨hrises, hmid⟩ := hdeclare analysis h
  obtain ⟨hrises', hafter⟩ := prepares_schedulePlaces declarations _ hmid
  exact ⟨hrises.trans hrises', hafter⟩

end Scheduling

/-! ## Definitions -/

section Definitions

variable {names : List Name} {size : Nat} {analysis : Analysis}

theorem Definition.inner_boundNames_subset (d : Definition) :
    d.body.inner.boundNames ⊆ d.body.boundNames := by
  rcases d.body.function_or_plain with ⟨params, body, heq⟩ | ⟨-, -, heq⟩
  · rw [heq]
    exact List.subset_append_right _ _
  · rw [heq]
    exact List.Subset.refl _

theorem Definition.inner_references (d : Definition) :
    d.body.inner.references = d.body.references := by
  rcases d.body.function_or_plain with ⟨params, body, heq⟩ | ⟨-, -, heq⟩
  · rw [heq]
    rfl
  · rw [heq]

/-- The dependents of a definition are put on the worklist when its result has grown. -/
theorem definition_cases (name : Name) (d : Definition) (analysis : Analysis) {result : Lattice}
    {after : Analysis} (hresult : Analyse.record name (Analyse.expr d.body.inner analysis).1
      (Analyse.expr d.body.inner analysis).2 = (result, after)) :
    result.compare (analysis.lookup name) = .greater ∧
        (Analyse.definition name d analysis).2 =
          { after with worklist := after.worklist ++ after.dependents.get name } ∨
      result.compare (analysis.lookup name) ≠ .greater ∧
        (Analyse.definition name d analysis).2 = after := by
  have heq : (Analyse.definition name d analysis).2 =
      ((if result.compare (analysis.lookup name) = .greater then
        modify fun after : Analysis => { after with
          worklist := after.worklist ++ after.dependents.get name }
        else pure () : Analyse Unit) after).2 := by
    have hfst : result = (Analyse.record name _ _).1 := (congrArg Prod.fst hresult).symm
    have hsnd : after = (Analyse.record name _ _).2 := (congrArg Prod.snd hresult).symm
    rw [hfst, hsnd]
    rfl
  by_cases hgrown : result.compare (analysis.lookup name) = .greater
  · rw [if_pos hgrown] at heq
    exact .inl ⟨hgrown, heq⟩
  · rw [if_neg hgrown] at heq
    exact .inr ⟨hgrown, heq⟩

/-- How far a worklist is from being empty, when a change puts at most `size` names on it. -/
def distance (names : List Name) (size : Nat) (analysis : Analysis) : Nat :=
  analysis.worklist.length + 2 * size * analysis.potential names

/-- Changes pay for what is put on the worklist. -/
theorem distance_le {bound called extra : List Name} {calls : Nat} {after : Analysis}
    (h : Advances bound called calls analysis after) (hbound : bound ⊆ names)
    (hlisted : Listed names called after) (hcalls : calls ≤ size)
    (hextra : extra = [] ∨ analysis.changes < after.changes ∧ extra.length ≤ size) :
    distance names size { after with worklist := after.worklist ++ extra } ≤
      distance names size analysis := by
  have hcost := h.cost names hbound hlisted
  have hcounted := h.counted
  obtain ⟨pushed, hworklist, hlength⟩ := h.pushed
  obtain ⟨count, hcount⟩ := Nat.exists_eq_add_of_le hcounted
  rw [hcount, Nat.add_sub_cancel_left] at hlength
  have hpushed : pushed.length ≤ count * size := Nat.le_trans hlength (Nat.mul_le_mul_left _ hcalls)
  have hothers : extra.length ≤ count * size := by
    rcases hextra with rfl | ⟨hlt, hle⟩
    · exact Nat.zero_le _
    · exact Nat.le_trans hle (Nat.le_mul_of_pos_left _ (by omega))
  have hpotential : 2 * size * after.potential names + 2 * (count * size) ≤
      2 * size * analysis.potential names := by
    have hle : after.potential names + count ≤ analysis.potential names := by omega
    calc 2 * size * after.potential names + 2 * (count * size)
        = 2 * size * (after.potential names + count) := by
          rw [Nat.mul_add, Nat.mul_comm count size, Nat.mul_assoc 2 size count]
      _ ≤ _ := Nat.mul_le_mul_left _ hle
  show (after.worklist ++ extra).length + 2 * size * after.potential names ≤
    analysis.worklist.length + 2 * size * analysis.potential names
  rw [hworklist, List.length_append, List.length_append]
  omega

/-- What the analysis of a definition does before the worklist is looked at. -/
theorem advances_definition (name : Name) (d : Definition) (analysis : Analysis) :
    Advances (name :: d.body.inner.boundNames) d.body.inner.references
      d.body.inner.references.length analysis
      (Analyse.record name (Analyse.expr d.body.inner analysis).1
        (Analyse.expr d.body.inner analysis).2).2 := by
  have hbody := (steps_all.2 d.body.inner analysis).mono
    (List.subset_cons_self name d.body.inner.boundNames) (List.Subset.refl _) (Nat.le_refl _)
  exact Advances.trans hbody (steps_record (.inl List.mem_cons_self) _)

/-- Only a change makes a result grow. -/
theorem changed_of_greater {name : Name} {d : Definition} {result : Lattice} {after : Analysis}
    (hresult : Analyse.record name (Analyse.expr d.body.inner analysis).1
      (Analyse.expr d.body.inner analysis).2 = (result, after))
    (hgrown : result.compare (analysis.lookup name) = .greater) :
    analysis.changes < after.changes := by
  have hrises := (advances_definition name d analysis).rises
  have hlookup := Analysis.record_fst (Analyse.expr d.body.inner analysis).2 name
    (Analyse.expr d.body.inner analysis).1
  have hresult : Analysis.record _ name _ = _ := hresult
  rw [show Analyse.record name _ _ = Analysis.record _ name _ from rfl, hresult] at hrises
  rw [hresult] at hlookup
  by_contra hstill
  rw [show result = after.lookup name from hlookup, hrises.lookup_eq hstill] at hgrown
  simp [Lattice.compare] at hgrown

end Definitions

/-! ## The worklist -/

/-- Definitions are taken from the worklist and analysed until it is empty, and no entry moves
down on the way. -/
inductive Drains (declarations : List Declaration) : Analysis → Analysis → Prop where
  | empty {analysis} : analysis.worklist = [] → Drains declarations analysis analysis
  | next {before mid last name rest} : before.worklist = name :: rest →
      Analyse.scheduled declarations name { before with worklist := rest } = .ok () mid →
      before.Rises mid → Drains declarations mid last → Drains declarations before last

/-- The names that the analysis of declarations can be about are listed. -/
structure Ready (declarations : List Declaration) (names : List Name) (size : Nat)
    (analysis : Analysis) : Prop where
  placed : Placed declarations analysis
  keyed : ∀ name, analysis.positions.get? name ≠ none → name ∈ names
  listed : ∀ d, .definition d ∈ declarations → Listed names d.body.references analysis
  bound : ∀ d, .definition d ∈ declarations → d.body.boundNames ⊆ names
  calls : ∀ d, .definition d ∈ declarations → d.body.references.length ≤ size
  few : analysis.positions.size ≤ size

/-- The names are listed, wherever the places on record are. -/
structure Counted (declarations : List Declaration) (names : List Name) (size : Nat)
    (analysis : Analysis) : Prop where
  distinct : ∀ free, (analysis.dependents.get free).Nodup
  placed : ∀ free, ∀ name ∈ analysis.dependents.get free, analysis.positions.get? name ≠ none
  keyed : ∀ name, analysis.positions.get? name ≠ none → name ∈ names
  listed : ∀ d, .definition d ∈ declarations → Listed names d.body.references analysis
  bound : ∀ d, .definition d ∈ declarations → d.body.boundNames ⊆ names
  calls : ∀ d, .definition d ∈ declarations → d.body.references.length ≤ size
  few : analysis.positions.size ≤ size

theorem le_total {α : Type} {measure : α → Nat} {items : List α} {item : α} (h : item ∈ items) :
    measure item ≤ total measure items := by
  induction items with
  | nil => cases h
  | cons first rest ih =>
    rw [total_cons]
    rcases List.mem_cons.1 h with rfl | h
    · exact Nat.le_add_right _ _
    · exact Nat.le_trans (ih h) (Nat.le_add_left _ _)

/-- The names that a declaration binds or refers to. -/
def Declaration.names : Declaration → List Name
  | .data _ => []
  | .definition d => d.body.boundNames ++ d.body.references

theorem length_names (declarations : List Declaration) :
    (declarations.flatMap Declaration.names).length =
      total Declaration.nameCount declarations := by
  induction declarations with
  | nil => rfl
  | cons declaration rest ih =>
    rw [List.flatMap_cons, List.length_append, ih, total_cons]
    cases declaration with
    | data d => rfl
    | definition d => rw [Declaration.names, List.length_append, Declaration.nameCount]

section Worklist

variable {declarations : List Declaration} {names : List Name} {size : Nat} {analysis : Analysis}

theorem Ready.withWorklist (h : Ready declarations names size analysis) (worklist : List Name) :
    Ready declarations names size { analysis with worklist := worklist } :=
  ⟨⟨h.placed.definition, h.placed.distinct, h.placed.placed⟩, h.keyed, h.listed, h.bound, h.calls,
    h.few⟩

theorem Ready.counted (h : Ready declarations names size analysis) :
    Counted declarations names size analysis :=
  ⟨h.placed.distinct, h.placed.placed, h.keyed, h.listed, h.bound, h.calls, h.few⟩

theorem Counted.ready (h : Counted declarations names size analysis)
    (hplaced : Placed declarations analysis) : Ready declarations names size analysis :=
  ⟨hplaced, h.keyed, h.listed, h.bound, h.calls, h.few⟩

theorem Counted.withWorklist (h : Counted declarations names size analysis)
    (worklist : List Name) : Counted declarations names size
        { analysis with worklist := worklist } :=
  ⟨h.distinct, h.placed, h.keyed, h.listed, h.bound, h.calls, h.few⟩

theorem Counted.advances (h : Counted declarations names size analysis) {bound called : List Name}
    {calls : Nat} {after : Analysis} (hadvances : Advances bound called calls analysis after)
    (hbound : bound ⊆ names) : Counted declarations names size after := by
  obtain ⟨-, hpositions, hdependents⟩ := hadvances.fixed
  refine ⟨?_, ?_, ?_, fun d hd => (h.listed d hd).advances hadvances hbound, h.bound, h.calls, ?_⟩
  · rw [hdependents]
    exact h.distinct
  · rw [hpositions, hdependents]
    exact h.placed
  · rw [hpositions]
    exact h.keyed
  · rw [hpositions]
    exact h.few

/-- Each definition is a dependent of a name once at most. -/
theorem Counted.few_dependents (h : Counted declarations names size analysis) (free : Name) :
    (analysis.dependents.get free).length ≤ size := by
  have hsub : analysis.dependents.get free ⊆ analysis.positions.keys := by
    intro name hname
    obtain ⟨index, hindex⟩ := Option.ne_none_iff_exists'.1 (h.placed free name hname)
    exact List.mem_map.2 ⟨_, mem_of_lookup hindex, rfl⟩
  refine Nat.le_trans ((h.distinct free).subperm hsub).length_le ?_
  rw [Table.keys, List.length_map]
  exact h.few

/-- The analysis of a definition leaves the places and the dependents on record. -/
theorem definition_fixed (name : Name) (d : Definition) (analysis : Analysis) :
    (Analyse.definition name d analysis).2.positions = analysis.positions ∧
      (Analyse.definition name d analysis).2.dependents = analysis.dependents := by
  generalize hresult : Analyse.record name (Analyse.expr d.body.inner analysis).1
    (Analyse.expr d.body.inner analysis).2 = pair
  obtain ⟨result, after⟩ := pair
  have hfixed := (advances_definition name d analysis).fixed.2
  rw [hresult] at hfixed
  rcases definition_cases name d analysis hresult with ⟨-, heq⟩ | ⟨-, heq⟩
  · rw [heq]
    exact hfixed
  · rw [heq]
    exact hfixed

/-- One definition is analysed. -/
theorem Counted.definition (h : Counted declarations names size analysis) {name : Name}
    (hname : name ∈ names) {d : Definition} (hd : .definition d ∈ declarations) :
    analysis.Rises (Analyse.definition name d analysis).2 ∧
      Counted declarations names size (Analyse.definition name d analysis).2 ∧
        distance names size (Analyse.definition name d analysis).2 ≤
          distance names size analysis := by
  generalize hresult : Analyse.record name (Analyse.expr d.body.inner analysis).1
    (Analyse.expr d.body.inner analysis).2 = pair
  obtain ⟨result, after⟩ := pair
  have hadvances := advances_definition name d analysis
  rw [hresult] at hadvances
  have hbound : name :: d.body.inner.boundNames ⊆ names :=
    List.cons_subset.2 ⟨hname, fun _ hinner => h.bound d hd (d.inner_boundNames_subset hinner)⟩
  have hcounted := h.advances hadvances hbound
  have hlisted := hcounted.listed d hd
  have hcalls := h.calls d hd
  rw [← d.inner_references] at hlisted hcalls
  rcases definition_cases name d analysis hresult with ⟨hgrown, heq⟩ | ⟨-, heq⟩
  · rw [heq]
    refine ⟨hadvances.rises.trans (.of_eq rfl rfl), hcounted.withWorklist _, ?_⟩
    exact distance_le hadvances hbound hlisted hcalls
      (.inr ⟨changed_of_greater hresult hgrown, hcounted.few_dependents name⟩)
  · rw [heq]
    have hdistance := distance_le hadvances hbound hlisted hcalls
      (show ([] : List Name) = [] ∨ _ from .inl rfl)
    rw [List.append_nil] at hdistance
    exact ⟨hadvances.rises, hcounted, hdistance⟩

/-- The head of the worklist is analysed without a fault. -/
theorem Ready.scheduled (h : Ready declarations names size analysis) (name : Name) :
    ∃ after, Analyse.scheduled declarations name analysis = .ok () after ∧
      analysis.Rises after ∧ Ready declarations names size after ∧
        distance names size after ≤ distance names size analysis := by
  cases hindex : analysis.positions.get? name with
  | none =>
    refine ⟨analysis, ?_, .of_eq rfl rfl, h, Nat.le_refl _⟩
    rw [Analyse.scheduled_apply, hindex]
    rfl
  | some index =>
    obtain ⟨d, hd⟩ := h.placed.definition name index hindex
    have hname : name ∈ names := h.keyed name (by rw [hindex]; exact Option.some_ne_none _)
    obtain ⟨hpositions, hdependents⟩ := definition_fixed name d analysis
    obtain ⟨hrises, hcounted, hdistance⟩ := h.counted.definition hname (List.mem_of_getElem? hd)
    refine ⟨_, ?_, hrises, hcounted.ready (h.placed.of_eq hpositions hdependents), hdistance⟩
    rw [Analyse.scheduled_apply, hindex]
    simp only [hd]
    rfl

/-- A name is taken from the worklist, and its definition is analysed. -/
theorem drain_next {fuel : Nat} {name : Name} {rest : List Name} {mid : Analysis}
    (hworklist : analysis.worklist = name :: rest)
    (hscheduled : Analyse.scheduled declarations name { analysis with worklist := rest } =
      .ok () mid) :
    Analyse.drain declarations (fuel + 1) analysis = Analyse.drain declarations fuel mid := by
  rw [Analyse.drain_succ, hworklist]
  show EStateM.bind (Analyse.scheduled declarations name)
    (fun _ => Analyse.drain declarations fuel) { analysis with worklist := rest } = _
  rw [EStateM.bind, hscheduled]

theorem distance_popped {name : Name} {rest : List Name}
    (hworklist : analysis.worklist = name :: rest) :
    distance names size { analysis with worklist := rest } < distance names size analysis := by
  show rest.length + 2 * size * analysis.potential names <
    analysis.worklist.length + 2 * size * analysis.potential names
  rw [hworklist, List.length_cons]
  omega

/-- With enough fuel the worklist is emptied. -/
theorem Ready.drain {fuel : Nat} (h : Ready declarations names size analysis)
    (hfuel : distance names size analysis ≤ fuel) :
    ∃ last, Analyse.drain declarations fuel analysis = .ok () last ∧
      Drains declarations analysis last := by
  induction fuel generalizing analysis with
  | zero =>
    have hlength : analysis.worklist.length + _ ≤ 0 := hfuel
    exact ⟨analysis, rfl, .empty (List.length_eq_zero_iff.1 (by omega))⟩
  | succ fuel ih =>
    cases hworklist : analysis.worklist with
    | nil =>
      refine ⟨analysis, ?_, .empty hworklist⟩
      rw [Analyse.drain_succ, hworklist]
      rfl
    | cons name rest =>
      have hpopped := h.withWorklist rest
      have hless : distance names size { analysis with worklist := rest } <
          distance names size analysis := distance_popped hworklist
      obtain ⟨mid, heq, hrises, hready, hdistance⟩ := hpopped.scheduled name
      obtain ⟨last, hlast, hdrains⟩ := ih hready (by omega)
      have hpop : analysis.Rises { analysis with worklist := rest } := .of_eq rfl rfl
      exact ⟨last, (drain_next hworklist heq).trans hlast,
        .next hworklist heq (hpop.trans hrises) hdrains⟩

theorem Drains.worklist_eq {before last : Analysis} (h : Drains declarations before last) :
    last.worklist = [] := by
  induction h with
  | empty hworklist => exact hworklist
  | next _ _ _ _ ih => exact ih

theorem Drains.rises {before last : Analysis} (h : Drains declarations before last) :
    before.Rises last := by
  induction h with
  | empty _ => exact .of_eq rfl rfl
  | next _ _ hrises _ ih => exact hrises.trans ih

/-- The names that are bound or referred to are enough. -/
theorem exists_counted (declarations : List Declaration)
    (hdistinct : ∀ free, (analysis.dependents.get free).Nodup)
    (hplaced : ∀ free, ∀ name ∈ analysis.dependents.get free,
      analysis.positions.get? name ≠ none) :
    ∃ names size, Counted declarations names size analysis ∧
      distance names size analysis ≤ analysis.analysisBound declarations := by
  let names := analysis.positions.keys ++ analysis.bound ++
    analysis.functionParams.values.flatten ++ declarations.flatMap Declaration.names
  have hlength : names.length = analysis.positions.size + analysis.bound.length +
      total List.length analysis.functionParams.values +
        total Declaration.nameCount declarations := by
    simp only [names, List.length_append, length_names, total_length, Table.keys, Table.size,
      List.length_map]
  have hnames : ∀ d, .definition d ∈ declarations →
      d.body.boundNames ++ d.body.references ⊆ names :=
    fun d hd name hname => List.mem_append_right _ (List.mem_flatMap.2 ⟨_, hd, hname⟩)
  refine ⟨names, names.length, ⟨hdistinct, hplaced, fun name hname =>
      ?_, fun d hd f hf params hparams => ?_,
    fun d hd name hname => hnames d hd (List.mem_append_left _ hname), fun d hd => ?_, ?_⟩, ?_⟩
  · obtain ⟨index, hindex⟩ := Option.ne_none_iff_exists'.1 hname
    refine List.mem_append_left _ (List.mem_append_left _ (List.mem_append_left _ ?_))
    exact List.mem_map.2 ⟨_, mem_of_lookup hindex, rfl⟩
  · refine ⟨hnames d hd (List.mem_append_right _ hf), fun p hp => ?_⟩
    refine List.mem_append_left _ (List.mem_append_right _ (List.mem_flatten.2 ⟨params, ?_, hp⟩))
    exact List.mem_map.2 ⟨_, mem_of_lookup hparams, rfl⟩
  · have hle : Declaration.nameCount (.definition d) ≤ total Declaration.nameCount declarations :=
      le_total hd
    rw [Declaration.nameCount] at hle
    omega
  · omega
  · rw [distance, Analysis.analysisBound, ← hlength]
    refine Nat.add_le_add_left ?_ _
    rw [Nat.mul_comm (Analysis.changesPerName * names.length)]
    exact Nat.mul_le_mul_left _ (analysis.potential_le names)

/-- The analysis of declarations ends with an empty worklist. -/
theorem declarations_drained (declarations : List Declaration) :
    ∃ last, Analyse.declarations declarations Analysis.start = .ok () last ∧
      Analysis.start.Rises (Analyse.scheduleAll declarations Analysis.start).2 ∧
        Drains declarations (Analyse.scheduleAll declarations Analysis.start).2 last := by
  obtain ⟨hrises, hplaced⟩ := prepares_scheduleAll declarations _ (placed_start declarations)
  obtain ⟨names, size, hcounted, hfuel⟩ :=
      exists_counted declarations hplaced.distinct hplaced.placed
  obtain ⟨last, hdrain, hdrains⟩ := (hcounted.ready hplaced).drain hfuel
  exact ⟨last, hdrain, hrises, hdrains⟩

/-- The analysis of constants ends, whatever is analysed.  Every loop over a block ends with a pass
that changes nothing, and the worklist is emptied without a fault.  On the way, at every record,
expression and definition, entries only move up, and the count of changes grows exactly when an
entry changes. -/
theorem analysis_terminates :
    (∀ bindings result before, Loops (do Analyse.bindingList bindings; Analyse.expr result) before
      (Analyse.expr (.block bindings result) before)) ∧
    (∀ (analysis : Analysis) name value, analysis.Rises (analysis.record name value).2) ∧
    (∀ expr (before : Analysis), before.Rises (Analyse.expr expr before).2) ∧
    ∀ declarations, ∃ last, Analyse.declarations declarations Analysis.start = .ok () last ∧
      last.worklist = [] ∧ Analysis.start.Rises last ∧
        Analysis.start.Rises (Analyse.scheduleAll declarations Analysis.start).2 ∧
          Drains declarations (Analyse.scheduleAll declarations Analysis.start).2 last := by
  refine ⟨loops_block, Analysis.rises_record, fun expr before => (steps_all.2 expr before).rises,
    fun declarations => ?_⟩
  obtain ⟨last, hrun, hrises, hdrains⟩ := declarations_drained declarations
  exact ⟨last, hrun, hdrains.worklist_eq, hrises.trans hdrains.rises, hrises, hdrains⟩

end Worklist

end PolyFront.Lowered
