import PolyFront.Constant.Simplify
import PolyFront.Proofs.Constant.Pushes
import PolyFront.Proofs.Constant.Terminates

/-!
# Namespaces that are analysed one after the other

One analysis serves several namespaces.  A place on record is a place in the namespace that was
analysed when it was recorded, so that a definition of an earlier namespace must not get on the
worklist again.  It stays off it when no later namespace calls it with a function and it refers to
nothing that is defined later.  Then no place lies outside of the namespace under analysis, whatever
is taken from the worklist is analysed with its own body, and what is known about a definition
changes in no other way.  Other references to earlier namespaces do no harm, and neither do calls
with other arguments.  A function that is handed over may: its analysis can change what is known.
-/

namespace PolyFront.Lowered

theorem Namespace.mem_definitions {ns : Namespace} {d : Definition} :
    d ∈ ns.definitions ↔ .definition d ∈ ns.declarations := by
  refine List.mem_flatMap.trans ⟨?_, fun hd => ⟨_, hd, List.mem_singleton.2 rfl⟩⟩
  rintro ⟨_ | other, hdeclaration, hd⟩
  · cases hd
  · rw [List.mem_singleton.1 hd]
    exact hdeclaration

/-- The name is that of a definition. -/
def Namespace.Defines (ns : Namespace) (name : Name) : Prop :=
  ∃ d ∈ ns.definitions, name = .binding d.name

/-- The later namespace calls no definition of the earlier one with a function, and the earlier one
refers to no definition of the later one. -/
def Namespace.Apart (earlier later : Namespace) : Prop :=
  (∀ d ∈ later.definitions, ∀ f ∈ d.body.handedTo, ∀ other ∈ earlier.definitions,
      f ≠ .binding other.name) ∧
    ∀ d ∈ earlier.definitions, ∀ f ∈ d.freeVariables, ∀ other ∈ later.definitions,
      f ≠ .binding other.name

instance (earlier later : Namespace) : Decidable (earlier.Apart later) :=
  inferInstanceAs (Decidable (_ ∧ _))

/-! ## Places -/

/-- Some definitions of a namespace have a place, and so have those of earlier namespaces. -/
structure Laid (tops : QualifiedName → Prop) (ns : Namespace) (earlier done : List Definition)
    (analysis : Analysis) : Prop where
  positions : ∀ name index, analysis.positions.get? name = some index →
    (∃ d ∈ done, name = .binding d.name ∧ ns.declarations[index]? = some (.definition d)) ∨
      (∃ d ∈ earlier, name = .binding d.name) ∧ ∀ d ∈ done, name ≠ .binding d.name
  placed : ∀ d ∈ done, analysis.positions.get? (.binding d.name) ≠ none
  dependents : ∀ free, ∀ name ∈ analysis.dependents.get free,
    analysis.positions.get? name ≠ none ∧
      ∃ d ∈ earlier ++ done, name = .binding d.name ∧ free ∈ d.freeVariables
  distinct : ∀ free, (analysis.dependents.get free).Nodup
  worklist : ∀ name ∈ analysis.worklist, ∃ d ∈ done, name = .binding d.name
  aside : Aside tops analysis

section Places

variable {tops : QualifiedName → Prop} {ns : Namespace} {earlier done : List Definition}
  {before analysis : Analysis}

theorem laid_start (tops : QualifiedName → Prop) (ns : Namespace) :
    Laid tops ns [] [] Analysis.start where
  positions := nofun
  placed := nofun
  dependents := nofun
  distinct _ := List.nodup_nil
  worklist := nofun
  aside := ⟨nofun, nofun⟩

theorem Laid.of_eq {after : Analysis} (h : Laid tops ns earlier done analysis)
    (hpositions : after.positions = analysis.positions)
    (hdependents : after.dependents = analysis.dependents)
    (hworklist : after.worklist = analysis.worklist) (haside : Aside tops after) :
    Laid tops ns earlier done after := by
  obtain ⟨positions, placed, dependents, distinct, worklist, -⟩ := h
  rw [← hpositions] at positions placed dependents
  rw [← hdependents] at dependents distinct
  rw [← hworklist] at worklist
  exact ⟨positions, placed, dependents, distinct, worklist, haside⟩

theorem Laid.forM {α : Type} {items : List α} {f : α → Analyse Unit}
    (h : ∀ item ∈ items, ∀ {before}, Laid tops ns earlier done before →
      Laid tops ns earlier done (f item before).2)
    (hbefore : Laid tops ns earlier done before) :
    Laid tops ns earlier done (items.forM f before).2 := by
  induction items generalizing before with
  | nil => exact hbefore
  | cons item rest ih =>
    exact ih (fun other ho => h other (List.mem_cons_of_mem _ ho))
      (h item List.mem_cons_self hbefore)

/-- Constructors have no place. -/
theorem Laid.constructor (h : Laid tops ns earlier done analysis) (c : Constructor) :
    Laid tops ns earlier done (Analyse.constructor c analysis).2 := by
  let mid := { analysis with bound := analysis.bound ++ [Name.constructor c.name] }
  have hmid : Aside tops mid := h.aside.rises (.of_eq rfl rfl) rfl
  have hrises := mid.rises_record (.constructor c.name) c.known
  obtain ⟨values, changes, heq⟩ := record_rest mid (.constructor c.name) c.known
  show Laid tops ns earlier done (mid.record (.constructor c.name) c.known).2
  rw [heq] at hrises ⊢
  exact h.of_eq rfl rfl rfl (hmid.rises hrises rfl)

theorem Laid.declare (h : Laid tops ns earlier done analysis) (declaration : Declaration) :
    Laid tops ns earlier done (Analyse.declare declaration analysis).2 := by
  cases declaration with
  | data d => exact Laid.forM (fun c _ _ hbefore => hbefore.constructor c) h
  | definition d => exact h.of_eq rfl rfl rfl (h.aside.rises (.of_eq rfl rfl) rfl)

theorem Definition.paramNames_subset (d : Definition) : d.paramNames ⊆ d.body.boundNames := by
  rw [paramNames]
  rcases d.body.function_or_plain with ⟨params, body, heq⟩ | ⟨-, hparams, -⟩
  · rw [heq]
    exact List.subset_append_left _ _
  · rw [hparams]
    exact List.nil_subset _

theorem Laid.schedule (h : Laid tops ns earlier done analysis) {index : Nat} {d : Definition}
    (hindex : ns.declarations[index]? = some (.definition d))
    (hlocals : BoundInside tops d.body.boundNames) :
    Laid tops ns earlier (done ++ [d]) (Analyse.schedule index d analysis).2 := by
  obtain ⟨values, changes, functions, heq, hvalues, hfunctions⟩ := schedule_eq index d analysis
  have hlast : d ∈ done ++ [d] := List.mem_append_right _ List.mem_cons_self
  have hplaced : ∀ name, name = .binding d.name ∨ analysis.positions.get? name ≠ none →
      (analysis.positions.insert (.binding d.name) index).get? name ≠ none := by
    intro name hname
    rw [Table.get?_insert]
    split
    · exact nofun
    · rename_i hne
      exact hname.resolve_left fun heq => hne (beq_iff_eq.2 heq)
  rw [heq]
  constructor
  case positions =>
    intro name found hfound
    have hfound : (analysis.positions.insert (.binding d.name) index).get? name = some found :=
      hfound
    rw [Table.get?_insert] at hfound
    split at hfound
    · rename_i hname
      exact .inl ⟨d, hlast, eq_of_beq hname, Option.some.inj hfound ▸ hindex⟩
    · rename_i hname
      rcases h.positions name found hfound with ⟨other, ho, hother⟩ | ⟨hearlier, hnew⟩
      · exact .inl ⟨other, List.mem_append_left _ ho, hother⟩
      · refine .inr ⟨hearlier, fun other ho => ?_⟩
        rcases List.mem_append.1 ho with ho | ho
        · exact hnew other ho
        · rw [List.mem_singleton.1 ho]
          exact fun heq => hname (beq_iff_eq.2 heq)
  case placed =>
    intro other ho
    rcases List.mem_append.1 ho with ho | ho
    · exact hplaced _ (.inr (h.placed other ho))
    · rw [List.mem_singleton.1 ho]
      exact hplaced _ (.inl rfl)
  case dependents =>
    intro free name hname
    rcases Multimap.mem_get_extend.1 hname with hold | hnew
    · obtain ⟨hposition, other, ho, hother⟩ := h.dependents free name hold
      refine ⟨hplaced _ (.inr hposition), other, ?_, hother⟩
      rw [← List.append_assoc]
      exact List.mem_append_left _ ho
    · obtain ⟨other, hother, hpair⟩ := List.mem_map.1 hnew
      obtain ⟨rfl, rfl⟩ := Prod.mk.inj hpair
      exact ⟨hplaced _ (.inl rfl), d, List.mem_append_right _ hlast, rfl, hother⟩
  case distinct => exact fun free => Multimap.nodup_get_extend h.distinct free
  case worklist =>
    intro name hname
    rcases List.mem_append.1 hname with hname | hname
    · obtain ⟨other, ho, heq⟩ := h.worklist name hname
      exact ⟨other, List.mem_append_left _ ho, heq⟩
    · exact ⟨d, hlast, List.mem_singleton.1 hname⟩
  case aside =>
    have hown : ∀ {f params}, functions.get? f = some params →
        params = d.paramNames ∨ analysis.functionParams.get? f = some params := by
      intro f params hfunction
      rw [hfunctions] at hfunction
      split at hfunction
      · obtain ⟨list, hlist, rfl⟩ := Option.map_eq_some_iff.1 hfunction
        rw [Definition.paramNames, hlist]
        exact .inl rfl
      · exact .inr hfunction
    refine ⟨fun f params hfunction => ?_, fun top htop params hfunction p hp => ?_⟩
    · rcases hown hfunction with rfl | hold
      · exact hlocals.mono d.paramNames_subset
      · exact h.aside.inside f params hold
    · show values.get? p = some .nonConstant
      rw [hvalues]
      split
      · rfl
      · rename_i hnone
        rcases hown hfunction with rfl | hold
        · exact (hnone hp).elim
        · exact h.aside.unknown top htop params hold p hp

/-- The declarations of a list are given their places one after the other. -/
theorem Laid.scheduleList (h : Laid tops ns earlier done analysis)
    (places : List (Declaration × Nat))
    (hplaces : ∀ place ∈ places, ns.declarations[place.2]? = some place.1)
    (hlocals : ∀ d ∈ ns.definitions, BoundInside tops d.body.boundNames) :
    Laid tops ns earlier (done ++ (places.map Prod.fst).flatMap Declaration.definitions)
      (places.forM (fun (declaration, index) =>
        match declaration with
        | .data _ => pure ()
        | .definition d => Analyse.schedule index d) analysis).2 := by
  induction places generalizing done analysis with
  | nil =>
    rw [List.map_nil, List.flatMap_nil, List.append_nil]
    exact h
  | cons place rest ih =>
    obtain ⟨declaration, index⟩ := place
    have hrest : ∀ place ∈ rest, ns.declarations[place.2]? = some place.1 := fun place hplace =>
      hplaces place (List.mem_cons_of_mem _ hplace)
    rw [List.map_cons, List.flatMap_cons, ← List.append_assoc]
    cases declaration with
    | data d =>
      rw [show (Declaration.data d).definitions = [] from rfl, List.append_nil]
      exact ih h hrest
    | definition d =>
      have hindex := hplaces _ List.mem_cons_self
      have hd := Namespace.mem_definitions.2 (List.mem_of_getElem? hindex)
      exact ih (h.schedule hindex (hlocals d hd)) hrest

/-- After the declarations of a namespace have been scheduled, its definitions have places in it. -/
theorem Laid.scheduleAll (h : Laid tops ns earlier [] analysis)
    (hlocals : ∀ d ∈ ns.definitions, BoundInside tops d.body.boundNames) :
    Laid tops ns earlier ns.definitions (Analyse.scheduleAll ns.declarations analysis).2 := by
  have hdeclared : Laid tops ns earlier [] (ns.declarations.forM Analyse.declare analysis).2 :=
    Laid.forM (fun declaration _ _ hbefore => hbefore.declare declaration) h
  have hall := hdeclared.scheduleList ns.declarations.zipIdx
    (fun place hplace => List.mem_zipIdx_iff_getElem?.1 hplace) hlocals
  rw [List.nil_append, List.zipIdx_map_fst] at hall
  exact hall

/-! ### Entries at the top level -/

/-- A run that keeps the entries of names at the top level. -/
def KeepsTops (tops : QualifiedName → Prop) (run : Analyse Unit) : Prop :=
  ∀ before top, tops top →
    (run before).2.lookup (.binding top) = before.lookup (.binding top)

theorem KeepsTops.forM {α : Type} {items : List α} {f : α → Analyse Unit}
    (h : ∀ item ∈ items, KeepsTops tops (f item)) : KeepsTops tops (items.forM f) := by
  induction items with
  | nil => exact fun _ _ _ => rfl
  | cons item rest ih =>
    intro before top htop
    have hrest := ih fun other ho => h other (List.mem_cons_of_mem _ ho)
    exact (hrest _ top htop).trans (h item List.mem_cons_self before top htop)

theorem keepsTops_declare (declaration : Declaration) :
    KeepsTops tops (Analyse.declare declaration) := by
  cases declaration with
  | data d =>
    refine KeepsTops.forM fun c _ before top _ => ?_
    let mid := { before with bound := before.bound ++ [Name.constructor c.name] }
    exact mid.lookup_record_of_ne c.known nofun
  | definition d => exact fun _ _ _ => rfl

theorem keepsTops_schedule (index : Nat) {d : Definition}
    (hlocals : BoundInside tops d.body.boundNames) : KeepsTops tops (Analyse.schedule index d) := by
  intro before top htop
  obtain ⟨values, changes, functions, heq, hvalues, -⟩ := schedule_eq index d before
  have hnone : .binding top ∉ d.paramNames := fun hmem =>
    hlocals top htop (d.paramNames_subset hmem)
  rw [heq]
  show (values.get? (.binding top)).getD .unassigned = _
  rw [hvalues, if_neg hnone]
  rfl

/-- Nothing becomes known about definitions before they are analysed. -/
theorem keepsTops_scheduleAll (hlocals : ∀ d ∈ ns.definitions, BoundInside tops d.body.boundNames) :
    KeepsTops tops (Analyse.scheduleAll ns.declarations) := by
  have hdeclare : KeepsTops tops (ns.declarations.forM Analyse.declare) :=
    KeepsTops.forM fun declaration _ => keepsTops_declare declaration
  have hschedule : KeepsTops tops (ns.declarations.zipIdx.forM fun (declaration, index) =>
      match declaration with
      | .data _ => pure ()
      | .definition d => Analyse.schedule index d) := by
    refine KeepsTops.forM fun place hplace => ?_
    obtain ⟨_ | d, index⟩ := place
    · exact fun _ _ _ => rfl
    · have hd := List.mem_of_getElem? (List.mem_zipIdx_iff_getElem?.1 hplace)
      exact keepsTops_schedule index (hlocals d (Namespace.mem_definitions.2 hd))
  exact fun before top htop => (hschedule _ top htop).trans (hdeclare before top htop)

end Places

/-! ## The worklist of a namespace -/

/-- Nothing but the definitions of a namespace gets on the worklist, and each has its place. -/
structure Confined (tops : QualifiedName → Prop) (ns : Namespace) (analysis : Analysis) :
    Prop where
  placed : ∀ d ∈ ns.definitions, ∃ index other,
    analysis.positions.get? (.binding d.name) = some index ∧
      ns.declarations[index]? = some (.definition other) ∧ other.name = d.name
  keyed : ∀ name, analysis.positions.get? name ≠ none → ∃ top, tops top ∧ name = .binding top
  calls : ∀ d ∈ ns.definitions, ∀ f ∈ d.body.handedTo, analysis.positions.get? f ≠ none →
    ns.Defines f
  dependents : ∀ d ∈ ns.definitions, ∀ name ∈ analysis.dependents.get (.binding d.name),
    ns.Defines name
  worklist : ∀ name ∈ analysis.worklist, ns.Defines name
  aside : Aside tops analysis

/-- Definitions of a namespace are taken from the worklist until it is empty, and each is analysed
with its own body.  That changes nothing that is known about other definitions. -/
inductive Works (tops : QualifiedName → Prop) (ns : Namespace) : Analysis → Analysis → Prop where
  | empty {analysis} : analysis.worklist = [] → Works tops ns analysis analysis
  | next {before mid last d rest} : d ∈ ns.definitions →
      before.worklist = .binding d.name :: rest →
      mid = (Analyse.definition (.binding d.name) d { before with worklist := rest }).2 →
      (∀ top, tops top → top ≠ d.name →
        mid.lookup (.binding top) = before.lookup (.binding top)) →
      Works tops ns mid last → Works tops ns before last

section Worklist

variable {tops : QualifiedName → Prop} {ns : Namespace} {earlier : List Definition}
  {analysis last : Analysis} {names : List Name} {size : Nat}

/-- The definitions of other namespaces stay off the worklist. -/
theorem Laid.confined (h : Laid tops ns earlier ns.definitions analysis)
    (htops : ∀ d ∈ earlier ++ ns.definitions, tops d.name)
    (hcalls : ∀ d ∈ ns.definitions, ∀ f ∈ d.body.handedTo, ∀ other ∈ earlier,
      f ≠ .binding other.name)
    (hforward : ∀ d ∈ earlier, ∀ f ∈ d.freeVariables, ∀ other ∈ ns.definitions,
      f ≠ .binding other.name) : Confined tops ns analysis where
  placed d hd := by
    obtain ⟨index, hindex⟩ := Option.ne_none_iff_exists'.1 (h.placed d hd)
    rcases h.positions _ index hindex with ⟨other, -, hname, hother⟩ | ⟨-, hnew⟩
    · exact ⟨index, other, hindex, hother, (Name.binding.inj hname).symm⟩
    · exact (hnew d hd rfl).elim
  keyed name hplaced := by
    obtain ⟨index, hindex⟩ := Option.ne_none_iff_exists'.1 hplaced
    rcases h.positions name index hindex with ⟨d, hd, hname, -⟩ | ⟨⟨d, hd, hname⟩, -⟩
    · exact ⟨d.name, htops d (List.mem_append_right _ hd), hname⟩
    · exact ⟨d.name, htops d (List.mem_append_left _ hd), hname⟩
  calls d hd f hf hplaced := by
    obtain ⟨index, hindex⟩ := Option.ne_none_iff_exists'.1 hplaced
    rcases h.positions f index hindex with ⟨other, ho, hname, -⟩ | ⟨⟨other, ho, hname⟩, -⟩
    · exact ⟨other, ho, hname⟩
    · exact (hcalls d hd f hf other ho hname).elim
  dependents d hd name hname := by
    obtain ⟨-, other, ho, heq, hfree⟩ := h.dependents _ name hname
    rcases List.mem_append.1 ho with ho | ho
    · exact (hforward other ho _ hfree d hd rfl).elim
    · exact ⟨other, ho, heq⟩
  worklist := h.worklist
  aside := h.aside

/-- Before the worklist is looked at, the analysis of a definition has changed what is known about
no other definition. -/
theorem recorded_pushes {d : Definition} (haside : Aside tops analysis)
    (hlocals : BoundInside tops d.body.boundNames) {result : Lattice} {after : Analysis}
    (hresult : Analyse.record (.binding d.name) (Analyse.expr d.body.inner analysis).1
      (Analyse.expr d.body.inner analysis).2 = (result, after)) :
    Aside tops after ∧
      Pushes (fun top => tops top ∧ top ≠ d.name) d.body.handedTo analysis after := by
  let others := fun top => tops top ∧ top ≠ d.name
  have hinner : BoundInside tops d.body.inner.boundNames := hlocals.mono d.inner_boundNames_subset
  have hafter : (Analyse.record (.binding d.name) (Analyse.expr d.body.inner analysis).1
      (Analyse.expr d.body.inner analysis).2).2 = after := congrArg Prod.snd hresult
  constructor
  · have hbody := ((pushes_all tops).2 _ hinner analysis haside).aside
    have hrises := (Analyse.expr d.body.inner analysis).2.rises_record (.binding d.name)
      (Analyse.expr d.body.inner analysis).1
    obtain ⟨values, changes, hrest⟩ := record_rest (Analyse.expr d.body.inner analysis).2
      (.binding d.name) (Analyse.expr d.body.inner analysis).1
    rw [← hafter, show (Analyse.record (.binding d.name) _ _).2 = _ from hrest]
    rw [hrest] at hrises
    exact hbody.rises hrises rfl
  · have hbody : Pushing others d.body.inner.handedTo (Analyse.expr d.body.inner) :=
      (pushes_all others).2 _ fun top htop => hinner top htop.1
    have hrun := hbody.bind fun value =>
      pushing_record (fun _ htop heq => htop.2 (Name.binding.inj heq)) value
    have hside : Aside others analysis :=
      ⟨fun f params hparams top htop => haside.inside f params hparams top htop.1,
        fun top htop => haside.unknown top htop.1⟩
    rw [← hafter, ← d.body.inner_handedTo]
    exact hrun analysis hside

/-- The analysis of a definition schedules what it calls with functions and what depends on it, and
changes what is known about no other definition. -/
theorem definition_pushes {d : Definition} (haside : Aside tops analysis)
    (hlocals : BoundInside tops d.body.boundNames) :
    (∃ extra, (Analyse.definition (.binding d.name) d analysis).2.worklist =
        analysis.worklist ++ extra ∧
      ∀ other ∈ extra, (analysis.positions.get? other ≠ none ∧
          ∀ top, tops top → top ≠ d.name → other = .binding top → other ∈ d.body.handedTo) ∨
        other ∈ analysis.dependents.get (.binding d.name)) ∧
    Aside tops (Analyse.definition (.binding d.name) d analysis).2 ∧
    ∀ top, tops top → top ≠ d.name →
      (Analyse.definition (.binding d.name) d analysis).2.lookup (.binding top) =
        analysis.lookup (.binding top) := by
  have hfixed := (advances_definition (.binding d.name) d analysis).fixed.2.2
  generalize hresult : Analyse.record (.binding d.name) (Analyse.expr d.body.inner analysis).1
    (Analyse.expr d.body.inner analysis).2 = pair at hfixed
  obtain ⟨result, after⟩ := pair
  obtain ⟨hside, hpushes⟩ := recorded_pushes haside hlocals hresult
  obtain ⟨extra, hworklist, hextra⟩ := hpushes.worklist
  have hscheduled : ∀ other ∈ extra, analysis.positions.get? other ≠ none ∧
      ∀ top, tops top → top ≠ d.name → other = .binding top → other ∈ d.body.handedTo :=
    fun other hother => ⟨(hextra other hother).1, fun top htop hne =>
      (hextra other hother).2 top ⟨htop, hne⟩⟩
  have hentries := fun top htop hne => hpushes.entries top ⟨htop, hne⟩
  rcases definition_cases (.binding d.name) d analysis hresult with ⟨-, heq⟩ | ⟨-, heq⟩
  · rw [heq]
    refine ⟨⟨extra ++ after.dependents.get (.binding d.name), ?_, fun other hother => ?_⟩,
      hside.withWorklist _, hentries⟩
    · show after.worklist ++ after.dependents.get (.binding d.name) = _
      rw [hworklist, List.append_assoc]
    · rw [← hfixed]
      exact (List.mem_append.1 hother).imp_left (hscheduled other)
  · rw [heq]
    exact ⟨⟨extra, hworklist, fun other hother => .inl (hscheduled other hother)⟩, hside, hentries⟩

theorem Confined.withWorklist (h : Confined tops ns analysis) {worklist : List Name}
    (hworklist : worklist ⊆ analysis.worklist) :
    Confined tops ns { analysis with worklist := worklist } :=
  ⟨h.placed, h.keyed, h.calls, h.dependents,
    fun name hname => h.worklist name (hworklist hname), h.aside.withWorklist worklist⟩

theorem Confined.definition (h : Confined tops ns analysis) {d : Definition}
    (hd : d ∈ ns.definitions) (hlocals : BoundInside tops d.body.boundNames) :
    Confined tops ns (Analyse.definition (.binding d.name) d analysis).2 := by
  obtain ⟨hpositions, hdependents⟩ := definition_fixed (.binding d.name) d analysis
  obtain ⟨⟨extra, hworklist, hextra⟩, haside, -⟩ := definition_pushes h.aside hlocals
  constructor
  case placed =>
    rw [hpositions]
    exact h.placed
  case keyed =>
    rw [hpositions]
    exact h.keyed
  case calls =>
    rw [hpositions]
    exact h.calls
  case dependents =>
    rw [hdependents]
    exact h.dependents
  case aside => exact haside
  case worklist =>
    intro name hname
    rw [hworklist] at hname
    rcases List.mem_append.1 hname with hname | hname
    · exact h.worklist name hname
    · rcases hextra name hname with ⟨hplaced, hcalled⟩ | hdependent
      · obtain ⟨top, htop, rfl⟩ := h.keyed name hplaced
        by_cases hown : top = d.name
        · exact ⟨d, hd, by rw [hown]⟩
        · exact h.calls d hd _ (hcalled top htop hown rfl) hplaced
      · exact h.dependents d hd name hdependent

/-- What is found at the place of a name is a definition of that name. -/
theorem Confined.scheduled (h : Confined tops ns analysis) {name : Name} (hname : ns.Defines name) :
    ∃ d ∈ ns.definitions, name = .binding d.name ∧
      Analyse.scheduled ns.declarations name analysis =
        .ok () (Analyse.definition (.binding d.name) d analysis).2 := by
  obtain ⟨own, hown, rfl⟩ := hname
  obtain ⟨index, d, hindex, hd, heq⟩ := h.placed own hown
  refine ⟨d, Namespace.mem_definitions.2 (List.mem_of_getElem? hd), by rw [heq], ?_⟩
  rw [Analyse.scheduled_apply, hindex, ← heq]
  simp only [hd]
  rfl

theorem Confined.drain {fuel : Nat} (h : Confined tops ns analysis)
    (hlocals : ∀ d ∈ ns.definitions, BoundInside tops d.body.boundNames)
    (hcounted : Counted ns.declarations names size analysis)
    (hfuel : distance names size analysis ≤ fuel) :
    ∃ last, Analyse.drain ns.declarations fuel analysis = .ok () last ∧
      Works tops ns analysis last ∧ Aside tops last := by
  induction fuel generalizing analysis with
  | zero =>
    have hlength : analysis.worklist.length + _ ≤ 0 := hfuel
    exact ⟨analysis, rfl, .empty (List.length_eq_zero_iff.1 (by omega)), h.aside⟩
  | succ fuel ih =>
    cases hworklist : analysis.worklist with
    | nil =>
      refine ⟨analysis, ?_, .empty hworklist, h.aside⟩
      rw [Analyse.drain_succ, hworklist]
      rfl
    | cons name rest =>
      have hpopped : Confined tops ns { analysis with worklist := rest } :=
        h.withWorklist (hworklist ▸ List.subset_cons_self name rest)
      have hless : distance names size { analysis with worklist := rest } <
          distance names size analysis := distance_popped hworklist
      have hname : ns.Defines name := h.worklist name (hworklist ▸ List.mem_cons_self)
      obtain ⟨d, hd, rfl, hscheduled⟩ := hpopped.scheduled hname
      obtain ⟨index, -, hindex, -⟩ := h.placed d hd
      have hkeyed := hcounted.keyed (.binding d.name) (by rw [hindex]; exact nofun)
      obtain ⟨-, hnext, hdistance⟩ := (hcounted.withWorklist rest).definition hkeyed
        (Namespace.mem_definitions.1 hd)
      obtain ⟨last, hlast, hworks, haside⟩ :=
        ih (hpopped.definition hd (hlocals d hd)) hnext (by omega)
      obtain ⟨-, -, hentries⟩ := definition_pushes hpopped.aside (hlocals d hd)
      exact ⟨last, (drain_next hworklist hscheduled).trans hlast,
        .next hd hworklist rfl hentries hworks, haside⟩

theorem Works.worklist_eq (h : Works tops ns analysis last) : last.worklist = [] := by
  induction h with
  | empty hworklist => exact hworklist
  | next _ _ _ _ _ ih => exact ih

theorem Works.fixed (h : Works tops ns analysis last) :
    last.positions = analysis.positions ∧ last.dependents = analysis.dependents := by
  induction h with
  | empty _ => exact ⟨rfl, rfl⟩
  | @next before mid last d rest _ _ hmid _ _ ih =>
    obtain ⟨hpositions, hdependents⟩ := definition_fixed (.binding d.name) d
      { before with worklist := rest }
    rw [← hmid] at hpositions hdependents
    exact ⟨ih.1.trans hpositions, ih.2.trans hdependents⟩

/-- What one namespace leaves on record is earlier than the next namespace. -/
theorem Laid.later (h : Laid tops ns earlier ns.definitions analysis)
    (hworks : Works tops ns analysis last) (haside : Aside tops last) (next : Namespace) :
    Laid tops next (earlier ++ ns.definitions) [] last := by
  obtain ⟨hpositions, hdependents⟩ := hworks.fixed
  constructor
  case positions =>
    intro name index hindex
    rw [hpositions] at hindex
    refine .inr ⟨?_, nofun⟩
    rcases h.positions name index hindex with ⟨d, hd, hname, -⟩ | ⟨⟨d, hd, hname⟩, -⟩
    · exact ⟨d, List.mem_append_right _ hd, hname⟩
    · exact ⟨d, List.mem_append_left _ hd, hname⟩
  case placed => exact nofun
  case dependents =>
    rw [hpositions, hdependents, List.append_nil]
    exact h.dependents
  case distinct =>
    rw [hdependents]
    exact h.distinct
  case worklist =>
    rw [hworks.worklist_eq]
    exact nofun
  case aside => exact haside

end Worklist

/-! ## Several namespaces -/

/-- A definition of one of the namespaces has the name. -/
def Namespace.Tops (namespaces : List Namespace) (top : QualifiedName) : Prop :=
  ∃ ns ∈ namespaces, ∃ d ∈ ns.definitions, d.name = top

/-- No namespace calls a definition of an earlier one with a function or refers to a later one, and
no definition is bound again inside of one. -/
structure Namespace.InOrder (namespaces : List Namespace) : Prop where
  apart : namespaces.Pairwise Namespace.Apart
  inside : ∀ ns ∈ namespaces, ∀ d ∈ ns.definitions, ∀ other ∈ namespaces,
    ∀ top ∈ other.definitions, .binding top.name ∉ d.body.boundNames

/-- Namespaces are analysed one after the other.  Each call ends in the same state whether the
namespace is simplified then or not, and what is known about definitions changes only where the
worklist is worked off. -/
inductive InTurn (tops : QualifiedName → Prop) : List Namespace → Analysis → Analysis → Prop where
  | nil {analysis} : InTurn tops [] analysis analysis
  | cons {ns rest before start mid last} :
      Analyse.declarations ns.declarations before = .ok () mid →
      Analyse.optimise ns before =
        .ok { ns with declarations := ns.declarations.map mid.simplifyDeclaration } mid →
      start = (Analyse.scheduleAll ns.declarations before).2 →
      (∀ top, tops top → start.lookup (.binding top) = before.lookup (.binding top)) →
      Works tops ns start mid → InTurn tops rest mid last → InTurn tops (ns :: rest) before last

section InTurn

variable {tops : QualifiedName → Prop} {ns : Namespace} {earlier : List Definition}
  {analysis mid : Analysis}

/-- A namespace that keeps apart from the earlier ones is analysed to the end. -/
theorem Laid.declarations (h : Laid tops ns earlier [] analysis)
    (hlocals : ∀ d ∈ ns.definitions, BoundInside tops d.body.boundNames)
    (htops : ∀ d ∈ earlier ++ ns.definitions, tops d.name)
    (hcalls : ∀ d ∈ ns.definitions, ∀ f ∈ d.body.handedTo, ∀ other ∈ earlier,
      f ≠ .binding other.name)
    (hforward : ∀ d ∈ earlier, ∀ f ∈ d.freeVariables, ∀ other ∈ ns.definitions,
      f ≠ .binding other.name) :
    ∃ mid, Analyse.declarations ns.declarations analysis = .ok () mid ∧
      Works tops ns (Analyse.scheduleAll ns.declarations analysis).2 mid ∧
      ∀ next, Laid tops next (earlier ++ ns.definitions) [] mid := by
  have hlaid := h.scheduleAll hlocals
  obtain ⟨names, size, hcounted, hfuel⟩ := exists_counted ns.declarations hlaid.distinct
    fun free name hname => (hlaid.dependents free name hname).1
  obtain ⟨mid, hrun, hworks, haside⟩ :=
    (hlaid.confined htops hcalls hforward).drain hlocals hcounted hfuel
  exact ⟨mid, hrun, hworks, hlaid.later hworks haside⟩

theorem optimise_of_declarations
    (h : Analyse.declarations ns.declarations analysis = .ok () mid) :
    Analyse.optimise ns analysis =
      .ok { ns with declarations := ns.declarations.map mid.simplifyDeclaration } mid := by
  show EStateM.bind (Analyse.declarations ns.declarations) _ analysis = _
  rw [EStateM.bind, h]
  rfl

theorem Laid.inTurn {namespaces : List Namespace} (h : ∀ ns, Laid tops ns earlier [] analysis)
    (hapart : namespaces.Pairwise Namespace.Apart)
    (hlocals : ∀ ns ∈ namespaces, ∀ d ∈ ns.definitions, BoundInside tops d.body.boundNames)
    (hearlier : ∀ d ∈ earlier, tops d.name)
    (htops : ∀ ns ∈ namespaces, ∀ d ∈ ns.definitions, tops d.name)
    (hcalls : ∀ ns ∈ namespaces, ∀ d ∈ ns.definitions, ∀ f ∈ d.body.handedTo,
      ∀ other ∈ earlier, f ≠ .binding other.name)
    (hforward : ∀ ns ∈ namespaces, ∀ d ∈ earlier, ∀ f ∈ d.freeVariables,
      ∀ other ∈ ns.definitions, f ≠ .binding other.name) :
    ∃ last, InTurn tops namespaces analysis last := by
  induction namespaces generalizing earlier analysis with
  | nil => exact ⟨analysis, .nil⟩
  | cons ns rest ih =>
    obtain ⟨hfirst, hrest⟩ := List.pairwise_cons.1 hapart
    have hown := hlocals ns List.mem_cons_self
    have hnames : ∀ d ∈ earlier ++ ns.definitions, tops d.name := fun d hd =>
      (List.mem_append.1 hd).elim (hearlier d) (htops ns List.mem_cons_self d)
    obtain ⟨mid, hrun, hworks, hlater⟩ := (h ns).declarations hown hnames
      (hcalls ns List.mem_cons_self) (hforward ns List.mem_cons_self)
    have hcallsLater : ∀ next ∈ rest, ∀ d ∈ next.definitions, ∀ f ∈ d.body.handedTo,
        ∀ other ∈ earlier ++ ns.definitions, f ≠ .binding other.name := by
      intro next hnext d hd f hf other ho
      rcases List.mem_append.1 ho with ho | ho
      · exact hcalls next (List.mem_cons_of_mem _ hnext) d hd f hf other ho
      · exact (hfirst next hnext).1 d hd f hf other ho
    have hforwardLater : ∀ next ∈ rest, ∀ d ∈ earlier ++ ns.definitions, ∀ f ∈ d.freeVariables,
        ∀ other ∈ next.definitions, f ≠ .binding other.name := by
      intro next hnext d hd
      rcases List.mem_append.1 hd with hd | hd
      · exact hforward next (List.mem_cons_of_mem _ hnext) d hd
      · exact (hfirst next hnext).2 d hd
    obtain ⟨last, hlast⟩ := ih hlater hrest
      (fun next hnext => hlocals next (List.mem_cons_of_mem _ hnext)) hnames
      (fun next hnext => htops next (List.mem_cons_of_mem _ hnext)) hcallsLater hforwardLater
    exact ⟨last, .cons hrun (optimise_of_declarations hrun) rfl
      (keepsTops_scheduleAll hown analysis) hworks hlast⟩

/-- One analysis serves several namespaces, as long as none calls a definition of an earlier one
with a function and none refers to a later one.  No call looks beyond the declarations of its
namespace, only definitions of that namespace are analysed, each with its own body, and what is
known about a definition changes at no other time. -/
theorem analysis_in_turn {namespaces : List Namespace} (h : Namespace.InOrder namespaces) :
    ∃ last, InTurn (Namespace.Tops namespaces) namespaces Analysis.start last := by
  refine Laid.inTurn (laid_start _) h.apart (fun ns hns d hd top htop => ?_) nofun
    (fun ns hns d hd => ⟨ns, hns, d, hd, rfl⟩) (fun _ _ _ _ _ _ => nofun) (fun _ _ => nofun)
  obtain ⟨other, hother, definition, hdefinition, rfl⟩ := htop
  exact h.inside ns hns d hd other hother definition hdefinition

end InTurn

/-! ## Calls of earlier definitions -/

/-- A function that ignores its argument, after other declarations. -/
def Namespace.ignoring (declarations : List Declaration) : Namespace :=
  let int := Ty.builtIn .int
  let function := Ty.function [int] int
  let ns : NamespaceName := ⟨[], "ignoring"⟩
  ⟨ns, declarations ++ [.definition ⟨⟨ns, "f"⟩, .function [function] int,
    .value (.lambda [⟨.bound "g" 0, function⟩] (.value (.literal (.int 1))))⟩]⟩

/-- A function that returns its argument. -/
def Definition.returning : Definition :=
  let int := Ty.builtIn .int
  let y := Name.bound "y" 0
  ⟨⟨⟨[], "ignoring"⟩, "same"⟩, .function [int] int,
    .value (.lambda [⟨y, int⟩] (.value (.reference y int)))⟩

/-- One function of another namespace is called, and one is handed on. -/
def Namespace.importing : Namespace :=
  let int := Ty.builtIn .int
  let function := Ty.function [int] int
  let ns : NamespaceName := ⟨[], "importing"⟩
  let ignoring : NamespaceName := ⟨[], "ignoring"⟩
  ⟨ns, [.definition ⟨⟨ns, "two"⟩, int,
      .apply int (.reference (.binding ⟨ignoring, "same"⟩) function) [.literal (.int 2)]⟩,
    .definition ⟨⟨ns, "other"⟩, .function [function] int,
      .value (.reference (.binding ⟨ignoring, "f"⟩) (.function [function] int))⟩]⟩

/-- The function that ignores its argument is called with a function. -/
def Namespace.calling : Namespace :=
  let int := Ty.builtIn .int
  let function := Ty.function [int] int
  let ns : NamespaceName := ⟨[], "calling"⟩
  let y := Name.bound "y" 0
  ⟨ns, [.definition ⟨⟨ns, "h"⟩, int, .block
    [.assign (.bound "x" 0) int (.apply int
      (.reference (.binding ⟨⟨[], "ignoring"⟩, "f"⟩) (.function [function] int))
      [.lambda [⟨y, int⟩] (.value (.reference y int))])]
    (.value (.literal (.int 2)))⟩]⟩

theorem inOrder_importing :
    Namespace.InOrder [.ignoring [.definition Definition.returning], .importing] where
  apart := by decide
  inside := by decide

theorem analysis_in_turn_importing :
    Namespace.InOrder [.ignoring [.definition Definition.returning], .importing] ∧
    ∃ last, InTurn
      (Namespace.Tops [.ignoring [.definition Definition.returning], .importing])
      [.ignoring [.definition Definition.returning], .importing] Analysis.start last :=
  ⟨inOrder_importing, analysis_in_turn inOrder_importing⟩

/-- One analysis of several namespaces. -/
def Analyse.namespaces (namespaces : List Namespace) : Run Analysis Unit :=
  namespaces.forM fun ns => Analyse.declarations ns.declarations

/-- What is known about a definition after several namespaces. -/
def Analyse.knownAfter? (namespaces : List Namespace) (name : QualifiedName) : Option Lattice :=
  match Analyse.namespaces namespaces Analysis.start with
  | .ok () known => known.values.get? (.binding name)
  | .error _ _ => none

/-- The number of declarations, and the place beyond them at which one was looked for. -/
def Analyse.beyond? (namespaces : List Namespace) : Option (Nat × Nat) :=
  match Analyse.namespaces namespaces Analysis.start with
  | .error (.noDeclaration count index) _ => some (count, index)
  | _ => none

theorem Analyse.eq_ok_of_knownAfter? {namespaces : List Namespace} {name : QualifiedName}
    {value : Lattice} (h : Analyse.knownAfter? namespaces name = some value) :
    ∃ known, Analyse.namespaces namespaces Analysis.start = .ok () known ∧
      known.values.get? (.binding name) = some value := by
  unfold knownAfter? at h
  split at h
  · exact ⟨_, ‹_›, h⟩
  · cases h

theorem Analyse.eq_error_of_beyond? {namespaces : List Namespace} {count index : Nat}
    (h : Analyse.beyond? namespaces = some (count, index)) :
    ∃ after, Analyse.namespaces namespaces Analysis.start =
      .error (.noDeclaration count index) after := by
  unfold beyond? at h
  split at h
  · obtain ⟨rfl, rfl⟩ := Prod.mk.inj (Option.some.inj h)
    exact ⟨_, ‹_›⟩
  · cases h

/-- A call of an earlier definition with a function puts it on the worklist again.  Whatever stands
at its place by then is analysed in its stead, and nothing may stand there. -/
theorem exists_called_across :
    (∃ known, Analyse.namespaces [.ignoring []] Analysis.start = .ok () known ∧
      known.values.get? (.binding ⟨⟨[], "ignoring"⟩, "f"⟩) = some (.constant (.int 1))) ∧
    (∃ known, Analyse.namespaces [.ignoring [], .calling] Analysis.start = .ok () known ∧
      known.values.get? (.binding ⟨⟨[], "ignoring"⟩, "f"⟩) = some .nonConstant) ∧
    ∃ after, Analyse.namespaces [.ignoring [.definition ⟨⟨⟨[], "ignoring"⟩, "d"⟩, .builtIn .int,
        .value (.literal (.int 0))⟩], .calling] Analysis.start =
      .error (.noDeclaration 1 1) after := by
  refine ⟨Analyse.eq_ok_of_knownAfter? ?_, Analyse.eq_ok_of_knownAfter? ?_,
    Analyse.eq_error_of_beyond? ?_⟩
  · decide +kernel
  · decide +kernel
  · decide +kernel

end PolyFront.Lowered
