import PolyFront.Proofs.Naming.Alike
import PolyFront.Proofs.Naming.Slots

/-!
# The bindings of a namespace

A declaration brings entries into the frame of its namespace: values, types and fields that claim
their names, and a type for each constructor, which gives way to what is bound already.
Declarations are entered one after the other, so that a slot is bound to its first entry, and
nothing is reported exactly when no claim comes second.  A name without a dot and its canonical
name are bound to the same thing.
-/

namespace PolyFront

/-! ## Frames -/

namespace Frame

variable {ns : NamespaceName} {frame : Frame (Located Name)} {here : Located Name}
  {slot other : Slot}

/-- Bind a slot unless it is bound. -/
def fill (frame : Frame (Located Name)) (slot : Slot) (here : Located Name) :
    Frame (Located Name) :=
  if (frame.slot? slot).isSome then frame else frame.put here slot

theorem slot?_fill (frame : Frame (Located Name)) (slot other : Slot) (here : Located Name) :
    (frame.fill slot here).slot? other =
      (frame.slot? other).or (if other = slot then some here else none) := by
  unfold fill
  by_cases heq : other = slot
  · subst heq
    rw [if_pos rfl]
    cases h : frame.slot? other with
    | none => exact (slot?_put frame here other other).trans (if_pos rfl)
    | some found => exact h
  · rw [if_neg heq, Option.or_none]
    split
    · rfl
    · rw [slot?_put, if_neg heq]

theorem kind_fill (frame : Frame (Located Name)) (slot : Slot) (here : Located Name) :
    (frame.fill slot here).kind = frame.kind := by
  unfold fill
  split
  · rfl
  · cases slot <;> rfl

theorem fill_of_some {found : Located Name} (h : frame.slot? slot = some found) :
    frame.fill slot here = frame := by
  rw [fill, h]
  rfl

/-- Bind a slot and its canonical name, unless they are bound. -/
def enter (frame : Frame (Located Name)) (ns : NamespaceName) (slot : Slot)
    (here : Located Name) : Frame (Located Name) :=
  (frame.fill slot here).fill (slot.canonical ns) here

/-- Names without a dot are bound to what their canonical names are bound to, and no others are
bound. -/
structure Paired (ns : NamespaceName) (frame : Frame (Located Name)) : Prop where
  canonical : ∀ slot : Slot, slot.IsPlain →
    frame.slot? (slot.canonical ns) = frame.slot? slot
  bound : ∀ slot : Slot, frame.slot? slot ≠ none →
    ∃ plain : Slot, plain.IsPlain ∧ (slot = plain ∨ slot = plain.canonical ns)

theorem paired_empty (ns : NamespaceName) (kind : ScopeKind) : (empty kind).Paired ns where
  canonical slot _ := by rw [slot?_empty, slot?_empty]
  bound slot h := (h (slot?_empty kind slot)).elim

/-- A slot that is bound keeps its binding. -/
theorem slot?_enter (hplain : other.IsPlain) :
    (frame.enter ns slot here).slot? other =
      (frame.slot? other).or (if other = slot then some here else none) := by
  rw [enter, slot?_fill, slot?_fill, Option.or_assoc]
  congr 1
  by_cases heq : other = slot
  · rw [if_pos heq]
    rfl
  · rw [if_neg heq, if_neg fun h => heq (Slot.eq_of_eq_canonical hplain h)]
    rfl

theorem kind_enter (frame : Frame (Located Name)) (ns : NamespaceName) (slot : Slot)
    (here : Located Name) : (frame.enter ns slot here).kind = frame.kind := by
  rw [enter, kind_fill, kind_fill]

theorem Paired.enter (h : frame.Paired ns) (hplain : slot.IsPlain) (here : Located Name) :
    (frame.enter ns slot here).Paired ns where
  canonical other hother := by
    rw [slot?_enter hother, Frame.enter, slot?_fill, slot?_fill, h.canonical other hother,
      Option.or_assoc]
    congr 1
    by_cases heq : other = slot
    · rw [if_pos heq, if_pos (congrArg _ heq)]
      split <;> rfl
    · rw [if_neg heq, if_neg fun h => heq (Slot.canonical_injective h),
        if_neg fun h => heq (Slot.eq_of_eq_canonical hplain h.symm).symm]
      rfl
  bound other hother := by
    rw [Frame.enter, slot?_fill, slot?_fill] at hother
    by_cases hbound : frame.slot? other = none
    · by_cases heq : other = slot
      · exact ⟨slot, hplain, .inl heq⟩
      · refine ⟨slot, hplain, .inr ?_⟩
        by_contra hne
        rw [hbound, if_neg heq, if_neg hne] at hother
        exact hother rfl
    · exact h.bound other hbound

/-- Frames bind the same when they bind the same names without a dot. -/
theorem Paired.same {frame' : Frame (Located Name)} (h : frame.Paired ns)
    (h' : frame'.Paired ns) (hkind : frame.kind = frame'.kind)
    (hplain : ∀ slot : Slot, slot.IsPlain → frame.slot? slot = frame'.slot? slot) :
    frame.Same frame' := by
  have hpair : ∀ slot : Slot, (∃ plain : Slot, plain.IsPlain ∧
      (slot = plain ∨ slot = plain.canonical ns)) → frame.slot? slot = frame'.slot? slot := by
    rintro slot ⟨plain, hdot, rfl | rfl⟩
    · exact hplain slot hdot
    · rw [h.canonical plain hdot, h'.canonical plain hdot, hplain plain hdot]
  have hall : ∀ slot, frame.slot? slot = frame'.slot? slot := by
    intro slot
    by_cases hbound : frame.slot? slot = none
    · by_cases hbound' : frame'.slot? slot = none
      · rw [hbound, hbound']
      · exact hpair slot (h'.bound slot hbound')
    · exact hpair slot (h.bound slot hbound)
  exact ⟨hkind, fun key => hall (.value key), fun key => hall (.type key),
    fun constructor key => hall (.field constructor key)⟩

end Frame

/-! ## Entries -/

/-- What a declaration brings into the frame of its namespace. -/
structure Entry where
  slot : Slot
  here : Located Name
  /-- That the slot is taken is reported. -/
  claims : Bool

/-- The entries of a constructor. Its type gives way to other types. -/
def Constructor.entries (data : QualifiedName) (node : Constructor Unit) : List Entry :=
  let name := ConstructorName.ofData data node.name
  let here : Located Name := ⟨node.here.range, .constructor name⟩
  ⟨.value node.name, here, true⟩ :: ⟨.type node.name, here, false⟩ ::
    node.params.map fun param =>
      ⟨.field name param.name, ⟨param.here.range, .field ⟨name, param.name⟩⟩, true⟩

/-- The entries of a declaration. -/
def Declaration.entries (ns : NamespaceName) : Declaration Unit → List Entry
  | .data d =>
    let name : QualifiedName := ⟨ns, d.name⟩
    ⟨.type d.name, ⟨d.here.range, .data name⟩, true⟩ ::
      d.constructors.flatMap (Constructor.entries name)
  | .binding d => [⟨.value d.name, ⟨d.here.range, .binding ⟨ns, d.name⟩⟩, true⟩]
  | .function d => [⟨.value d.name, ⟨d.here.range, .binding ⟨ns, d.name⟩⟩, true⟩]

/-- The second entry does not claim the slot of the first one. -/
def Entry.Clear (earlier later : Entry) : Prop :=
  later.claims = true → earlier.slot ≠ later.slot

namespace Resolve

/-- Bind a slot, unless it is taken. -/
def define (frame : Frame (Located Name)) (here : Located Name) :
    Slot → Resolve (Frame (Located Name))
  | .value name => defineValue frame name here
  | .type name => defineType frame name here
  | .field constructor name => defineField frame constructor name here

/-- Bind the slot of an entry and its canonical name. -/
def addEntry (ns : NamespaceName) (frame : Frame (Located Name)) (entry : Entry) :
    Resolve (Frame (Located Name)) := do
  let frame ← if entry.claims then define frame entry.here entry.slot
    else pure (frame.fill entry.slot entry.here)
  pure (frame.fill (entry.slot.canonical ns) entry.here)

/-- What is taken is reported, and kept. -/
theorem defineUnlessTaken_run (frame bound : Frame (Located Name)) (here : Located Name)
    (s : Resolver) (taken : Option (Located Name)) (what : String) :
    ∃ reports, (match taken with
        | some existing => do
          reportDuplicate what here.range existing.range
          pure frame
        | none => pure bound : Resolve (Frame (Located Name))) s =
          .ok (if taken.isSome then frame else bound) { s with log := reports } ∧
      ∃ more, reports.items = s.log.items ++ more ∧ (more = [] ↔ taken = none) := by
  cases taken with
  | none => exact ⟨s.log, rfl, [], (List.append_nil _).symm, Iff.intro (fun _ => rfl) fun _ => rfl⟩
  | some existing =>
    refine ⟨_, rfl, [_], rfl, ?_⟩
    exact ⟨nofun, nofun⟩

/-- A slot that is taken is reported, and keeps its binding. -/
theorem define_run (frame : Frame (Located Name)) (here : Located Name) (slot : Slot)
    (s : Resolver) : ∃ reports, define frame here slot s = .ok (frame.fill slot here)
        { s with log := reports } ∧
      ∃ more, reports.items = s.log.items ++ more ∧ (more = [] ↔ frame.slot? slot = none) := by
  cases slot <;> exact defineUnlessTaken_run frame _ here s _ _

/-- An entry is bound unless its slot is taken, and a claim on a slot that is taken is reported. -/
theorem addEntry_run (ns : NamespaceName) (frame : Frame (Located Name)) (entry : Entry)
    (s : Resolver) : ∃ reports,
      addEntry ns frame entry s = .ok (frame.enter ns entry.slot entry.here)
        { s with log := reports } ∧
      ∃ more, reports.items = s.log.items ++ more ∧
        (more = [] ↔ (entry.claims = true → frame.slot? entry.slot = none)) := by
  unfold addEntry
  cases hclaims : entry.claims with
  | false =>
    exact ⟨s.log, rfl, [], (List.append_nil _).symm, ⟨fun _ => nofun, fun _ => rfl⟩⟩
  | true =>
    obtain ⟨reports, hrun, more, hmore, hnone⟩ := define_run frame entry.here entry.slot s
    refine ⟨reports, ?_, more, hmore, hnone.trans ⟨fun h _ => h, fun h => h rfl⟩⟩
    show EStateM.bind (define frame entry.here entry.slot) _ s = _
    rw [EStateM.bind, hrun]
    rfl

/-! ## Declarations -/

theorem addEntry_claim (ns : NamespaceName) (frame : Frame (Located Name)) (slot : Slot)
    (here : Located Name) : addEntry ns frame ⟨slot, here, true⟩ = (do
      let frame ← define frame here slot
      pure (frame.fill (slot.canonical ns) here)) := rfl

theorem addEntry_offer (ns : NamespaceName) (frame : Frame (Located Name)) (slot : Slot)
    (here : Located Name) :
    addEntry ns frame ⟨slot, here, false⟩ = pure (frame.enter ns slot here) := rfl

/-- A field has no other name. -/
theorem addEntry_field (ns : NamespaceName) (frame : Frame (Located Name))
    (constructor : ConstructorName) (name : String) (here : Located Name) :
    addEntry ns frame ⟨.field constructor name, here, true⟩ =
      defineField frame constructor name here := by
  funext s
  obtain ⟨reports, hrun, -⟩ := define_run frame here (.field constructor name) s
  have hfilled : (frame.fill (.field constructor name) here).fill (.field constructor name) here =
      frame.fill (.field constructor name) here := by
    have hbound := frame.slot?_fill (.field constructor name) (.field constructor name) here
    cases hslot : frame.slot? (.field constructor name) with
    | none =>
      rw [hslot, if_pos rfl] at hbound
      exact Frame.fill_of_some hbound
    | some found =>
      rw [hslot] at hbound
      exact Frame.fill_of_some hbound
  show EStateM.bind (define frame here (.field constructor name)) _ s = _
  rw [EStateM.bind, hrun]
  show EStateM.Result.ok _ _ = define frame here (.field constructor name) s
  rw [hrun]
  exact congrArg (fun frame => EStateM.Result.ok frame { s with log := reports }) hfilled

theorem populateConstructor_eq (data : QualifiedName) (frame : Frame (Located Name))
    (node : Constructor Unit) : populateConstructor data frame node =
      (node.entries data).foldlM (addEntry data.ns) frame := by
  rw [Constructor.entries, List.foldlM_cons, populateConstructor]
  simp only [List.foldlM_cons, List.foldlM_map, addEntry_field]
  simp only [addEntry_claim, addEntry_offer, bind_assoc, pure_bind]
  rfl

theorem foldlM_flatMap {α β γ : Type} {f : γ → β → Resolve γ} {g : α → List β}
    {h : γ → α → Resolve γ} (hstep : ∀ c a, h c a = (g a).foldlM f c) (items : List α) (start : γ) :
    items.foldlM h start = (items.flatMap g).foldlM f start := by
  induction items generalizing start with
  | nil => rfl
  | cons first rest ih =>
    rw [List.foldlM_cons, List.flatMap_cons, List.foldlM_append, hstep]
    simp only [ih]

theorem populateDeclaration_eq (ns : NamespaceName) (frame : Frame (Located Name))
    (node : Declaration Unit) : populateDeclaration ns frame node =
      (node.entries ns).foldlM (addEntry ns) frame := by
  have hvalue (name : String) (here : Located Name) : (do
        let frame ← defineValue frame name here
        pure (frame.populateValue (QualifiedName.canonical ⟨ns, name⟩) here)) =
      [⟨.value name, here, true⟩].foldlM (addEntry ns) frame := by
    rw [List.foldlM_cons]
    simp only [List.foldlM_nil, bind_pure]
    rfl
  cases node with
  | binding d => exact hvalue d.name _
  | function d => exact hvalue d.name _
  | data d =>
    rw [Declaration.entries, List.foldlM_cons]
    simp only [← foldlM_flatMap (populateConstructor_eq ⟨ns, d.name⟩)]
    simp only [addEntry_claim, bind_assoc, pure_bind]
    rfl

/-- The entries of all declarations are bound one after the other. -/
theorem populate_eq (ns : Namespace Unit) : populate ns =
    (ns.declarations.flatMap (Declaration.entries ns.id.name)).foldlM (addEntry ns.id.name)
      (Frame.empty (.ns ns.id.name)) :=
  foldlM_flatMap (populateDeclaration_eq ns.id.name) _ _

/-- A slot is bound to its first entry, and without a report no claim comes second. -/
theorem addEntries_run {ns : NamespaceName} (entries : List Entry)
    (hplain : ∀ entry ∈ entries, entry.slot.IsPlain) {frame : Frame (Located Name)}
    (hpaired : frame.Paired ns) (s : Resolver) : ∃ frame' reports,
      entries.foldlM (addEntry ns) frame s = .ok frame' { s with log := reports } ∧
      frame'.Paired ns ∧ frame'.kind = frame.kind ∧
      (∀ slot : Slot, slot.IsPlain → frame'.slot? slot = (frame.slot? slot).or
        ((entries.find? fun entry => entry.slot = slot).map Entry.here)) ∧
      ∃ more, reports.items = s.log.items ++ more ∧ (more = [] ↔
        (∀ entry ∈ entries, entry.claims = true → frame.slot? entry.slot = none) ∧
          entries.Pairwise Entry.Clear) := by
  induction entries generalizing frame s with
  | nil =>
    refine ⟨frame, s.log, rfl, hpaired, rfl, fun slot _ => Option.or_none.symm, [],
      (List.append_nil _).symm, ?_⟩
    exact ⟨fun _ => ⟨fun _ h => (List.not_mem_nil h).elim, .nil⟩, fun _ => rfl⟩
  | cons entry rest ih =>
    rw [List.forall_mem_cons] at hplain
    obtain ⟨reports, hrun, more, hmore, hsilent⟩ := addEntry_run ns frame entry s
    obtain ⟨frame', reports', hrest, hpaired', hkind, hslots, more', hmore', hsilent'⟩ :=
      ih hplain.2 (hpaired.enter hplain.1 entry.here) { s with log := reports }
    refine ⟨frame', reports', ?_, hpaired', hkind.trans (Frame.kind_enter _ _ _ _),
      fun slot hslot => ?_, more ++ more', ?_, ?_⟩
    · rw [List.foldlM_cons]
      show EStateM.bind (addEntry ns frame entry) _ s = _
      rw [EStateM.bind, hrun]
      exact hrest
    · rw [hslots slot hslot, Frame.slot?_enter hslot, Option.or_assoc, List.find?_cons]
      congr 1
      by_cases heq : slot = entry.slot
      · rw [if_pos heq, decide_eq_true heq.symm]
        rfl
      · rw [if_neg heq, decide_eq_false fun h => heq h.symm]
        rfl
    · rw [hmore', hmore, List.append_assoc]
    · -- What is bound after the first entry is what was bound before, and its slot.
      have hlater : ∀ other ∈ rest,
          (frame.enter ns entry.slot entry.here).slot? other.slot = none ↔
            frame.slot? other.slot = none ∧ entry.slot ≠ other.slot := by
        intro other hother
        rw [Frame.slot?_enter (hplain.2 other hother), Option.or_eq_none_iff]
        refine and_congr_right fun _ => ?_
        by_cases heq : other.slot = entry.slot
        · simp [heq]
        · simp [heq, Ne.symm heq]
      rw [List.append_eq_nil_iff, hsilent, hsilent', List.forall_mem_cons, List.pairwise_cons]
      constructor
      · rintro ⟨hfirst, hothers, hpairwise⟩
        exact ⟨⟨hfirst, fun other ho hclaims => ((hlater other ho).1 (hothers other ho hclaims)).1⟩,
          fun other ho hclaims => ((hlater other ho).1 (hothers other ho hclaims)).2, hpairwise⟩
      · rintro ⟨⟨hfirst, hothers⟩, hclear, hpairwise⟩
        exact ⟨hfirst, fun other ho hclaims => (hlater other ho).2
          ⟨hothers other ho hclaims, hclear other ho hclaims⟩, hpairwise⟩

/-- The bindings of a namespace are the first entries of its declarations, and without a report no
claim comes second. -/
theorem populate_run (ns : Namespace Unit)
    (hplain : ∀ entry ∈ ns.declarations.flatMap (Declaration.entries ns.id.name),
      entry.slot.IsPlain)
    (s : Resolver) : ∃ frame reports,
      populate ns s = .ok frame { s with log := reports } ∧ frame.Paired ns.id.name ∧
      frame.kind = .ns ns.id.name ∧
      (∀ slot : Slot, slot.IsPlain → frame.slot? slot =
        ((ns.declarations.flatMap (Declaration.entries ns.id.name)).find? fun entry =>
          entry.slot = slot).map Entry.here) ∧
      ∃ more, reports.items = s.log.items ++ more ∧ (more = [] ↔
        (ns.declarations.flatMap (Declaration.entries ns.id.name)).Pairwise Entry.Clear) := by
  obtain ⟨frame, reports, hrun, hpaired, hkind, hslots, more, hmore, hsilent⟩ :=
    addEntries_run _ hplain (Frame.paired_empty ns.id.name (.ns ns.id.name)) s
  refine ⟨frame, reports, (congrFun (populate_eq ns) s).trans hrun, hpaired, hkind,
    fun slot hslot => ?_, more, hmore, hsilent.trans ⟨And.right, fun h => ⟨?_, h⟩⟩⟩
  · rw [hslots slot hslot, Frame.slot?_empty, Option.none_or]
  · exact fun entry _ _ => Frame.slot?_empty _ _

end Resolve

end PolyFront
