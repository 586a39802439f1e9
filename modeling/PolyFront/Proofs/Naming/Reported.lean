import Mathlib
import PolyFront.Proofs.Bindings.Declared
import PolyFront.Proofs.Naming.Accounts

/-!
# What resolution finds and reports

The frame of a namespace offers what its declarations declare, and every declaration is resolved
on top of it.  Hence a mention carries the name of a binder around it or of a declaration of the
namespace, or it carries no name and is reported.  Constructor patterns are looked up among all
values, so that without a report they name a constructor with the fields that are matched, or a
value that is bound to their text.
-/

namespace PolyFront

open Run

/-! ## The frame of the namespace -/

section Values

variable {α : Type}

/-- The values that a declaration binds. -/
def Declaration.values (ns : NamespaceName) : Declaration α → List (String × Name)
  | .data d => d.constructors.map fun c => (c.name, .constructor (.ofData ⟨ns, d.name⟩ c.name))
  | .binding d => [(d.name, .binding ⟨ns, d.name⟩)]
  | .function d => [(d.name, .binding ⟨ns, d.name⟩)]

/-- The values of a namespace, under their own and their canonical texts. -/
def Namespace.values (ns : Namespace α) : List (String × Name) :=
  (ns.declarations.flatMap (Declaration.values ns.id.name)).flatMap fun value =>
    [value, (QualifiedName.canonical ⟨ns.id.name, value.1⟩, value.2)]

/-- A declaration of the namespace binds the field. -/
def Namespace.BindsField (ns : Namespace α) (constructor : ConstructorName) (name : String) :
    Prop :=
  ∃ d ∈ ns.declarations, .field constructor name ∈ d.slots ns.id.name

/-- A value is bound by a declaration, under one of its two texts. -/
theorem Namespace.mem_values {ns : Namespace α} {text : String} {name : Name} :
    (text, name) ∈ ns.values ↔ ∃ d ∈ ns.declarations, ∃ key, (key, name) ∈ d.values ns.id.name ∧
      (text = key ∨ text = QualifiedName.canonical ⟨ns.id.name, key⟩) := by
  constructor
  · intro h
    obtain ⟨⟨key, found⟩, hvalue, hpair⟩ := List.mem_flatMap.1 h
    obtain ⟨d, hd, hvalue⟩ := List.mem_flatMap.1 hvalue
    rcases List.mem_cons.1 hpair with hpair | hpair
    · obtain ⟨rfl, rfl⟩ := Prod.mk.inj hpair
      exact ⟨d, hd, text, hvalue, .inl rfl⟩
    · obtain ⟨htext, rfl⟩ := Prod.mk.inj (List.mem_singleton.1 hpair)
      exact ⟨d, hd, key, hvalue, .inr htext⟩
  · rintro ⟨d, hd, key, hvalue, htext⟩
    refine List.mem_flatMap.2 ⟨(key, name), List.mem_flatMap.2 ⟨d, hd, hvalue⟩, ?_⟩
    rcases htext with rfl | rfl
    · exact List.mem_cons_self
    · exact List.mem_cons_of_mem _ List.mem_cons_self

/-- Other annotations make no difference to what is bound. -/
theorem Declaration.values_traverse {β : Type} (f : α → Id β) (ns : NamespaceName)
    (d : Declaration α) : Declaration.values ns (d.traverse f).run = d.values ns := by
  cases d with
  | data d =>
    have hconstructors : (d.traverse f).run.constructors =
        d.constructors.map fun c => (c.traverse f).run := List.idRun_mapM
    show Declaration.values ns (.data (d.traverse f).run) = _
    rw [values, values, hconstructors, List.map_map]
    rfl
  | binding d =>
    obtain ⟨here, name, ascription, value⟩ := d
    rfl
  | function d => rfl

end Values

/-- An entry for a value is one of the values of its declaration. -/
theorem Declaration.mem_values_of_entry {ns : NamespaceName} {d : Declaration Unit}
    {entry : Entry} (h : entry ∈ d.entries ns) {key : String} (hslot : entry.slot = .value key) :
    (key, entry.here.info) ∈ d.values ns := by
  cases d with
  | data d =>
    rcases List.mem_cons.1 h with rfl | h
    · cases hslot
    · obtain ⟨c, hc, h⟩ := List.mem_flatMap.1 h
      rcases List.mem_cons.1 h with rfl | h
      · obtain rfl := Slot.value.inj hslot
        exact List.mem_map.2 ⟨c, hc, rfl⟩
      · rcases List.mem_cons.1 h with rfl | h
        · cases hslot
        · obtain ⟨param, -, rfl⟩ := List.mem_map.1 h
          cases hslot
  | binding d =>
    obtain rfl := List.mem_singleton.1 h
    obtain rfl := Slot.value.inj hslot
    exact List.mem_cons_self
  | function d =>
    obtain rfl := List.mem_singleton.1 h
    obtain rfl := Slot.value.inj hslot
    exact List.mem_cons_self

theorem Declaration.entries_named {ns : NamespaceName} {d : Declaration Unit} {entry : Entry}
    (h : entry ∈ d.entries ns) : entry.here.info ≠ .nameless := by
  cases d with
  | data d =>
    rcases List.mem_cons.1 h with rfl | h
    · exact nofun
    · obtain ⟨c, -, h⟩ := List.mem_flatMap.1 h
      rcases List.mem_cons.1 h with rfl | h
      · exact nofun
      · rcases List.mem_cons.1 h with rfl | h
        · exact nofun
        · obtain ⟨param, -, rfl⟩ := List.mem_map.1 h
          exact nofun
  | binding d =>
    obtain rfl := List.mem_singleton.1 h
    exact nofun
  | function d =>
    obtain rfl := List.mem_singleton.1 h
    exact nofun

/-- The frame of the namespace may bind an entry under its own and its canonical name. -/
theorem Namespace.admits {ns : Namespace Unit} {entry : Entry}
    (h : entry ∈ ns.declarations.flatMap (Declaration.entries ns.id.name)) :
    entry.slot.Admits ns.values ns.BindsField entry.here ∧
      (entry.slot.canonical ns.id.name).Admits ns.values ns.BindsField entry.here := by
  obtain ⟨d, hd, hentry⟩ := List.mem_flatMap.1 h
  have hnamed := Declaration.entries_named hentry
  cases hslot : entry.slot with
  | value name =>
    have hvalue := Declaration.mem_values_of_entry hentry hslot
    exact ⟨⟨ns.mem_values.2 ⟨d, hd, name, hvalue, .inl rfl⟩, hnamed⟩,
      ⟨ns.mem_values.2 ⟨d, hd, name, hvalue, .inr rfl⟩, hnamed⟩⟩
  | type name => exact ⟨hnamed, hnamed⟩
  | field constructor name =>
    have hbinds : ns.BindsField constructor name := by
      refine ⟨d, hd, ?_⟩
      rw [Declaration.slots_eq_entries, ← hslot]
      exact List.mem_map_of_mem hentry
    exact ⟨hbinds, hbinds⟩

namespace Resolve

open Resolver

variable {names : List (String × Name)} {declares : ConstructorName → String → Prop}
  {s t u : Resolver} {frame : Frame (Located Name)}

/-- A slot is bound in the frame, or it is taken. -/
theorem define_passes (hframe : frame.Offers names declares) {here : Located Name} {slot : Slot}
    (hslot : slot.Admits names declares here) :
    Passes names declares (define frame here slot) (Frame.Offers names declares) := by
  have hdefine (s : Resolver) : Ends (define frame here slot) s fun frame' t =>
      (∃ log, t = { s with log := log } ∧ s.log.Aside log) ∧
        (frame' = frame ∨ frame' = frame.put here slot) := by
    cases slot <;> exact define_aside _ _ _ _ _
  refine Reads.ofEnds fun s => (hdefine s).mono ?_
  rintro frame' _ ⟨⟨log, rfl, haside⟩, rfl | rfl⟩
  · exact ⟨.empty, ⟨rfl, hframe⟩, progress_aside haside⟩
  · exact ⟨.empty, ⟨rfl, hframe.put slot hslot⟩, progress_aside haside⟩

theorem offers_fill (hframe : frame.Offers names declares) {here : Located Name} {slot : Slot}
    (hslot : slot.Admits names declares here) : (frame.fill slot here).Offers names declares := by
  unfold Frame.fill
  split
  · exact hframe
  · exact hframe.put slot hslot

/-- The frame of the namespace offers what its declarations declare. -/
theorem populate_passes (ns : Namespace Unit) : Passes ns.values ns.BindsField (populate ns)
    (Frame.Offers ns.values ns.BindsField) := by
  rw [populate_eq]
  refine Passes.foldlM (Frame.offers_empty _) fun frame hframe entry hentry => ?_
  obtain ⟨hslot, hcanonical⟩ := ns.admits hentry
  unfold addEntry
  split
  · exact Reads.after (define_passes hframe hslot) fun frame' hframe' =>
      Passes.pure (offers_fill hframe' hcanonical)
  · exact Passes.pure (offers_fill (offers_fill hframe hslot) hcanonical)

/-! ## Declarations -/

/-- The declarations are resolved on the way from the first resolver to the second one. -/
structure DeclarationsRead (names : List (String × Name))
    (declares : ConstructorName → String → Prop) (s t : Resolver)
    (declarations : List (Declaration Name)) : Prop where
  uri : t.uri = s.uri
  longer : s.log.items <+: t.log.items
  offers : s.stack.Offers names declares → t.stack.Offers names declares
  accounts : s.stack.Offers names declares →
    Accounts names declares s t (declarations.flatMap Declaration.mentions)
  numbered : ∀ d ∈ declarations, Numbered 0 d.binders

theorem DeclarationsRead.append {declarations declarations' : List (Declaration Name)}
    (h : DeclarationsRead names declares s t declarations)
    (h' : DeclarationsRead names declares t u declarations') :
    DeclarationsRead names declares s u (declarations ++ declarations') where
  uri := h'.uri.trans h.uri
  longer := h.longer.trans h'.longer
  offers hs := h'.offers (h.offers hs)
  accounts hs := by
    rw [List.flatMap_append]
    exact (h.accounts hs).append (h'.accounts (h.offers hs)) h.uri h.longer h'.longer
  numbered := List.forall_mem_append.2 ⟨h.numbered, h'.numbered⟩

theorem declaration_read (names : List (String × Name))
    (declares : ConstructorName → String → Prop) (node : Declaration Unit) (s : Resolver) :
    Ends (declaration node) s fun d t => DeclarationsRead names declares s t [d] := by
  refine (declaration_reads names declares node s).mono ?_
  rintro d t ⟨r, ⟨hown, hbinders, hmentions⟩, hprogress⟩
  have hnone : names ++ ([] : List Binder).map Binder.entry = names := List.append_nil names
  have hinside : r.own ⊆ [] := hown ▸ List.Subset.refl _
  have hoffers := hprogress.offers [] hinside
  have haccounts := hprogress.accounts [] hinside
  rw [hnone] at hoffers haccounts
  refine ⟨hprogress.uri, hprogress.longer, hoffers, fun hs => ?_, ?_⟩
  · rw [List.flatMap_singleton, ← hmentions]
    obtain ⟨hreported, hfound, hfits⟩ := haccounts hs
    exact ⟨hreported, hfound, hfits⟩
  · rw [List.forall_mem_singleton, ← hbinders]
    exact hprogress.numbered

theorem declarations_read (names : List (String × Name))
    (declares : ConstructorName → String → Prop) (nodes : List (Declaration Unit)) (s : Resolver) :
    Ends (nodes.mapM declaration) s fun declarations t =>
      DeclarationsRead names declares s t declarations := by
  induction nodes generalizing s with
  | nil => exact Ends.pure ⟨rfl, List.prefix_rfl, id, fun _ => .nil rfl, List.forall_mem_nil _⟩
  | cons node rest ih =>
    rw [List.mapM_cons]
    refine Ends.bind ((declaration_read names declares node s).mono fun d t hfirst => ?_)
    exact Ends.bind ((ih t).mono fun _ _ hrest => Ends.pure (hfirst.append hrest))

/-! ## Namespaces -/

theorem builtIns_offer : builtIns.Offers names declares := by
  suffices h : ∀ (types : List BuiltIn) (frame : Frame (Located Name)),
      frame.Offers names declares → (types.foldl (fun frame type => frame.populateType type.name
        (.nowhere (.builtIn type.name))) frame).Offers names declares from
    h _ _ (Frame.offers_empty .builtIn)
  intro types
  induction types with
  | nil => exact fun frame hframe => hframe
  | cons type rest ih =>
    intro frame hframe
    have hnamed : (Slot.type type.name).Admits names declares (.nowhere (.builtIn type.name)) :=
      nofun
    exact ih _ (offers_fill hframe hnamed)

/-- The declarations of a resolved namespace, their names, and what is said of their mentions. -/
structure NamespaceRead (ns : Namespace Unit) (s t : Resolver) (resolved : Namespace Name) :
    Prop where
  id : resolved.id = ns.id
  written : (resolved.declarations.map Declaration.written).Perm ns.declarations
  addressed : ∀ d ∈ resolved.declarations, d.Addressed ns.id.name
  numbered : ∀ d ∈ resolved.declarations, Numbered 0 d.binders
  longer : s.log.items <+: t.log.items
  accounts : ∃ mentions, (resolved.declarations.flatMap Declaration.mentions).Perm mentions ∧
    Accounts ns.values ns.BindsField s t mentions

theorem namespaceNode_read (ns : Namespace Unit)
    (hs : s.stack = Stack.ofBuiltIns Resolver.builtIns) :
    Ends (namespaceNode ns) s fun resolved t => NamespaceRead ns s t resolved := by
  refine Ends.bind (Ends.modify (Ends.bind ?_))
  refine (Ends.and (populate_quiet ns _) ((populate_passes ns).ends _)).mono ?_
  rintro frame s₁ ⟨⟨hkind, hstack, -⟩, _, ⟨rfl, hframe⟩, hpopulated⟩
  refine Ends.bind (Ends.modify (Ends.bind ?_))
  have hns : (frame.kind :: s₁.stack.shape).findSome? ScopeKind.namespace? = some ns.id.name := by
    rw [List.findSome?_cons, hkind]
    rfl
  have haddressed (d : Declaration Unit) : Establishes (frame.kind :: s₁.stack.shape)
      (declaration d) fun d _ => d.Addressed ns.id.name := by
    intro s hs
    refine (Ends.and (declaration_establishes hns d s hs)
      (declaration_addressed (hs ▸ hns) d)).mono ?_
    rintro d t ⟨⟨hshape, hgrows, -⟩, hd⟩
    exact ⟨hshape, hgrows, hd⟩
  have hall := Establishes.mapM (fun d (_ : d ∈ ns.declarations) => haddressed d)
    fun _ _ _ hd _ => hd
  have hwritten := Gives.mapM fun d (_ : d ∈ ns.declarations) => declaration_gives d
  intro declarations s₂ hrun
  obtain ⟨-, -, hnames⟩ := hall _ rfl _ _ hrun
  have hsame := hwritten _ _ _ hrun
  obtain ⟨huri, hlonger, hoffers, haccounts, hnumbered⟩ :=
    declarations_read ns.values ns.BindsField _ _ _ _ hrun
  refine Ends.bind (Ends.within fun popped stack _ => ?_)
  refine Ends.bind (Ends.modify (Ends.bind (Ends.get (Ends.pure ?_))))
  have hperm := s₂.graph.groups_perm declarations
  have hbase : s.stack.Offers ns.values ns.BindsField := by
    rw [hs]
    refine ⟨fun frame hmem => (List.not_mem_nil hmem).elim, fun frame hbuiltIn => ?_⟩
    exact Option.some.inj hbuiltIn ▸ builtIns_offer
  have hpushed : (s₁.stack.push frame).Offers ns.values ns.BindsField := by
    rw [hstack]
    exact hbase.push hframe
  have hnothing := (hpopulated.accounts [] (List.nil_subset _)
    ((List.append_nil ns.values).symm ▸ hbase)).reported
  have hfirst : Accounts ns.values ns.BindsField s
      { s₁ with stack := s₁.stack.push frame } [] := .nil (hnothing.trans (List.append_nil _))
  obtain ⟨hreported, hfound, hfits⟩ :=
    hfirst.append (haccounts hpushed) hpopulated.uri hpopulated.longer hlonger
  refine ⟨rfl, ?_, fun d hd => hnames d (hperm.mem_iff.1 hd),
    fun d hd => hnumbered d (hperm.mem_iff.1 hd), hpopulated.longer.trans hlonger, _,
    hperm.flatMap_right _, hreported, hfound, hfits⟩
  rw [← hsame]
  exact (hperm.map _).trans (.of_eq List.idRun_mapM.symm)

end Resolve

/-! ## What is found -/

section Found

open Resolve

variable {ns : Namespace Unit} {s t : Resolver} {resolved : Namespace Name}

theorem Resolve.NamespaceRead.mem_values (h : NamespaceRead ns s t resolved) {text : String}
    {name : Name} (hvalue : (text, name) ∈ ns.values) : (text, name) ∈ resolved.values := by
  obtain ⟨d, hd, key, hkey, htext⟩ := Namespace.mem_values.1 hvalue
  obtain ⟨e, he, rfl⟩ := List.mem_map.1 (h.written.mem_iff.2 hd)
  have hwritten : e.written.values ns.id.name = e.values ns.id.name :=
    e.values_traverse forget ns.id.name
  exact Namespace.mem_values.2 ⟨e, he, key, h.id ▸ hwritten ▸ hkey, h.id ▸ htext⟩

theorem Resolve.NamespaceRead.bindsField (h : NamespaceRead ns s t resolved)
    {c : ConstructorName} {name : String} (hfield : ns.BindsField c name) :
    resolved.BindsField c name := by
  obtain ⟨d, hd, hslot⟩ := hfield
  obtain ⟨e, he, rfl⟩ := List.mem_map.1 (h.written.mem_iff.2 hd)
  have hwritten : e.written.slots ns.id.name = e.slots ns.id.name :=
    e.slots_traverse forget ns.id.name
  exact ⟨e, he, h.id ▸ hwritten ▸ hslot⟩

/-- What is said of all mentions holds of those of each declaration. -/
theorem Resolve.NamespaceRead.found (h : NamespaceRead ns s t resolved) {d : Declaration Name}
    (hd : d ∈ resolved.declarations) {entry : Mention × List Binder} (hentry : entry ∈ d.mentions) :
    entry.1.Found ns.values entry.2 ∧ (t.log.items = s.log.items → entry.1.Fits ns.BindsField) := by
  obtain ⟨mentions, hperm, haccounts⟩ := h.accounts
  have hmem : entry ∈ mentions := hperm.mem_iff.1 (List.mem_flatMap.2 ⟨d, hd, hentry⟩)
  exact ⟨haccounts.found entry hmem, fun hsilent => haccounts.fits hsilent entry hmem⟩

/-- Without a report every mention carries a name. -/
theorem Resolve.NamespaceRead.named (h : NamespaceRead ns s t resolved)
    (hsilent : t.log.items = s.log.items) {d : Declaration Name}
    (hd : d ∈ resolved.declarations) {entry : Mention × List Binder} (hentry : entry ∈ d.mentions) :
    entry.1.here.info ≠ .nameless := by
  intro hnone
  obtain ⟨mentions, hperm, haccounts⟩ := h.accounts
  have hmem : entry ∈ mentions := hperm.mem_iff.1 (List.mem_flatMap.2 ⟨d, hd, hentry⟩)
  have hreported := haccounts.reported
  rw [hsilent, List.self_eq_append_right, complaints, List.map_eq_nil_iff] at hreported
  have hcomplaint : entry.1 ∈ (mentions.map Prod.fst).filter fun m => m.here.info.isNameless :=
    List.mem_filter.2 ⟨List.mem_map_of_mem hmem, by rw [hnone]; rfl⟩
  rw [hreported] at hcomplaint
  exact List.not_mem_nil hcomplaint

/-- Declarations bind no local names. -/
theorem Namespace.bound_not_mem_values {α : Type} {ns : Namespace α} (text x : String) (i : Nat) :
    (text, .bound x i) ∉ ns.values := by
  intro hvalue
  obtain ⟨d, -, key, hkey, -⟩ := mem_values.1 hvalue
  cases d with
  | data d =>
    obtain ⟨c, -, hc⟩ := List.mem_map.1 hkey
    cases hc
  | binding d => cases List.mem_singleton.1 hkey
  | function d => cases List.mem_singleton.1 hkey

end Found

/-- In every resolved declaration the local binders are numbered from left to right, whether
anything is reported or not.  A reference to a local name is one to the binder of that number, which
has the text that is referred to and stands in a construct around the reference. -/
theorem Namespace.locals_identify_binders (ns : Namespace Unit) (s : Resolver) :
    ∃ resolved t, Resolve.namespaceNode ns { s with stack := Stack.ofBuiltIns Resolver.builtIns } =
        .ok resolved t ∧
      ∀ d ∈ resolved.declarations,
        (∀ i (h : i < d.binders.length), d.binders[i].name = .bound d.binders[i].text i) ∧
        ∀ node around, (.value node, around) ∈ d.mentions → ∀ x i, node.here.info = .bound x i →
          ∃ h : i < d.binders.length, d.binders[i].text = x ∧ node.id.canonical = x ∧
            d.binders[i] ∈ around := by
  obtain ⟨resolved, t, hrun, -⟩ := Resolve.namespaceNode_keeps ns _ (Resolver.at_start s)
  have hread := Resolve.namespaceNode_read ns rfl _ _ hrun
  refine ⟨resolved, t, hrun, fun d hd => ?_⟩
  have hnumbered (i : Nat) (h : i < d.binders.length) :
      d.binders[i].name = .bound d.binders[i].text i := by
    have hname := (hread.numbered d hd).name_getElem i h
    rwa [Nat.zero_add] at hname
  refine ⟨hnumbered, fun node around hmention x i hinfo => ?_⟩
  rcases (hread.found hd hmention).1 with hnone | hfound
  · rw [hinfo] at hnone
    cases hnone
  · rw [hinfo] at hfound
    rcases List.mem_append.1 hfound with hvalue | hbinder
    · exact (bound_not_mem_values _ x i hvalue).elim
    · obtain ⟨b, hb, hentry⟩ := List.mem_map.1 hbinder
      obtain ⟨htext, hname⟩ := Prod.mk.inj hentry
      obtain ⟨j, hj, rfl⟩ := List.getElem_of_mem (d.around_subset hmention hb)
      obtain ⟨hx, rfl⟩ := Name.bound.inj ((hnumbered j hj).symm.trans hname)
      exact ⟨hj, hx, htext.symm.trans hx, hb⟩

/-- The reports of names that cannot be found are those of the mentions that carry no name, one for
each: at its range, with its text, and of a value, a type or a constructor. -/
theorem Namespace.reports_missing_names (ns : Namespace Unit) (s : Resolver) :
    ∃ resolved t, Resolve.namespaceNode ns { s with stack := Stack.ofBuiltIns Resolver.builtIns } =
        .ok resolved t ∧
      ∃ reports, t.log.items = s.log.items ++ reports ∧
        (reports.filter Diagnostic.isUnresolved).Perm
          (complaints s.uri (resolved.declarations.flatMap Declaration.mentions)) := by
  obtain ⟨resolved, t, hrun, -⟩ := Resolve.namespaceNode_keeps ns _ (Resolver.at_start s)
  have hread := Resolve.namespaceNode_read ns rfl _ _ hrun
  obtain ⟨reports, hreports⟩ := hread.longer
  obtain ⟨mentions, hperm, haccounts⟩ := hread.accounts
  refine ⟨resolved, t, hrun, reports, hreports.symm, ?_⟩
  have hreported := haccounts.reported
  rw [← hreports, List.filter_append, List.append_cancel_left_eq] at hreported
  rw [hreported]
  exact (((hperm.map Prod.fst).filter _).map _).symm

/-! ## Constructor patterns -/

/-- A data type of the namespace has the constructor, which carries the name. -/
def Namespace.Constructs (ns : Namespace Name) (c : ConstructorName) (node : Constructor Name) :
    Prop :=
  (∃ d, .data d ∈ ns.declarations ∧ node ∈ d.constructors) ∧ node.here.info = .constructor c

section Constructs

variable {ns : Namespace Name} (haddressed : ∀ d ∈ ns.declarations, d.Addressed ns.id.name)

include haddressed

/-- A value is a constructor of the namespace or a let that is bound under the text. -/
theorem Namespace.values_cases {text : String} {name : Name} (h : (text, name) ∈ ns.values) :
    (∃ c, name = .constructor c ∧ ∃ node, ns.Constructs c node) ∨
      ∃ d ∈ ns.declarations, ∃ q, name = .binding q ∧ d.here.info = .binding q ∧
        (text = d.name ∨ text = q.canonical) := by
  obtain ⟨d, hd, key, hkey, htext⟩ := mem_values.1 h
  have hd' := haddressed d hd
  cases d with
  | data d =>
    obtain ⟨node, hnode, hpair⟩ := List.mem_map.1 hkey
    obtain ⟨rfl, rfl⟩ := Prod.mk.inj hpair
    exact .inl ⟨_, rfl, node, ⟨d, hd, hnode⟩, (hd'.2 node hnode).here⟩
  | binding d =>
    obtain ⟨rfl, rfl⟩ := Prod.mk.inj (List.mem_singleton.1 hkey)
    exact .inr ⟨_, hd, _, rfl, hd', htext⟩
  | function d =>
    obtain ⟨rfl, rfl⟩ := Prod.mk.inj (List.mem_singleton.1 hkey)
    exact .inr ⟨_, hd, _, rfl, hd', htext⟩

/-- A field that is bound is a parameter of a constructor of the given name. -/
theorem Namespace.BindsField.exists_param {c : ConstructorName} {name : String}
    (h : ns.BindsField c name) :
    ∃ node, ns.Constructs c node ∧ ∃ param ∈ node.params, param.name = name := by
  obtain ⟨d, hd, hslot⟩ := h
  have hd' := haddressed d hd
  obtain ⟨⟨slot, here⟩, hnode, rfl⟩ := List.mem_map.1 hslot
  cases d with
  | data d =>
    rcases List.mem_cons.1 hnode with hnode | hnode
    · cases hnode
    · obtain ⟨node, hmem, hnode⟩ := List.mem_flatMap.1 hnode
      rcases List.mem_cons.1 hnode with hnode | hnode
      · cases hnode
      · rcases List.mem_cons.1 hnode with hnode | hnode
        · cases hnode
        · obtain ⟨param, hparam, hentry⟩ := List.mem_map.1 hnode
          obtain ⟨hslot, -⟩ := Prod.mk.inj hentry
          obtain ⟨rfl, rfl⟩ := Slot.field.inj hslot
          exact ⟨node, ⟨⟨d, hd, hmem⟩, (hd'.2 node hmem).here⟩, param, hparam, rfl⟩
  | binding d => cases List.mem_singleton.1 hnode
  | function d => cases List.mem_singleton.1 hnode

end Constructs

/-- When nothing is reported, a constructor pattern carries a constructor of the namespace, and
its fields are declared by constructors of that name; or it carries what its text is bound to as a
value, which is a let of the namespace or a local binder around the pattern. -/
theorem Namespace.constructor_patterns_known (ns : Namespace Unit) (s : Resolver) :
    ∃ resolved t, Resolve.namespaceNode ns { s with stack := Stack.ofBuiltIns Resolver.builtIns } =
        .ok resolved t ∧
      (t.log.items = s.log.items → ∀ d ∈ resolved.declarations, ∀ here id fields around,
        (.constructor here id fields, around) ∈ d.mentions →
          (∃ c, here.info = .constructor c ∧ (∃ node, resolved.Constructs c node) ∧
            ∀ field ∈ fields, ∃ node, resolved.Constructs c node ∧
              ∃ param ∈ node.params, param.name = field.field) ∨
          (∃ e ∈ resolved.declarations, ∃ q, here.info = .binding q ∧ e.here.info = .binding q ∧
            (id.canonical = e.name ∨ id.canonical = q.canonical)) ∨
          ∃ b ∈ around, here.info = b.name ∧ id.canonical = b.text) := by
  obtain ⟨resolved, t, hrun, -⟩ := Resolve.namespaceNode_keeps ns _ (Resolver.at_start s)
  have hread := Resolve.namespaceNode_read ns rfl _ _ hrun
  refine ⟨resolved, t, hrun, fun hsilent d hd here id fields around hmention => ?_⟩
  have haddressed : ∀ d ∈ resolved.declarations, d.Addressed resolved.id.name :=
    hread.id ▸ hread.addressed
  obtain ⟨hfound, hfits⟩ := hread.found hd hmention
  rcases hfound with hnone | hfound
  · exact (hread.named hsilent hd hmention hnone).elim
  · rcases List.mem_append.1 hfound with hvalue | hbinder
    · rcases Namespace.values_cases haddressed (hread.mem_values hvalue) with
        ⟨c, hc, hnode⟩ | hlet
      · refine .inl ⟨c, hc, hnode, fun field hfield => ?_⟩
        have hbinds := hread.bindsField (hfits hsilent c hc field hfield)
        exact hbinds.exists_param haddressed
      · exact .inr (.inl hlet)
    · obtain ⟨b, hb, hentry⟩ := List.mem_map.1 hbinder
      obtain ⟨htext, hname⟩ := Prod.mk.inj hentry
      exact .inr (.inr ⟨b, hb, hname.symm, htext.symm⟩)

/-- The given data types, and a let `f` that matches its parameter with a constructor pattern. -/
def Namespace.matching (data : List (Data Unit)) (constructor : String) : Namespace Unit :=
  let here : Located Unit := ⟨default, ()⟩
  let pattern : Pattern Unit := .constructor here ⟨default, none, constructor⟩ [⟨here, "y", none⟩]
  let body : Expr Unit := .cases here (.reference ⟨here, ⟨default, none, "x"⟩⟩)
    [⟨here, pattern, .reference ⟨here, ⟨default, none, "y"⟩⟩⟩]
  ⟨here, ⟨default, [], "N"⟩, [],
    [data.map .data ++ [.binding ⟨here, "f", none, .lambda here [⟨here, "x", none⟩] body⟩]]⟩

/-- The data type `D` with the constructor `K`, which has a field `y`. -/
def Data.box : Data Unit :=
  ⟨⟨default, ()⟩, "D", [], [⟨⟨default, ()⟩, "K",
    [⟨⟨default, ()⟩, "y", .reference ⟨default, ()⟩ ⟨default, none, "Int"⟩⟩], none⟩]⟩

/-- A field of the data type is matched. -/
theorem Namespace.constructor_patterns_known_box :
    ∃ resolved resolver, (matching [.box] "K").resolve "" = .ok resolved resolver ∧
      resolver.log.items = [] ∧
      ∀ d ∈ resolved.declarations, ∀ here id fields around,
        (.constructor here id fields, around) ∈ d.mentions →
          (∃ c, here.info = .constructor c ∧ (∃ node, resolved.Constructs c node) ∧
            ∀ field ∈ fields, ∃ node, resolved.Constructs c node ∧
              ∃ param ∈ node.params, param.name = field.field) ∨
          (∃ e ∈ resolved.declarations, ∃ q, here.info = .binding q ∧ e.here.info = .binding q ∧
            (id.canonical = e.name ∨ id.canonical = q.canonical)) ∨
          ∃ b ∈ around, here.info = b.name ∧ id.canonical = b.text := by
  have hns : (matching [.box] "K").isQuiet = true := by decide +kernel
  obtain ⟨resolved, resolver, hresolved, hquiet⟩ := exists_of_isQuiet hns
  obtain ⟨resolved', resolver', hresolved', hknown⟩ := constructor_patterns_known
    (matching [.box] "K") (Resolver.start "" (Stack.ofBuiltIns Resolver.builtIns))
  obtain ⟨rfl, rfl⟩ := EStateM.Result.ok.inj (hresolved.symm.trans hresolved')
  exact ⟨resolved, resolver, hresolved, hquiet, hknown hquiet⟩

/-- The mention is a constructor pattern that carries something else than a constructor. -/
def Mention.isMisnamed : Mention → Bool
  | .constructor here _ _ =>
    match here.info with
    | .constructor _ => false
    | _ => true
  | _ => false

/-- Resolution gives a constructor pattern that carries something else than a constructor. -/
def Namespace.givesMisnamed (ns : Namespace Unit) : Bool :=
  match ns.resolve "" with
  | .ok resolved _ => resolved.declarations.any fun d =>
    d.mentions.any fun entry => entry.1.isMisnamed
  | .error _ _ => false

/-- A constructor pattern may carry the name of a let without a report. -/
theorem Namespace.exists_pattern_of_let :
    ∃ resolved resolver, (matching [] "f").resolve "" = .ok resolved resolver ∧
      resolver.log.items = [] ∧
      ∃ d ∈ resolved.declarations, ∃ here id fields around,
        (Mention.constructor here id fields, around) ∈ d.mentions ∧
          ∀ c, here.info ≠ .constructor c := by
  have hns : (matching [] "f").isQuiet = true := by decide +kernel
  obtain ⟨resolved, resolver, hresolved, hquiet⟩ := exists_of_isQuiet hns
  refine ⟨resolved, resolver, hresolved, hquiet, ?_⟩
  have hodd : (matching [] "f").givesMisnamed = true := by cbv
  rw [givesMisnamed, hresolved] at hodd
  obtain ⟨d, hd, hmention⟩ := List.any_eq_true.1 hodd
  obtain ⟨⟨mention, around⟩, hmem, hmisnamed⟩ := List.any_eq_true.1 hmention
  cases mention with
  | constructor here id fields =>
    refine ⟨d, hd, here, id, fields, around, hmem, fun c hc => ?_⟩
    rw [Mention.isMisnamed, hc] at hmisnamed
    cases hmisnamed
  | value node => cases hmisnamed
  | type here id => cases hmisnamed
  | typeVar var => cases hmisnamed

end PolyFront
