import Mathlib.Data.List.Pairwise
import PolyFront.Front
import PolyFront.Proofs.Naming.Populated

/-!
# Declarations in another order

A namespace that is resolved without a report binds the same names in every order of its
declarations that binds them without a report, and then every declaration is resolved to the same
tree.  The order matters in one case: a data type that comes after another one with a constructor
of its name is reported as a duplicate, since the type of the constructor has taken the name.
-/

namespace PolyFront

/-! ## Claims and offers -/

section Entries

variable {ns : NamespaceName} {d e : Declaration Unit} {entry : Entry}

/-- The first declaration has a constructor of the name of the data type that comes second. -/
def Declaration.takesName : Declaration Unit → Declaration Unit → Bool
  | .data d, .data e => (d.constructors.map Constructor.name).contains e.name
  | _, _ => false

/-- Two claims are for different slots. -/
def Entry.Apart (entry other : Entry) : Prop :=
  entry.claims = true → other.claims = true → entry.slot ≠ other.slot

/-- What a constructor enters comes with a claim on the value of its name. -/
theorem Declaration.value_mem_entries {d : Data Unit} {c : Constructor Unit}
    (hc : c ∈ d.constructors) :
    ⟨.value c.name, ⟨c.here.range, .constructor (.ofData ⟨ns, d.name⟩ c.name)⟩, true⟩ ∈
      (Declaration.data d).entries ns :=
  List.mem_cons_of_mem _ (List.mem_flatMap.2 ⟨c, hc, List.mem_cons_self⟩)

theorem Declaration.type_mem_entries {d : Data Unit} {c : Constructor Unit}
    (hc : c ∈ d.constructors) :
    ⟨.type c.name, ⟨c.here.range, .constructor (.ofData ⟨ns, d.name⟩ c.name)⟩, false⟩ ∈
      (Declaration.data d).entries ns :=
  List.mem_cons_of_mem _ (List.mem_flatMap.2 ⟨c, hc, List.mem_cons_of_mem _ List.mem_cons_self⟩)

/-- The entries of a constructor in full. -/
theorem Constructor.mem_entries {data : QualifiedName} {c : Constructor Unit}
    (h : entry ∈ c.entries data) :
    entry = ⟨.value c.name, ⟨c.here.range, .constructor (.ofData data c.name)⟩, true⟩ ∨
      entry = ⟨.type c.name, ⟨c.here.range, .constructor (.ofData data c.name)⟩, false⟩ ∨
        entry.claims = true ∧ ∃ constructor name, entry.slot = .field constructor name := by
  rcases List.mem_cons.1 h with rfl | h
  · exact .inl rfl
  · rcases List.mem_cons.1 h with rfl | h
    · exact .inr (.inl rfl)
    · obtain ⟨param, -, rfl⟩ := List.mem_map.1 h
      exact .inr (.inr ⟨rfl, _, _, rfl⟩)

/-- Only the types of constructors make no claim. -/
theorem Declaration.of_offer (h : entry ∈ d.entries ns) (hoffers : entry.claims = false) :
    ∃ data, d = .data data ∧ ∃ c ∈ data.constructors, entry =
      ⟨.type c.name, ⟨c.here.range, .constructor (.ofData ⟨ns, data.name⟩ c.name)⟩, false⟩ := by
  cases d with
  | data data =>
    rcases List.mem_cons.1 h with rfl | h
    · cases hoffers
    · obtain ⟨c, hc, h⟩ := List.mem_flatMap.1 h
      rcases Constructor.mem_entries h with rfl | rfl | ⟨hclaims, -⟩
      · cases hoffers
      · exact ⟨data, rfl, c, hc, rfl⟩
      · rw [hclaims] at hoffers
        cases hoffers
  | binding b =>
    rw [List.mem_singleton.1 h] at hoffers
    cases hoffers
  | function b =>
    rw [List.mem_singleton.1 h] at hoffers
    cases hoffers

/-- Only data types claim types. -/
theorem Declaration.of_type_claim {name : String} (h : entry ∈ d.entries ns)
    (hclaims : entry.claims = true) (hslot : entry.slot = .type name) :
    ∃ data, d = .data data ∧ data.name = name := by
  cases d with
  | data data =>
    rcases List.mem_cons.1 h with rfl | h
    · exact ⟨data, rfl, Slot.type.inj hslot⟩
    · obtain ⟨c, hc, h⟩ := List.mem_flatMap.1 h
      rcases Constructor.mem_entries h with rfl | rfl | ⟨-, constructor, field, hfield⟩
      · cases hslot
      · cases hclaims
      · rw [hfield] at hslot
        cases hslot
  | binding b =>
    rw [List.mem_singleton.1 h] at hslot
    cases hslot
  | function b =>
    rw [List.mem_singleton.1 h] at hslot
    cases hslot

/-- Entries of two declarations clash when both claim a slot, or when a constructor of the first
one has the name of the second one. -/
theorem Declaration.clear_iff :
    (∀ entry ∈ d.entries ns, ∀ other ∈ e.entries ns, entry.Clear other) ↔
      (∀ entry ∈ d.entries ns, ∀ other ∈ e.entries ns, entry.Apart other) ∧
        d.takesName e = false := by
  constructor
  · intro hclear
    refine ⟨fun entry h other h' _ hclaims => hclear entry h other h' hclaims, ?_⟩
    by_contra htakes
    rw [Bool.not_eq_false] at htakes
    cases d with
    | data data =>
      cases e with
      | data data' =>
        obtain ⟨c, hc, hname⟩ := List.mem_map.1 (List.contains_iff_mem.1 htakes)
        refine hclear _ (type_mem_entries hc) _ (List.mem_cons_self : _ ∈ entries ns _) rfl ?_
        exact congrArg Slot.type hname
      | _ => cases htakes
    | _ => cases htakes
  · rintro ⟨hapart, htakes⟩ entry h other h' hclaims hslot
    cases hfirst : entry.claims with
    | true => exact hapart entry h other h' hfirst hclaims hslot
    | false =>
      obtain ⟨data, rfl, c, hc, rfl⟩ := of_offer h hfirst
      obtain ⟨data', rfl, hname⟩ := of_type_claim h' hclaims hslot.symm
      have hcontains : (data.constructors.map Constructor.name).contains data'.name = true :=
        List.contains_iff_mem.2 (List.mem_map.2 ⟨c, hc, hname.symm⟩)
      rw [takesName, hcontains] at htakes
      cases htakes

/-! ## First entries -/

variable {entries entries' : List Entry}

/-- A slot is claimed once. -/
theorem Entry.eq_of_clear (h : entries.Pairwise Clear) {other : Entry} (hentry : entry ∈ entries)
    (hother : other ∈ entries) (hclaims : entry.claims = true) (hclaims' : other.claims = true)
    (hslot : entry.slot = other.slot) : entry = other := by
  let Same (a b : Entry) : Prop :=
    a.claims = true → b.claims = true → a.slot = b.slot → a = b
  have hsymm : Std.Symm Same := ⟨fun _ _ hab ha hb hslot => (hab hb ha hslot.symm).symm⟩
  have hpairwise : entries.Pairwise Same :=
    h.imp fun {_ b} hclear _ hb hslot => (hclear hb hslot).elim
  exact hpairwise.forall_of_forall (fun _ _ _ _ _ => rfl) hentry hother hclaims hclaims' hslot

/-- Claims come first. -/
theorem Entry.find?_claim (h : entries.Pairwise Clear) (hentry : entry ∈ entries)
    (hclaims : entry.claims = true) :
    (entries.find? fun other => other.slot = entry.slot) = some entry := by
  cases hfound : entries.find? fun other => other.slot = entry.slot with
  | none =>
    have hnone := List.find?_eq_none.1 hfound entry hentry
    simp at hnone
  | some first =>
    obtain ⟨hslot, before, after, rfl, hbefore⟩ := List.find?_eq_some_iff_append.1 hfound
    rcases List.mem_append.1 hentry with hmem | hmem
    · have hskipped := hbefore entry hmem
      simp at hskipped
    · rcases List.mem_cons.1 hmem with rfl | hmem
      · rfl
      · have hclear := (List.pairwise_cons.1 (List.pairwise_append.1 h).2.1).1 entry hmem
        exact (hclear hclaims (by simpa using hslot)).elim

theorem Entry.find?_of_unique {slot : Slot} (hentry : entry ∈ entries) (hslot : entry.slot = slot)
    (hunique : ∀ other ∈ entries, other.slot = slot → other = entry) :
    (entries.find? fun other => other.slot = slot) = some entry := by
  cases hfound : entries.find? fun other => other.slot = slot with
  | none =>
    have hnone := List.find?_eq_none.1 hfound entry hentry
    simp [hslot] at hnone
  | some first =>
    have hfirst := List.find?_some hfound
    rw [hunique first (List.mem_of_find?_eq_some hfound) (by simpa using hfirst)]

/-- The first entry of a slot is the same in all orders that are free of reports. -/
theorem Entry.find?_perm (h : entries.Pairwise Clear) (h' : entries'.Pairwise Clear)
    (hperm : entries.Perm entries')
    (hoffers : ∀ entry ∈ entries, ∀ other ∈ entries, entry.claims = false →
      other.claims = false → entry.slot = other.slot → other = entry) (slot : Slot) :
    (entries.find? fun entry => entry.slot = slot) =
      entries'.find? fun entry => entry.slot = slot := by
  by_cases hclaim : ∃ entry ∈ entries, entry.slot = slot ∧ entry.claims = true
  · obtain ⟨entry, hentry, rfl, hclaims⟩ := hclaim
    rw [find?_claim h hentry hclaims, find?_claim h' (hperm.mem_iff.1 hentry) hclaims]
  · have hall : ∀ entry ∈ entries, entry.slot = slot → entry.claims = false := by
      intro entry hentry hslot
      rw [← Bool.not_eq_true]
      exact fun hclaims => hclaim ⟨entry, hentry, hslot, hclaims⟩
    by_cases hany : ∃ entry ∈ entries, entry.slot = slot
    · obtain ⟨entry, hentry, hslot⟩ := hany
      have hunique : ∀ other ∈ entries, other.slot = slot → other = entry :=
        fun other hother hsame => hoffers entry hentry other hother (hall entry hentry hslot)
          (hall other hother hsame) (hslot.trans hsame.symm)
      rw [find?_of_unique hentry hslot hunique, find?_of_unique (hperm.mem_iff.1 hentry) hslot
        fun other hother => hunique other (hperm.mem_iff.2 hother)]
    · have hnone : ∀ entry ∈ entries, ¬decide (entry.slot = slot) = true :=
        fun entry hentry hslot => hany ⟨entry, hentry, by simpa using hslot⟩
      rw [List.find?_eq_none.2 hnone, List.find?_eq_none.2 fun entry hentry =>
        hnone entry (hperm.mem_iff.2 hentry)]

end Entries

/-! ## Namespaces -/

/-- The names of a declaration and of its constructors. -/
def Declaration.texts : Declaration Unit → List String
  | .data d => d.name :: d.constructors.map Constructor.name
  | .binding d => [d.name]
  | .function d => [d.name]

section Declarations

variable {ns : Namespace Unit} {declarations : List (Declaration Unit)}

/-- Offers of one name are the same when no value is claimed twice. -/
theorem offers_unique {id : NamespaceName}
    (h : (declarations.flatMap (Declaration.entries id)).Pairwise Entry.Clear) :
    ∀ entry ∈ declarations.flatMap (Declaration.entries id),
      ∀ other ∈ declarations.flatMap (Declaration.entries id), entry.claims = false →
        other.claims = false → entry.slot = other.slot → other = entry := by
  intro entry hentry other hother hoffers hoffers' hslot
  obtain ⟨d, hd, hentry⟩ := List.mem_flatMap.1 hentry
  obtain ⟨e, he, hother⟩ := List.mem_flatMap.1 hother
  obtain ⟨data, rfl, c, hc, rfl⟩ := Declaration.of_offer hentry hoffers
  obtain ⟨data', rfl, c', hc', rfl⟩ := Declaration.of_offer hother hoffers'
  have hvalue := Entry.eq_of_clear h
    (List.mem_flatMap.2 ⟨_, hd, Declaration.value_mem_entries hc⟩)
    (List.mem_flatMap.2 ⟨_, he, Declaration.value_mem_entries hc'⟩) rfl rfl
    (congrArg Slot.value (Slot.type.inj hslot))
  rw [Entry.mk.injEq] at hvalue ⊢
  exact ⟨hslot.symm, hvalue.2.1.symm, rfl⟩

/-- When one order of declarations is free of reports, another one is exactly when no constructor
takes the name of a data type that comes after it. -/
theorem clear_perm {id : NamespaceName} {declarations' : List (Declaration Unit)}
    (h : (declarations.flatMap (Declaration.entries id)).Pairwise Entry.Clear)
    (hperm : declarations.Perm declarations') :
    (declarations'.flatMap (Declaration.entries id)).Pairwise Entry.Clear ↔
      declarations'.Pairwise fun d e => d.takesName e = false := by
  let Apart (d e : Declaration Unit) : Prop :=
    ∀ entry ∈ d.entries id, ∀ other ∈ e.entries id, entry.Apart other
  have hsymm : ∀ {d e}, Apart d e → Apart e d := fun hapart entry hentry other hother
    hclaims hclaims' => (hapart other hother entry hentry hclaims' hclaims).symm
  obtain ⟨hown, hothers⟩ := List.pairwise_flatMap.1 h
  have hapart : declarations'.Pairwise Apart := by
    refine (hperm.pairwise_iff hsymm).1 (hothers.imp fun hclear => ?_)
    exact (Declaration.clear_iff.1 hclear).1
  rw [List.pairwise_flatMap]
  simp only [Declaration.clear_iff]
  rw [List.pairwise_and_iff]
  exact ⟨fun hclear => hclear.2.2,
    fun htakes => ⟨fun d hd => hown d (hperm.mem_iff.2 hd), hapart, htakes⟩⟩

/-- Names without a dot are entered at plain slots. -/
theorem Declaration.isPlain_of_texts {d : Declaration Unit}
    (h : ∀ text ∈ d.texts, '.' ∉ text.toList) {id : NamespaceName} :
    ∀ entry ∈ d.entries id, entry.slot.IsPlain := by
  intro entry hentry
  cases d with
  | data data =>
    rcases List.mem_cons.1 hentry with rfl | hentry
    · exact h data.name List.mem_cons_self
    · obtain ⟨c, hc, hentry⟩ := List.mem_flatMap.1 hentry
      have hplain := h c.name (List.mem_cons_of_mem _ (List.mem_map_of_mem hc))
      rcases Constructor.mem_entries hentry with rfl | rfl | ⟨-, constructor, field, hfield⟩
      · exact hplain
      · exact hplain
      · rw [hfield]
        exact True.intro
  | binding b =>
    rw [List.mem_singleton.1 hentry]
    exact h b.name List.mem_cons_self
  | function b =>
    rw [List.mem_singleton.1 hentry]
    exact h b.name List.mem_cons_self

end Declarations

namespace Resolve

open Run

/-- Declarations that are resolved on their own are resolved one after the other. -/
theorem mapM_declaration_run {uri : String} {frame : Frame (Located Name)}
    {tree : Declaration Unit → Declaration Name} {reports : Declaration Unit → List Diagnostic}
    (hrun : ∀ d (s : Resolver), s.uri = uri → s.stack = ⟨[frame], some Resolver.builtIns⟩ →
      ∃ t, declaration d s = .ok (tree d) t ∧ t.uri = uri ∧ t.stack = s.stack ∧
        t.log.items = s.log.items ++ reports d) (declarations : List (Declaration Unit))
    (s : Resolver) (huri : s.uri = uri)
    (hstack : s.stack = ⟨[frame], some Resolver.builtIns⟩) :
    ∃ t, declarations.mapM declaration s = .ok (declarations.map tree) t ∧
      t.stack = s.stack ∧ t.log.items = s.log.items ++ declarations.flatMap reports := by
  induction declarations generalizing s with
  | nil => exact ⟨s, rfl, rfl, (List.append_nil _).symm⟩
  | cons d rest ih =>
    obtain ⟨mid, hfirst, hmidUri, hmid, hlog⟩ := hrun d s huri hstack
    obtain ⟨t, hrest, ht, hlog'⟩ := ih mid hmidUri (hmid.trans hstack)
    refine ⟨t, ?_, ht.trans hmid, ?_⟩
    · rw [List.mapM_cons]
      exact (ok_bind hfirst).trans (ok_bind hrest)
    · rw [hlog', hlog, List.flatMap_cons, List.append_assoc]

/-- A namespace is resolved declaration by declaration, and the trees are put into groups. -/
theorem resolve_run {uri : String} {ns : Namespace Unit} {frame : Frame (Located Name)} {log : Log}
    {tree : Declaration Unit → Declaration Name} {reports : Declaration Unit → List Diagnostic}
    (hkind : frame.kind = .ns ns.id.name)
    (hpopulate : populate ns (Resolver.start uri (Stack.ofBuiltIns Resolver.builtIns)) =
      .ok frame { Resolver.start uri (Stack.ofBuiltIns Resolver.builtIns) with log := log })
    (hrun : ∀ d (s : Resolver), s.uri = uri → s.stack = ⟨[frame], some Resolver.builtIns⟩ →
      ∃ t, declaration d s = .ok (tree d) t ∧ t.uri = uri ∧ t.stack = s.stack ∧
        t.log.items = s.log.items ++ reports d) :
    ∃ resolved resolver, ns.resolve uri = .ok resolved resolver ∧
      resolver.log.items = log.items ++ ns.declarations.flatMap reports ∧
      resolved.groups.flatten.Perm (ns.declarations.map tree) := by
  let s₀ := Resolver.start uri (Stack.ofBuiltIns Resolver.builtIns)
  let s₁ : Resolver := { s₀ with log := log, stack := s₀.stack.push frame }
  obtain ⟨t, hdeclarations, hstack, hlog⟩ := mapM_declaration_run hrun ns.declarations s₁ rfl rfl
  have hpop : Stack.pop .ns t.stack = .ok frame { t.stack with frames := [] } :=
    Stack.pop_eq_ok (by rw [hstack]; rfl) (by rw [Frame.tag, hkind]; rfl)
  refine ⟨⟨⟨ns.here.range, .ns ns.id.name⟩, ns.id, ns.imports,
      t.graph.groups (ns.declarations.map tree)⟩,
    { t with stack := { t.stack with frames := [] }, topLevel := some frame }, ?_, hlog,
    t.graph.groups_perm _⟩
  refine (ok_bind (t := s₀) rfl).trans ?_
  refine (ok_bind hpopulate).trans ?_
  refine (ok_bind (t := s₁) rfl).trans ?_
  refine (ok_bind hdeclarations).trans ?_
  refine (ok_bind (t := { t with stack := { t.stack with frames := [] } }) ?_).trans rfl
  rw [Run.within, hpop]

/-- What populating a namespace from the start comes to. -/
structure Populated (uri : String) (ns : Namespace Unit) (frame : Frame (Located Name))
    (log : Log) : Prop where
  run : populate ns (Resolver.start uri (Stack.ofBuiltIns Resolver.builtIns)) =
    .ok frame { Resolver.start uri (Stack.ofBuiltIns Resolver.builtIns) with log := log }
  paired : frame.Paired ns.id.name
  kind : frame.kind = .ns ns.id.name
  named : frame.TypesNamed
  slots : ∀ slot : Slot, slot.IsPlain → frame.slot? slot =
    ((ns.declarations.flatMap (Declaration.entries ns.id.name)).find? fun entry =>
      entry.slot = slot).map Entry.here
  quiet : log.items = [] ↔
    (ns.declarations.flatMap (Declaration.entries ns.id.name)).Pairwise Entry.Clear

theorem exists_populated (uri : String) (ns : Namespace Unit)
    (hplain : ∀ entry ∈ ns.declarations.flatMap (Declaration.entries ns.id.name),
      entry.slot.IsPlain) :
    ∃ frame log, Populated uri ns frame log := by
  let s₀ := Resolver.start uri (Stack.ofBuiltIns Resolver.builtIns)
  obtain ⟨frame, log, hrun, hpaired, hkind, hslots, more, hmore, hclear⟩ :=
    populate_run ns hplain s₀
  obtain ⟨frame', s', hrun', -, -, hnamed⟩ := populate_keeps ns s₀ (Resolver.at_start s₀)
  rw [hrun] at hrun'
  cases hrun'
  exact ⟨frame, log, hrun, hpaired, hkind, hnamed, hslots, by rw [hmore]; exact hclear⟩

/-- Two orders that both are quiet bind every name alike. -/
theorem Populated.same {uri : String} {ns ns' : Namespace Unit}
    {frame frame' : Frame (Located Name)}
    {log log' : Log} (h : Populated uri ns frame log) (h' : Populated uri ns' frame' log')
    (hid : ns'.id.name = ns.id.name) (hperm : ns.declarations.Perm ns'.declarations)
    (hquiet : log.items = []) (hquiet' : log'.items = []) : frame.Same frame' := by
  have hpaired' := h'.paired
  have hslots' := h'.slots
  have hclear' := h'.quiet.1 hquiet'
  rw [hid] at hpaired' hslots' hclear'
  have hclear := h.quiet.1 hquiet
  refine h.paired.same hpaired' (by rw [h.kind, h'.kind, hid]) fun slot hslot => ?_
  rw [h.slots slot hslot, hslots' slot hslot, Entry.find?_perm hclear hclear'
    (hperm.flatMap_right (Declaration.entries ns.id.name)) (offers_unique hclear)]

end Resolve

/-- A namespace that is resolved without a report is resolved in every order of its declarations.
Nothing is reported for another order exactly when no data type comes after a declaration with a
constructor of its name, and then every declaration is resolved to the same tree. -/
theorem Namespace.resolve_permuted {uri : String} {ns ns' : Namespace Unit}
    {resolved : Namespace Name} {resolver : Resolver}
    (hresolved : ns.resolve uri = .ok resolved resolver) (hquiet : resolver.log.items = [])
    (hplain : ∀ d ∈ ns.declarations, ∀ text ∈ d.texts, '.' ∉ text.toList)
    (hid : ns'.id.name = ns.id.name) (hperm : ns.declarations.Perm ns'.declarations) :
    ∃ resolved' resolver', ns'.resolve uri = .ok resolved' resolver' ∧
      (resolver'.log.items = [] ↔ ns'.declarations.Pairwise fun d e => d.takesName e = false) ∧
      (resolver'.log.items = [] → ∃ tree : Declaration Unit → Declaration Name,
        (∀ d, (tree d).written = d) ∧
        resolved.groups.flatten.Perm (ns.declarations.map tree) ∧
        resolved'.groups.flatten.Perm (ns'.declarations.map tree)) := by
  have hentries : ∀ (ns : Namespace Unit),
      (∀ d ∈ ns.declarations, ∀ text ∈ d.texts, '.' ∉ text.toList) →
      ∀ entry ∈ ns.declarations.flatMap (Declaration.entries ns.id.name), entry.slot.IsPlain :=
    fun ns hplain entry hentry => by
      obtain ⟨d, hd, hentry⟩ := List.mem_flatMap.1 hentry
      exact Declaration.isPlain_of_texts (hplain d hd) entry hentry
  obtain ⟨frame, log, hns⟩ := Resolve.exists_populated uri ns (hentries ns hplain)
  obtain ⟨frame', log', hns'⟩ := Resolve.exists_populated uri ns'
    (hentries ns' fun d hd => hplain d (hperm.mem_iff.2 hd))
  choose tree reports hwritten hrun using Resolve.exists_resolution hns.kind hns.named uri
  obtain ⟨_, _, hresolved₁, hlog, htrees⟩ :=
    Resolve.resolve_run hns.kind hns.run fun d => hrun d frame (.refl frame)
  rw [hresolved] at hresolved₁
  cases hresolved₁
  rw [hlog, List.append_eq_nil_iff] at hquiet
  have hpairwise := hns.quiet.1 hquiet.1
  have hordered := clear_perm hpairwise hperm
  have hpopulated := hns'.quiet
  rw [hid] at hpopulated
  by_cases hquiet' : log'.items = []
  · obtain ⟨resolved', resolver', hresolved', hlog', htrees'⟩ :=
      Resolve.resolve_run hns'.kind hns'.run fun d => hrun d frame'
        (hns.same hns' hid hperm hquiet.1 hquiet')
    have hnothing : ns'.declarations.flatMap reports = [] := by
      have hreports := hperm.flatMap_right reports
      rw [hquiet.2] at hreports
      exact hreports.symm.eq_nil
    have hsilent : resolver'.log.items = [] := by
      rw [hlog', hquiet', hnothing]
      rfl
    exact ⟨resolved', resolver', hresolved',
      ⟨fun _ => hordered.1 (hpopulated.1 hquiet'), fun _ => hsilent⟩,
      fun _ => ⟨tree, hwritten, htrees, htrees'⟩⟩
  · choose tree' reports' _ hrun' using Resolve.exists_resolution hns'.kind hns'.named uri
    obtain ⟨resolved', resolver', hresolved', hlog', -⟩ :=
      Resolve.resolve_run hns'.kind hns'.run fun d => hrun' d frame' (.refl frame')
    have hreported : resolver'.log.items ≠ [] := fun hnil => by
      rw [hlog', List.append_eq_nil_iff] at hnil
      exact hquiet' hnil.1
    exact ⟨resolved', resolver', hresolved',
      ⟨fun h => (hreported h).elim, fun h => (hquiet' (hpopulated.2 (hordered.2 h))).elim⟩,
      fun h => (hreported h).elim⟩

/-! ## The case that is reported -/

/-- Whether a namespace is resolved without a report. -/
def Namespace.isQuiet (ns : Namespace Unit) : Bool :=
  match ns.resolve "" with
  | .ok _ resolver => resolver.log.items.isEmpty
  | .error _ _ => false

theorem Namespace.exists_of_isQuiet {ns : Namespace Unit} (h : ns.isQuiet = true) :
    ∃ resolved resolver, ns.resolve "" = .ok resolved resolver ∧ resolver.log.items = [] := by
  unfold isQuiet at h
  split at h
  · next resolved resolver hresolved =>
      exact ⟨resolved, resolver, hresolved, List.isEmpty_iff.1 h⟩
  · cases h

/-- A namespace of two data types. -/
def Namespace.pair (first second : Data Unit) : Namespace Unit :=
  ⟨⟨default, ()⟩, ⟨default, [], "N"⟩, [], [[.data first, .data second]]⟩

/-- A data type with one constructor, which has no parameters. -/
def Data.single (name : String) (typeParams : List (TypeVarNode Unit)) (constructor : String) :
    Data Unit :=
  ⟨⟨default, ()⟩, name, typeParams, [⟨⟨default, ()⟩, constructor, [], none⟩]⟩

/-- The data type `C` with a type parameter and the constructor `K`. -/
def Data.parametric : Data Unit :=
  single "C" [⟨⟨default, ()⟩, .universal, "a"⟩] "K"

/-- Two data types whose constructors are named like neither of them, in both orders. -/
theorem Namespace.resolve_permuted_pair :
    ∃ resolved resolver resolved' resolver',
      (pair .parametric (.single "D" [] "E")).resolve "" = .ok resolved resolver ∧
      resolver.log.items = [] ∧
      (pair (.single "D" [] "E") .parametric).resolve "" = .ok resolved' resolver' ∧
      resolver'.log.items = [] ∧
      ∃ tree : Declaration Unit → Declaration Name, (∀ d, (tree d).written = d) ∧
        resolved.groups.flatten.Perm
          [tree (.data .parametric), tree (.data (.single "D" [] "E"))] ∧
        resolved'.groups.flatten.Perm
          [tree (.data (.single "D" [] "E")), tree (.data .parametric)] := by
  have hns : (pair .parametric (.single "D" [] "E")).isQuiet = true := by decide +kernel
  obtain ⟨resolved, resolver, hresolved, hquiet⟩ := exists_of_isQuiet hns
  have hid : (pair (.single "D" [] "E") .parametric).id.name =
      (pair .parametric (.single "D" [] "E")).id.name := rfl
  obtain ⟨resolved', resolver', hresolved', hiff, htrees⟩ :=
    resolve_permuted hresolved hquiet (by decide +kernel) hid (.swap _ _ _)
  have hquiet' : resolver'.log.items = [] := hiff.2 (by decide +kernel)
  exact ⟨resolved, resolver, resolved', resolver', hresolved, hquiet, hresolved', hquiet',
    htrees hquiet'⟩

/-- A data type is reported after another one with a constructor of its name, and not before. -/
theorem Namespace.exists_permuted_reported :
    ∃ ns ns' : Namespace Unit, ns.isQuiet = true ∧ ns'.isQuiet = false ∧ ns'.id = ns.id ∧
      ns.declarations.Perm ns'.declarations ∧
      ∀ d ∈ ns.declarations, ∀ text ∈ d.texts, '.' ∉ text.toList :=
  ⟨pair .parametric (.single "X" [] "C"), pair (.single "X" [] "C") .parametric,
    by decide +kernel, by decide +kernel, rfl, .swap _ _ _, by decide +kernel⟩

end PolyFront
