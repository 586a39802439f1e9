import PolyFront.Proofs.Dependencies.Components

/-!
# Groups arrange the declarations

The groups are the components of the graph with the declarations of each, less the components
without a declaration, and then the declarations that the graph does not know.  Every declaration
is in one group, the groups follow the edges, and declarations with names of the graph share a
group just when their names share a component.
-/

namespace PolyFront

open Relation (ReflTransGen)

open scoped List

namespace DeclarationGraph

/-- The name is at an end of an edge. -/
def Touches (edges : List (DeclarationName × DeclarationName)) (name : DeclarationName) : Prop :=
  ∃ edge ∈ edges, name = edge.1 ∨ name = edge.2

/-- There is a path along the edges. -/
def Path (edges : List (DeclarationName × DeclarationName)) :
    DeclarationName → DeclarationName → Prop :=
  ReflTransGen fun a b => (a, b) ∈ edges

instance (edges : List (DeclarationName × DeclarationName)) (name : DeclarationName) :
    Decidable (Touches edges name) :=
  inferInstanceAs (Decidable (∃ edge ∈ edges, name = edge.1 ∨ name = edge.2))

/-- The declaration has a name that the edges touch. -/
def Known (edges : List (DeclarationName × DeclarationName)) (d : Declaration Name) : Prop :=
  ∃ name ∈ d.here.info.declaration?, Touches edges name

instance (edges : List (DeclarationName × DeclarationName)) (d : Declaration Name) :
    Decidable (Known edges d) :=
  inferInstanceAs (Decidable (∃ name ∈ d.here.info.declaration?, Touches edges name))

/-- The groups hold every declaration once and follow the edges.  The declarations that the graph
does not know come last, in their own order. -/
structure Arranges (edges : List (DeclarationName × DeclarationName))
    (declarations : List (Declaration Name)) (groups : List (List (Declaration Name))) :
    Prop where
  perm : groups.flatten ~ declarations
  inhabited : ∀ group ∈ groups, group ≠ []
  /-- A declaration comes no later than those that depend on it. -/
  ordered : ∀ (i j : Nat) (hi : i < groups.length) (hj : j < groups.length),
    ∀ d ∈ groups[i], ∀ e ∈ groups[j], ∀ source target,
      d.here.info.declaration? = some source → e.here.info.declaration? = some target →
        (source, target) ∈ edges → i ≤ j
  /-- Groups are strongly connected, and nothing that is strongly connected is torn apart. -/
  shared : ∀ (i j : Nat) (hi : i < groups.length) (hj : j < groups.length),
    ∀ d ∈ groups[i], ∀ e ∈ groups[j], ∀ name other,
      d.here.info.declaration? = some name → e.here.info.declaration? = some other →
        Touches edges name → Touches edges other →
          (i = j ↔ Path edges name other ∧ Path edges other name)
  sorted : ∀ group ∈ groups, (∃ d ∈ group, Known edges d) →
    group.Pairwise fun d e => d.here.range.start.before e.here.range.start
  apart : ∃ known : List (List (Declaration Name)),
    (∀ group ∈ known, ∀ d ∈ group, Known edges d) ∧
      groups = known ++ [declarations.filter fun d => ¬Known edges d].filter (!·.isEmpty)

variable {graph : DeclarationGraph} {declarations : List (Declaration Name)}

/-- The declarations of a component stand in the order of the source. -/
theorem groupOf_sorted (declarations : List (Declaration Name))
    (component : List DeclarationName) :
    (groupOf declarations component).Pairwise fun d e =>
      d.here.range.start.before e.here.range.start :=
  @List.pairwise_mergeSort (Declaration Name) (fun d e =>
      d.here.range.start.before e.here.range.start)
    (fun _ _ _ => Position.before_trans) (fun _ _ => Position.before_total _ _) _

/-- What the graph does not know has a name that is none of its nodes. -/
theorem mem_unknown {d : Declaration Name} : d ∈ graph.unknown declarations ↔
    d ∈ declarations ∧ ¬∃ name ∈ d.here.info.declaration?, name ∈ graph.nodes := by
  rw [unknown, List.mem_filter]
  refine and_congr_right fun _ => ?_
  simp only [declares, Bool.not_eq_true', List.any_eq_false, decide_eq_true_eq, not_exists,
    not_and, Option.mem_def]
  exact ⟨fun h name hname hnode => h name hnode hname, fun h name hnode hname => h name hname hnode⟩

/-- A group with a name of the graph is made from a component. -/
theorem Proper.exists_component (h : graph.Proper) {group : List (Declaration Name)}
    (hgroup : group ∈ graph.groups declarations) {d : Declaration Name} (hd : d ∈ group)
    {name : DeclarationName} (hname : d.here.info.declaration? = some name)
    (hnode : name ∈ graph.nodes) :
    ∃ component ∈ graph.stronglyConnected, group = groupOf declarations component := by
  rw [h.groups_eq] at hgroup
  rcases List.mem_append.1 (List.mem_filter.1 hgroup).1 with hknown | hunknown
  · obtain ⟨component, hcomponent, rfl⟩ := List.mem_map.1 hknown
    exact ⟨component, hcomponent, rfl⟩
  · rw [List.mem_singleton.1 hunknown] at hd
    exact ((mem_unknown.1 hd).2 ⟨name, hname, hnode⟩).elim

/-- A declaration of a later group is reached from none of an earlier one. -/
theorem Proper.group_le (h : graph.Proper) {i j : Nat}
    (hi : i < (graph.groups declarations).length) (hj : j < (graph.groups declarations).length)
    {d e : Declaration Name} (hd : d ∈ (graph.groups declarations)[i])
    (he : e ∈ (graph.groups declarations)[j]) {source target : DeclarationName}
    (hsource : d.here.info.declaration? = some source)
    (htarget : e.here.info.declaration? = some target) (hpath : graph.Reaches source target) :
    i ≤ j := by
  by_contra hlater
  exact List.pairwise_iff_getElem.1 (h.groups_ordered declarations) j i hj hi (by omega) e he d hd
    target source htarget hsource hpath

/-- The names of one group reach each other. -/
theorem Proper.group_connected (h : graph.Proper) {group : List (Declaration Name)}
    (hgroup : group ∈ graph.groups declarations) {d e : Declaration Name} (hd : d ∈ group)
    (he : e ∈ group) {name other : DeclarationName}
    (hname : d.here.info.declaration? = some name)
    (hother : e.here.info.declaration? = some other) (hnode : name ∈ graph.nodes) :
    graph.Reaches name other := by
  obtain ⟨component, hcomponent, rfl⟩ := h.exists_component hgroup hd hname hnode
  obtain ⟨first, hfirst, hdname⟩ := mem_groupOf hd
  obtain ⟨second, hsecond, hename⟩ := mem_groupOf he
  obtain rfl := Option.some.inj (hname.symm.trans hdname)
  obtain rfl := Option.some.inj (hother.symm.trans hename)
  exact h.stronglyConnected_connected component hcomponent _ hfirst _ hsecond

/-- Declarations are arranged by the graph of any edges, whatever names they have. -/
theorem groups_arranges (edges : List (DeclarationName × DeclarationName))
    (declarations : List (Declaration Name)) :
    Arranges edges declarations ((ofEdges edges).groups declarations) := by
  have hproper := ofEdges_proper edges
  have hnodes : ∀ name, name ∈ (ofEdges edges).nodes ↔ Touches edges name :=
    fun _ => mem_nodes_ofEdges edges
  have hpath : ∀ {a b}, (ofEdges edges).Reaches a b ↔ Path edges a b := ofEdges_reaches edges
  refine ⟨groups_perm _ declarations, fun group hgroup => ?_, ?_, ?_, ?_, ?_⟩
  · rw [hproper.groups_eq] at hgroup
    simpa using (List.mem_filter.1 hgroup).2
  · intro i j hi hj d hd e he source target hsource htarget hedge
    exact hproper.group_le hi hj hd he hsource htarget (hpath.2 (.single hedge))
  · intro i j hi hj d hd e he name other hname hother htouched htouched'
    rw [← hpath, ← hpath]
    constructor
    · rintro rfl
      have hgroup := List.getElem_mem hi
      exact ⟨hproper.group_connected hgroup hd he hname hother ((hnodes name).2 htouched),
        hproper.group_connected hgroup he hd hother hname ((hnodes other).2 htouched')⟩
    · rintro ⟨hto, hfrom⟩
      exact Nat.le_antisymm (hproper.group_le hi hj hd he hname hother hto)
        (hproper.group_le hj hi he hd hother hname hfrom)
  · rintro group hgroup ⟨d, hd, name, hname, htouched⟩
    have hnode := (hnodes name).2 htouched
    obtain ⟨component, -, rfl⟩ := hproper.exists_component hgroup hd hname hnode
    exact groupOf_sorted declarations component
  · have hunknown : (ofEdges edges).unknown declarations =
        declarations.filter fun d => ¬Known edges d := by
      refine List.filter_congr fun d hd => Bool.eq_iff_iff.2 ?_
      have hmem : d ∈ (ofEdges edges).unknown declarations ↔ _ := mem_unknown
      rw [unknown, List.mem_filter] at hmem
      simp only [hd, true_and, hnodes] at hmem
      exact hmem.trans decide_eq_true_iff.symm
    refine ⟨((ofEdges edges).stronglyConnected.map (groupOf declarations)).filter (!·.isEmpty),
      fun group hgroup d hd => ?_, ?_⟩
    · obtain ⟨component, hcomponent, rfl⟩ := List.mem_map.1 (List.mem_filter.1 hgroup).1
      obtain ⟨name, hname, hdname⟩ := mem_groupOf hd
      refine ⟨name, hdname, (hnodes name).1 ?_⟩
      exact hproper.stronglyConnected_perm.mem_iff.1
        (List.mem_flatten.2 ⟨component, hcomponent, hname⟩)
    · rw [hproper.groups_eq, List.filter_append, hunknown]

end DeclarationGraph

end PolyFront
