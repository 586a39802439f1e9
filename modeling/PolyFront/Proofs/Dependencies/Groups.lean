import Mathlib.Data.List.Nodup
import Mathlib.Data.List.Perm.Basic
import Mathlib.Logic.Relation
import PolyFront.Proofs.Dependencies.Ungrouped

/-!
# Groups come after what they depend on

A component takes in all predecessors of its members that no earlier component has, so that no
node of a component is reached from a later one.  Together the components hold every node once,
and the groups of declarations hold every declaration once.
-/

namespace PolyFront

open scoped List

namespace Search

variable {ν : Type} [DecidableEq ν]

/-! ## The order in which nodes are finished -/

/-- A search moves nodes from the unvisited and the stack to the finished ones. -/
theorem finish_perm (successors : ν → List ν) (unvisited : List ν) (stack : List (ν × List ν))
    (finished : List ν) :
    ((finish successors unvisited stack finished).2 ++
      (finish successors unvisited stack finished).1).Perm
        (stack.map Prod.fst ++ finished ++ unvisited) := by
  fun_induction finish successors unvisited stack finished with
  | case1 unvisited finished => exact .refl _
  | case2 unvisited finished node rest ih =>
    refine ih.trans (List.Perm.append_right _ ?_)
    exact List.perm_middle
  | case3 unvisited finished node next more rest hnext ih =>
    refine ih.trans ?_
    have herase := List.perm_cons_erase hnext
    simp only [List.map_cons, List.cons_append, List.append_assoc]
    refine (List.Perm.swap _ _ _).trans (List.Perm.cons _ ?_)
    refine List.Perm.trans ?_ ((herase.symm.append_left finished).append_left _)
    rw [← List.append_assoc, ← List.append_assoc]
    exact List.perm_middle.symm
  | case4 unvisited finished node next more rest hnext ih => exact ih

/-- One step of the searches from all nodes. -/
def finishFrom (successors : ν → List ν) (state : List ν × List ν) (start : ν) :
    List ν × List ν :=
  if start ∈ state.1 then
    finish successors (state.1.erase start) [(start, successors start)] state.2
  else state

theorem finishFrom_perm (successors : ν → List ν) (state : List ν × List ν) (start : ν) :
    ((finishFrom successors state start).2 ++ (finishFrom successors state start).1).Perm
      (state.2 ++ state.1) := by
  unfold finishFrom
  split
  · rename_i hstart
    refine (finish_perm _ _ _ _).trans ?_
    simp only [List.map_cons, List.map_nil, List.cons_append, List.nil_append]
    exact List.perm_middle.symm.trans ((List.perm_cons_erase hstart).symm.append_left _)
  · exact .refl _

theorem finish_subset (successors : ν → List ν) (unvisited : List ν)
    (stack : List (ν × List ν)) (finished : List ν) :
    (finish successors unvisited stack finished).1 ⊆ unvisited := by
  fun_induction finish successors unvisited stack finished with
  | case1 unvisited finished => exact fun _ h => h
  | case2 unvisited finished node rest ih => exact ih
  | case3 unvisited finished node next more rest hnext ih =>
    exact fun _ h => List.mem_of_mem_erase (ih h)
  | case4 unvisited finished node next more rest hnext ih => exact ih

/-- A search from a node leaves it no longer unvisited, and makes no node unvisited. -/
theorem finishFrom_visited (successors : ν → List ν) {state : List ν × List ν} (start : ν)
    (hnodup : state.1.Nodup) : start ∉ (finishFrom successors state start).1 ∧
      (finishFrom successors state start).1 ⊆ state.1 := by
  unfold finishFrom
  split
  · have hsubset := finish_subset successors (state.1.erase start) [(start, successors start)]
      state.2
    exact ⟨fun hmem => hnodup.not_mem_erase (hsubset hmem),
      fun _ h => List.mem_of_mem_erase (hsubset h)⟩
  · exact ⟨‹_›, fun _ h => h⟩

/-- All nodes are finished, each one once. -/
theorem finishAll_perm (successors : ν → List ν) {nodes : List ν} (hnodup : nodes.Nodup) :
    (finishAll successors nodes).Perm nodes := by
  have hrun : ∀ (starts : List ν) (state : List ν × List ν),
      (state.2 ++ state.1).Perm nodes → (∀ node ∈ state.1, node ∈ starts) →
      (starts.foldl (finishFrom successors) state).2.Perm nodes := by
    intro starts
    induction starts with
    | nil =>
      intro state hperm hleft
      have hempty : state.1 = [] := List.eq_nil_iff_forall_not_mem.2 fun node hnode =>
        List.not_mem_nil (hleft node hnode)
      rwa [hempty, List.append_nil] at hperm
    | cons start rest ih =>
      intro state hperm hleft
      have hdistinct : state.1.Nodup := (List.nodup_append.1 (hperm.nodup_iff.2 hnodup)).2.1
      obtain ⟨hvisited, hsubset⟩ := finishFrom_visited successors start hdistinct
      refine ih _ ((finishFrom_perm successors state start).trans hperm) fun node hnode => ?_
      rcases List.mem_cons.1 (hleft node (hsubset hnode)) with rfl | hrest
      · exact (hvisited hnode).elim
      · exact hrest
  exact hrun nodes (nodes, []) (.refl _) fun _ h => h

/-! ## Components -/

variable {predecessors : ν → List ν}

theorem without_nodup {items : List ν} (taken : List ν) (h : items.Nodup) :
    (without items taken).Nodup :=
  h.filter _

/-- Some items of a list come first, those that are left after them. -/
theorem perm_taken {items taken : List ν} (hitems : items.Nodup) (htaken : taken.Nodup)
    (hsubset : taken ⊆ items) : (taken ++ without items taken).Perm items := by
  refine (List.perm_ext_iff_of_nodup ?_ hitems).2 fun item => ?_
  · refine List.nodup_append.2 ⟨htaken, without_nodup taken hitems, ?_⟩
    rintro a ha _ hb rfl
    exact (mem_without.1 hb).2 ha
  · rw [List.mem_append, mem_without]
    constructor
    · rintro (hmem | ⟨hmem, -⟩)
      · exact hsubset hmem
      · exact hmem
    · intro hmem
      by_cases hitem : item ∈ taken
      · exact .inl hitem
      · exact .inr ⟨hmem, hitem⟩

/-- A collection moves nodes from the unassigned and the stack to the component. -/
theorem collect_perm (hpredecessors : ∀ node, (predecessors node).Nodup)
    {unassigned : List ν} (hnodup : unassigned.Nodup) (stack component : List ν) :
    ((collect predecessors unassigned stack component).2 ++
      (collect predecessors unassigned stack component).1).Perm
        (component ++ stack ++ unassigned) := by
  fun_induction collect predecessors unassigned stack component with
  | case1 unassigned component => simp
  | case2 unassigned component node rest fresh ih =>
    have hfresh : fresh.Nodup := (hpredecessors node).filter _
    have hsubset : fresh ⊆ unassigned := fun _ h => (mem_among.1 h).2
    refine (ih (without_nodup fresh hnodup)).trans ?_
    have htaken := perm_taken hnodup hfresh hsubset
    simp only [List.append_assoc, List.cons_append, List.nil_append]
    refine List.Perm.append_left _ (List.Perm.cons _ ?_)
    calc
      fresh.reverse ++ (rest ++ without unassigned fresh) ~
          fresh ++ (rest ++ without unassigned fresh) := fresh.reverse_perm.append_right _
      _ ~ rest ++ (fresh ++ without unassigned fresh) := List.perm_append_comm_assoc _ _ _
      _ ~ rest ++ unassigned := htaken.append_left _

theorem collect_subset (predecessors : ν → List ν) (unassigned stack component : List ν) :
    (collect predecessors unassigned stack component).1 ⊆ unassigned := by
  fun_induction collect predecessors unassigned stack component with
  | case1 unassigned component => exact fun _ h => h
  | case2 =>
    rename_i ih
    exact fun _ h => (mem_without.1 (ih h)).1

/-- No predecessor of what was collected stays unassigned. -/
theorem collect_closed (predecessors : ν → List ν) (unassigned stack component : List ν) :
    ∀ node ∈ (collect predecessors unassigned stack component).2, node ∈ component ∨
      ∀ p ∈ predecessors node, p ∉ (collect predecessors unassigned stack component).1 := by
  fun_induction collect predecessors unassigned stack component with
  | case1 unassigned component => exact fun _ h => .inl h
  | case2 unassigned component node rest fresh ih =>
    intro other hother
    rcases ih other hother with hold | hclosed
    · rcases List.mem_append.1 hold with hold | hnode
      · exact .inl hold
      · refine .inr fun p hp hleft => ?_
        have hunassigned := mem_without.1 (collect_subset _ _ _ _ hleft)
        rw [List.mem_singleton.1 hnode] at hp
        exact hunassigned.2 (mem_among.2 ⟨hp, hunassigned.1⟩)
    · exact .inr hclosed

/-- One step of the collections from all roots. -/
def collectFrom (predecessors : ν → List ν) (state : List ν × List (List ν)) (root : ν) :
    List ν × List (List ν) :=
  if root ∈ state.1 then
    let (unassigned, component) := collect predecessors (state.1.erase root) [root] []
    (unassigned, state.2 ++ [component])
  else state

/-- The components found so far and the nodes that are still to be assigned. -/
structure Collected (predecessors : ν → List ν) (nodes : List ν)
    (state : List ν × List (List ν)) : Prop where
  perm : (state.2.flatten ++ state.1).Perm nodes
  closed : ∀ component ∈ state.2, ∀ node ∈ component, ∀ p ∈ predecessors node, p ∉ state.1
  ordered : state.2.Pairwise fun earlier later =>
    ∀ node ∈ earlier, ∀ p ∈ predecessors node, p ∉ later

theorem Collected.step {nodes : List ν} {state : List ν × List (List ν)}
    (hpredecessors : ∀ node, (predecessors node).Nodup) (hnodup : nodes.Nodup)
    (h : Collected predecessors nodes state) (root : ν) :
    Collected predecessors nodes (collectFrom predecessors state root) ∧
      root ∉ (collectFrom predecessors state root).1 ∧
      (collectFrom predecessors state root).1 ⊆ state.1 := by
  have hdistinct : state.1.Nodup := (List.nodup_append.1 (h.perm.nodup_iff.2 hnodup)).2.1
  by_cases hroot : root ∈ state.1
  · have herase := hdistinct.erase root
    have hcollected := collect_perm hpredecessors herase [root] []
    have hsubset := collect_subset predecessors (state.1.erase root) [root] []
    have hclosed := collect_closed predecessors (state.1.erase root) [root] []
    rw [collectFrom, if_pos hroot]
    generalize collect predecessors (state.1.erase root) [root] [] = found at *
    have hall : (found.2 ++ found.1).Perm state.1 :=
      hcollected.trans (List.perm_cons_erase hroot).symm
    have hold : ∀ {node : ν}, node ∈ found.2 ∨ node ∈ found.1 → node ∈ state.1 :=
      fun hmem => hall.mem_iff.1 (List.mem_append.2 hmem)
    refine ⟨⟨?_, ?_, ?_⟩, fun hmem => hdistinct.not_mem_erase (hsubset hmem),
      fun _ hmem => hold (.inr hmem)⟩
    · simp only [List.flatten_append, List.flatten_cons, List.flatten_nil, List.append_nil,
        List.append_assoc]
      exact (hall.append_left _).trans h.perm
    · intro component hcomponent node hnode p hp
      rcases List.mem_append.1 hcomponent with hmem | hmem
      · exact fun hleft => h.closed component hmem node hnode p hp (hold (.inr hleft))
      · rw [List.mem_singleton.1 hmem] at hnode
        exact (hclosed node hnode).resolve_left (List.not_mem_nil) p hp
    · refine List.pairwise_append.2 ⟨h.ordered, List.pairwise_singleton _ _, ?_⟩
      intro component hcomponent later hlater node hnode p hp hmem
      rw [List.mem_singleton.1 hlater] at hmem
      exact h.closed component hcomponent node hnode p hp (hold (.inl hmem))
  · rw [collectFrom, if_neg hroot]
    exact ⟨h, hroot, fun _ hmem => hmem⟩

/-- All nodes are in components, each one once, and no component has predecessors in a later
one. -/
theorem components_collected (hpredecessors : ∀ node, (predecessors node).Nodup)
    {roots : List ν} (hnodup : roots.Nodup) :
    (components predecessors roots).flatten.Perm roots ∧
      (components predecessors roots).Pairwise fun earlier later =>
        ∀ node ∈ earlier, ∀ p ∈ predecessors node, p ∉ later := by
  have hrun : ∀ (starts : List ν) (state : List ν × List (List ν)),
      Collected predecessors roots state → (∀ node ∈ state.1, node ∈ starts) →
      Collected predecessors roots ([], (starts.foldl (collectFrom predecessors) state).2) := by
    intro starts
    induction starts with
    | nil =>
      intro state h hleft
      have hempty : state.1 = [] := List.eq_nil_iff_forall_not_mem.2 fun node hnode =>
        List.not_mem_nil (hleft node hnode)
      have hend : (([] : List ν), state.2) = state := Prod.ext hempty.symm rfl
      rw [List.foldl_nil, hend]
      exact h
    | cons start rest ih =>
      intro state h hleft
      obtain ⟨hnext, hassigned, hsubset⟩ := h.step hpredecessors hnodup start
      refine ih _ hnext fun node hnode => ?_
      rcases List.mem_cons.1 (hleft node (hsubset hnode)) with rfl | hrest
      · exact (hassigned hnode).elim
      · exact hrest
  have hstart : Collected predecessors roots (roots, []) :=
    ⟨.refl _, fun _ hmem => (List.not_mem_nil hmem).elim, List.Pairwise.nil⟩
  have hend := hrun roots _ hstart fun _ h => h
  refine ⟨?_, hend.ordered⟩
  have hperm := hend.perm
  rwa [List.append_nil] at hperm

omit [DecidableEq ν] in
/-- A collection of nodes without predecessors outside is reached only from inside. -/
theorem mem_of_reaches {inside : List ν}
    (hclosed : ∀ node ∈ inside, ∀ p ∈ predecessors node, p ∈ inside) {source node : ν}
    (hnode : node ∈ inside)
    (hpath : Relation.ReflTransGen (fun a b => a ∈ predecessors b) source node) :
    source ∈ inside := by
  induction hpath using Relation.ReflTransGen.head_induction_on with
  | refl => exact hnode
  | head hedge _ ih => exact hclosed _ ih _ hedge

omit [DecidableEq ν] in
/-- Whatever leads to a node of a component is in that component or in an earlier one. -/
theorem not_reached_from_later {components : List (List ν)}
    (hnodup : components.flatten.Nodup)
    (hmem : ∀ node, ∀ p ∈ predecessors node, p ∈ components.flatten)
    (hordered : components.Pairwise fun earlier later =>
      ∀ node ∈ earlier, ∀ p ∈ predecessors node, p ∉ later) :
    components.Pairwise fun earlier later => ∀ node ∈ earlier, ∀ source ∈ later,
      ¬Relation.ReflTransGen (fun a b => a ∈ predecessors b) source node := by
  have hsuffix : ∀ before after, components = before ++ after →
      after.Pairwise fun earlier later => ∀ node ∈ earlier, ∀ source ∈ later,
        ¬Relation.ReflTransGen (fun a b => a ∈ predecessors b) source node := by
    intro before after
    induction after generalizing before with
    | nil => exact fun _ => List.Pairwise.nil
    | cons component rest ih =>
      intro hsplit
      rw [List.append_cons] at hsplit
      refine List.Pairwise.cons (fun later hlater node hnode source hsource hpath => ?_)
        (ih (before ++ [component]) hsplit)
      rw [hsplit, List.flatten_append, List.nodup_append] at hnodup
      rw [hsplit, List.pairwise_append] at hordered
      -- All that come up to this component have no predecessors behind it.
      have hclosed : ∀ node ∈ (before ++ [component]).flatten, ∀ p ∈ predecessors node,
          p ∈ (before ++ [component]).flatten := by
        intro node hnode p hp
        have hsome := hmem node p hp
        rw [hsplit, List.flatten_append, List.mem_append] at hsome
        refine hsome.resolve_right fun hbehind => ?_
        obtain ⟨earlier, hearlier, hnode⟩ := List.mem_flatten.1 hnode
        obtain ⟨behind, hbehind, hp'⟩ := List.mem_flatten.1 hbehind
        exact hordered.2.2 earlier hearlier behind hbehind node hnode p hp hp'
      have hown : node ∈ (before ++ [component]).flatten :=
        List.mem_flatten.2 ⟨component, List.mem_append_right _ List.mem_cons_self, hnode⟩
      have hinside := mem_of_reaches hclosed hown hpath
      exact hnodup.2.2 source hinside source (List.mem_flatten.2 ⟨later, hlater, hsource⟩) rfl
  exact hsuffix [] components rfl

end Search

namespace DeclarationGraph

variable {graph : DeclarationGraph}

/-- Nodes and edges are listed once, and the ends of edges are nodes. -/
structure Proper (graph : DeclarationGraph) : Prop where
  nodes : graph.nodes.Nodup
  edges : graph.edges.Nodup
  ends : ∀ edge ∈ graph.edges, edge.1 ∈ graph.nodes ∧ edge.2 ∈ graph.nodes

/-- The target depends on the source, directly or through others. -/
def Reaches (graph : DeclarationGraph) : DeclarationName → DeclarationName → Prop :=
  Relation.ReflTransGen fun a b => (a, b) ∈ graph.edges

theorem proper_empty : Proper empty :=
  ⟨List.nodup_nil, List.nodup_nil, fun _ h => (List.not_mem_nil h).elim⟩

theorem mem_nodes_addNode {node other : DeclarationName} :
    other ∈ (graph.addNode node).nodes ↔ other ∈ graph.nodes ∨ other = node := by
  unfold addNode
  split
  · rename_i hnode
    exact ⟨.inl, fun h => h.elim id fun heq => heq ▸ hnode⟩
  · simp

@[simp]
theorem edges_addNode (node : DeclarationName) : (graph.addNode node).edges = graph.edges := by
  unfold addNode
  split <;> rfl

theorem Proper.addNode (h : graph.Proper) (node : DeclarationName) :
    (graph.addNode node).Proper := by
  refine ⟨?_, by rw [edges_addNode]; exact h.edges, fun edge hedge => ?_⟩
  · unfold DeclarationGraph.addNode
    split
    · exact h.nodes
    · rw [← List.concat_eq_append]
      exact List.Nodup.concat ‹_› h.nodes
  · rw [edges_addNode] at hedge
    obtain ⟨hsource, htarget⟩ := h.ends edge hedge
    exact ⟨mem_nodes_addNode.2 (.inl hsource), mem_nodes_addNode.2 (.inl htarget)⟩

theorem mem_edges_addEdge {source target : DeclarationName}
    {edge : DeclarationName × DeclarationName} :
    edge ∈ (graph.addEdge source target).edges ↔
      edge ∈ graph.edges ∨ edge = (source, target) := by
  simp only [addEdge, edges_addNode]
  split
  · rename_i hedge
    rw [edges_addNode, edges_addNode]
    exact ⟨.inl, fun h => h.elim id fun heq => heq ▸ hedge⟩
  · simp

theorem Proper.addEdge (h : graph.Proper) (source target : DeclarationName) :
    (graph.addEdge source target).Proper := by
  have hnodes := (h.addNode source).addNode target
  unfold DeclarationGraph.addEdge
  dsimp only
  split
  · exact hnodes
  · rename_i hedge
    refine ⟨hnodes.nodes, ?_, fun edge hmem => ?_⟩
    · rw [← List.concat_eq_append]
      exact List.Nodup.concat hedge hnodes.edges
    rcases List.mem_append.1 hmem with hold | hnew
    · exact hnodes.ends edge hold
    · obtain rfl := List.mem_singleton.1 hnew
      exact ⟨mem_nodes_addNode.2 (.inl (mem_nodes_addNode.2 (.inr rfl))),
        mem_nodes_addNode.2 (.inr rfl)⟩

/-! ## Strongly connected components -/

theorem mem_predecessors {source target : DeclarationName} :
    source ∈ graph.predecessors target ↔ (source, target) ∈ graph.edges := by
  simp [predecessors]

theorem Proper.predecessors_nodup (h : graph.Proper) (node : DeclarationName) :
    (graph.predecessors node).Nodup := by
  refine List.Nodup.map_on ?_ (List.Nodup.filter _ h.edges)
  rintro ⟨a, b⟩ hab ⟨c, d⟩ hcd heq
  obtain rfl : b = node := by simpa using (List.mem_filter.1 hab).2
  obtain rfl : d = b := by simpa using (List.mem_filter.1 hcd).2
  exact Prod.ext heq rfl

/-- Every node is in one component. -/
theorem Proper.stronglyConnected_perm (h : graph.Proper) :
    graph.stronglyConnected.flatten.Perm graph.nodes := by
  have hfinished := Search.finishAll_perm graph.successors h.nodes
  have hnodup := hfinished.nodup_iff.2 h.nodes
  exact (Search.components_collected h.predecessors_nodup hnodup).1.trans hfinished

/-- No component depends on a later one. -/
theorem Proper.stronglyConnected_ordered (h : graph.Proper) :
    graph.stronglyConnected.Pairwise fun earlier later =>
      ∀ node ∈ earlier, ∀ source ∈ later, ¬graph.Reaches source node := by
  have hfinished := Search.finishAll_perm graph.successors h.nodes
  have hnodup := hfinished.nodup_iff.2 h.nodes
  have hordered := (Search.components_collected h.predecessors_nodup hnodup).2
  have hflatten := h.stronglyConnected_perm
  have hlater := Search.not_reached_from_later (hflatten.nodup_iff.2 h.nodes) ?_ hordered
  · simpa only [Reaches, mem_predecessors] using hlater
  · intro node p hp
    exact hflatten.mem_iff.2 (h.ends _ (mem_predecessors.1 hp)).1

/-! ## Groups -/

/-- Every declaration is in one group. -/
theorem groups_perm (graph : DeclarationGraph) (declarations : List (Declaration Name)) :
    (graph.groups declarations).flatten ~ declarations := by
  rw [groups, List.flatten_filter_not_isEmpty]
  simpa using (Ungrouped.ofList declarations).split_perm graph.stronglyConnected

theorem mem_of_mem_groups {declarations group : List (Declaration Name)} {d : Declaration Name}
    (hgroup : group ∈ graph.groups declarations) (hd : d ∈ group) : d ∈ declarations :=
  (graph.groups_perm declarations).mem_iff.1 (List.mem_flatten.2 ⟨group, hgroup, hd⟩)

/-- The declarations of one component, by source position. -/
def groupOf (declarations : List (Declaration Name)) (component : List DeclarationName) :
    List (Declaration Name) :=
  Ungrouped.bySource (component.flatMap fun name => declarations.filter (declares name))

theorem groupOf_perm (declarations : List (Declaration Name))
    (component : List DeclarationName) :
    groupOf declarations component ~
      component.flatMap fun name => declarations.filter (declares name) :=
  List.mergeSort_perm _ _

theorem mem_groupOf {declarations : List (Declaration Name)}
    {component : List DeclarationName} {d : Declaration Name}
    (h : d ∈ groupOf declarations component) :
    ∃ name ∈ component, d.here.info.declaration? = some name := by
  obtain ⟨name, hname, hd⟩ := List.mem_flatMap.1 ((groupOf_perm _ _).mem_iff.1 h)
  exact ⟨name, hname, by simpa [declares] using (List.mem_filter.1 hd).2⟩

/-- The declarations that the graph does not know. -/
def unknown (graph : DeclarationGraph) (declarations : List (Declaration Name)) :
    List (Declaration Name) :=
  declarations.filter fun d => !graph.nodes.any (declares · d)

/-- No name is in two components, so that each group holds all declarations of its names. -/
theorem Proper.groups_eq (h : graph.Proper) (declarations : List (Declaration Name)) :
    graph.groups declarations = (graph.stronglyConnected.map (groupOf declarations) ++
      [graph.unknown declarations]).filter fun group => !group.isEmpty := by
  have hperm := h.stronglyConnected_perm
  have hsplit := (Ungrouped.left_ofList declarations).split (hperm.nodup_iff.2 h.nodes)
  have hunknown : (declarations.filter fun d =>
      !graph.stronglyConnected.flatten.any (declares · d)) = graph.unknown declarations :=
    List.filter_congr fun d _ => congrArg _ hperm.any_eq
  rw [groups, hsplit, List.nil_append, hunknown]
  rfl

/-- No group depends on a later one. -/
theorem Proper.groups_ordered (h : graph.Proper) (declarations : List (Declaration Name)) :
    (graph.groups declarations).Pairwise fun earlier later =>
      ∀ d ∈ earlier, ∀ e ∈ later, ∀ target source, d.here.info.declaration? = some target →
        e.here.info.declaration? = some source → ¬graph.Reaches source target := by
  rw [h.groups_eq]
  refine List.Pairwise.filter _ (List.pairwise_append.2 ⟨?_, List.pairwise_singleton _ _, ?_⟩)
  · refine List.Pairwise.map _ (fun earlier later hordered d hd e he target source hd' he' => ?_)
      h.stronglyConnected_ordered
    obtain ⟨name, hname, hdname⟩ := mem_groupOf hd
    obtain ⟨other, hother, hename⟩ := mem_groupOf he
    rw [hd'] at hdname
    rw [he'] at hename
    obtain rfl := Option.some.inj hdname
    obtain rfl := Option.some.inj hename
    exact hordered _ hname _ hother
  · intro group hgroup apart hapart d hd e he target source hd' he' hpath
    obtain ⟨component, hcomponent, rfl⟩ := List.mem_map.1 hgroup
    obtain ⟨name, hname, hdname⟩ := mem_groupOf hd
    rw [hd'] at hdname
    obtain rfl := Option.some.inj hdname
    have hnode : target ∈ graph.nodes :=
      h.stronglyConnected_perm.mem_iff.1 (List.mem_flatten.2 ⟨component, hcomponent, hname⟩)
    have hsource : source ∈ graph.nodes := by
      rcases Relation.ReflTransGen.cases_head hpath with rfl | ⟨next, hedge, -⟩
      · exact hnode
      · exact (h.ends _ hedge).1
    rw [List.mem_singleton.1 hapart] at he
    have hunknown := (List.mem_filter.1 he).2
    simp only [Bool.not_eq_true', List.any_eq_false] at hunknown
    exact hunknown source hsource (by simpa [declares] using he')

end DeclarationGraph

end PolyFront
