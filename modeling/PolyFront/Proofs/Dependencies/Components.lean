import PolyFront.Proofs.Dependencies.Groups

/-!
# Components are strongly connected

A depth-first search finishes a node only when all successors are on the current path or finished.
A successor on the path leads to whatever is finished while it stays there.  So when a node that
finished later is reached through nodes that finished earlier, it leads back to all of them, and the
component which is collected from it against the edges is strongly connected.
-/

namespace PolyFront

open Relation (ReflTransGen)

open scoped List

namespace Search

variable {ν : Type}

/-- There is a path along the successors. -/
def Leads (successors : ν → List ν) : ν → ν → Prop :=
  ReflTransGen fun a b => b ∈ successors a

variable [DecidableEq ν] {successors predecessors : ν → List ν} {unvisited finished order : List ν}
  {stack rest : List (ν × List ν)} {node next start : ν}

/-! ## Positions in the finishing order -/

/-- In a list with the last finished node first, the node leads to all that finished before it and
not before the other one. -/
def Encloses (successors : ν → List ν) (finished : List ν) (node other : ν) : Prop :=
  ∀ w ∈ finished, finished.idxOf node ≤ finished.idxOf w →
    finished.idxOf w ≤ finished.idxOf other → Leads successors node w

/-- Every successor finished no later, or leads to all that finished in between. -/
def Nested (successors : ν → List ν) (order : List ν) : Prop :=
  ∀ node ∈ order, ∀ next ∈ successors node, next ∈ order ∧
    (order.idxOf node ≤ order.idxOf next ∨ Encloses successors order next node)

theorem idxOf_cons_of_mem (h : (node :: finished).Nodup) {other : ν} (hother : other ∈ finished) :
    (node :: finished).idxOf other = finished.idxOf other + 1 := by
  rw [List.idxOf_cons_ne]
  rintro rfl
  exact (List.nodup_cons.1 h).1 hother

/-- What leads to a node through nodes that finished no later is enclosed by it. -/
theorem Nested.encloses (h : Nested successors order) {root : ν} (hroot : root ∈ order)
    (hpath : ReflTransGen (fun a b => b ∈ successors a ∧ a ∈ order ∧
      order.idxOf root ≤ order.idxOf a) node root) : Encloses successors order root node := by
  induction hpath using ReflTransGen.head_induction_on with
  | refl =>
    intro w hw hle hge
    rw [List.idxOf_inj hroot |>.1 (Nat.le_antisymm hle hge)]
    exact .refl
  | @head node next hedge hrest ih =>
    obtain ⟨hnext, hnode, -⟩ := hedge
    intro w hw hle hge
    obtain ⟨hmem, hearlier | hnested⟩ := h node hnode next hnext
    · exact ih w hw hle (Nat.le_trans hge hearlier)
    · rcases Nat.le_total (order.idxOf w) (order.idxOf next) with hbefore | hafter
      · exact ih w hw hle hbefore
      · have hlater : order.idxOf root ≤ order.idxOf next := by
          rcases ReflTransGen.cases_head hrest with rfl | ⟨_, ⟨-, -, hle⟩, -⟩
          · exact Nat.le_refl _
          · exact hle
        exact (ih next hmem hlater (Nat.le_refl _)).trans (hnested w hw hafter hge)

/-! ## The search -/

/-- A search under way: the nodes on the stack are a path, every frame has visited the successors
that it is not still to visit, and a successor of a finished node finished before it or leads to all
that finished since, as long as it is on the stack or until it finished. -/
structure Exploring (successors : ν → List ν) (unvisited : List ν) (stack : List (ν × List ν))
    (finished : List ν) : Prop where
  nodup : (stack.map Prod.fst ++ finished ++ unvisited).Nodup
  closed : ∀ node, ∀ next ∈ successors node, next ∈ stack.map Prod.fst ++ finished ++ unvisited
  path : (stack.map Prod.fst).Pairwise fun upper lower => Leads successors lower upper
  todo : ∀ frame ∈ stack, ∀ next ∈ frame.2, next ∈ successors frame.1
  seen : ∀ frame ∈ stack, ∀ next ∈ successors frame.1,
    next ∈ frame.2 ∨ next ∈ stack.map Prod.fst ∨ next ∈ finished
  placed : ∀ node ∈ finished, ∀ next ∈ successors node,
    (next ∈ finished ∧ (finished.idxOf node ≤ finished.idxOf next ∨
      Encloses successors finished next node)) ∨
    next ∈ stack.map Prod.fst ∧
      ∀ w ∈ finished, finished.idxOf w ≤ finished.idxOf node → Leads successors next w

namespace Exploring

/-- A node without further successors to visit finishes. -/
theorem finish (h : Exploring successors unvisited ((node, []) :: rest) finished) :
    Exploring successors unvisited rest (node :: finished) := by
  have hperm : (rest.map Prod.fst ++ (node :: finished) ++ unvisited) ~
      (((node, []) :: rest).map Prod.fst ++ finished ++ unvisited) :=
    List.Perm.append_right _ List.perm_middle
  have hnodup := hperm.nodup_iff.2 h.nodup
  have hfinished : (node :: finished).Nodup :=
    (List.nodup_append.1 (List.nodup_append.1 hnodup).1).2.1
  obtain ⟨hbelow, hrest⟩ := List.pairwise_cons.1 h.path
  refine ⟨hnodup, fun other next hnext => hperm.mem_iff.2 (h.closed other next hnext), hrest,
    fun frame hframe => h.todo frame (List.mem_cons_of_mem _ hframe), ?_, ?_⟩
  · intro frame hframe next hnext
    rcases h.seen frame (List.mem_cons_of_mem _ hframe) next hnext with htodo | hstack | hdone
    · exact .inl htodo
    · rcases List.mem_cons.1 hstack with rfl | hstack
      · exact .inr (.inr List.mem_cons_self)
      · exact .inr (.inl hstack)
    · exact .inr (.inr (List.mem_cons_of_mem _ hdone))
  · intro other hother next hnext
    rcases List.mem_cons.1 hother with rfl | holder
    · -- The node that finishes now is the last one.
      rw [List.idxOf_cons_self]
      rcases h.seen _ List.mem_cons_self next hnext with htodo | hstack | hdone
      · cases htodo
      · rcases List.mem_cons.1 hstack with rfl | hunder
        · exact .inl ⟨List.mem_cons_self, .inl (Nat.zero_le _)⟩
        · refine .inr ⟨hunder, fun w hw hle => ?_⟩
          rcases List.mem_cons.1 hw with rfl | hold
          · exact hbelow next hunder
          · rw [idxOf_cons_of_mem hfinished hold] at hle
            omega
      · exact .inl ⟨List.mem_cons_of_mem _ hdone, .inl (Nat.zero_le _)⟩
    · rw [idxOf_cons_of_mem hfinished holder]
      rcases h.placed other holder next hnext with ⟨hdone, hplace⟩ | ⟨hstack, hplace⟩
      · refine .inl ⟨List.mem_cons_of_mem _ hdone, ?_⟩
        rw [idxOf_cons_of_mem hfinished hdone]
        rcases hplace with hle | hnested
        · exact .inl (Nat.succ_le_succ hle)
        · refine .inr fun w hw hge hle => ?_
          rw [idxOf_cons_of_mem hfinished hdone] at hge
          rw [idxOf_cons_of_mem hfinished holder] at hle
          rcases List.mem_cons.1 hw with rfl | hw
          · rw [List.idxOf_cons_self] at hge
            omega
          · rw [idxOf_cons_of_mem hfinished hw] at hge hle
            exact hnested w hw (by omega) (by omega)
      · have hall : next = node ∨ next ∈ rest.map Prod.fst := List.mem_cons.1 hstack
        have hleads : Leads successors next node := by
          rcases hall with rfl | hstack
          · exact .refl
          · exact hbelow next hstack
        have hsince : ∀ w ∈ node :: finished,
            (node :: finished).idxOf w ≤ finished.idxOf other + 1 → Leads successors next w := by
          intro w hw hle
          rcases List.mem_cons.1 hw with rfl | hold
          · exact hleads
          · rw [idxOf_cons_of_mem hfinished hold] at hle
            exact hplace w hold (by omega)
        rcases hall with rfl | hunder
        · refine .inl ⟨List.mem_cons_self, .inr fun w hw _ hle => hsince w hw ?_⟩
          rwa [idxOf_cons_of_mem hfinished holder] at hle
        · exact .inr ⟨hunder, hsince⟩

/-- A successor that is visited already is passed over. -/
theorem skip (upper : List (ν × List ν)) {more : List ν}
    (h : Exploring successors unvisited (upper ++ (node, next :: more) :: rest) finished)
    (hnext : next ∉ unvisited) :
    Exploring successors unvisited (upper ++ (node, more) :: rest) finished := by
  have hnodes : (upper ++ (node, more) :: rest).map Prod.fst =
      (upper ++ (node, next :: more) :: rest).map Prod.fst := by simp
  have hframe : (node, next :: more) ∈ upper ++ (node, next :: more) :: rest :=
    List.mem_append_right _ List.mem_cons_self
  have hvisited : next ∈ (upper ++ (node, next :: more) :: rest).map Prod.fst ∨
      next ∈ finished := by
    have hmem := h.closed node next (h.todo _ hframe next List.mem_cons_self)
    rw [List.mem_append, List.mem_append] at hmem
    exact hmem.resolve_right hnext
  have hothers : ∀ {frame}, frame ∈ upper ++ (node, more) :: rest →
      frame = (node, more) ∨ frame ∈ upper ++ (node, next :: more) :: rest := by
    intro frame hmem
    rcases List.mem_append.1 hmem with hupper | hlower
    · exact .inr (List.mem_append_left _ hupper)
    · rcases List.mem_cons.1 hlower with rfl | hrest
      · exact .inl rfl
      · exact .inr (List.mem_append_right _ (List.mem_cons_of_mem _ hrest))
  refine ⟨?_, ?_, ?_, fun frame hmem => ?_, fun frame hmem => ?_, ?_⟩
  · rw [hnodes]
    exact h.nodup
  · rw [hnodes]
    exact h.closed
  · rw [hnodes]
    exact h.path
  · rcases hothers hmem with rfl | hmem
    · exact fun other hother => h.todo _ hframe other (List.mem_cons_of_mem _ hother)
    · exact h.todo frame hmem
  · rw [hnodes]
    rcases hothers hmem with rfl | hmem
    · intro other hother
      rcases h.seen _ hframe other hother with htodo | hseen
      · rcases List.mem_cons.1 htodo with rfl | htodo
        · exact .inr hvisited
        · exact .inl htodo
      · exact .inr hseen
    · exact h.seen frame hmem
  · rw [hnodes]
    exact h.placed

/-- A node that is not visited yet is put on the stack, above nodes that lead to it. -/
theorem push (h : Exploring successors unvisited stack finished) (hnext : next ∈ unvisited)
    (hleads : ∀ other ∈ stack.map Prod.fst, Leads successors other next) :
    Exploring successors (unvisited.erase next) ((next, successors next) :: stack) finished := by
  have hperm : (((next, successors next) :: stack).map Prod.fst ++ finished ++
      unvisited.erase next) ~ (stack.map Prod.fst ++ finished ++ unvisited) := by
    have herase := (List.perm_cons_erase hnext).symm
    exact List.perm_middle.symm.trans (herase.append_left _)
  refine ⟨hperm.nodup_iff.2 h.nodup, fun node other hother => hperm.mem_iff.2 (h.closed _ _ hother),
    List.pairwise_cons.2 ⟨hleads, h.path⟩, ?_, ?_, ?_⟩
  · intro frame hframe other hother
    rcases List.mem_cons.1 hframe with rfl | hframe
    · exact hother
    · exact h.todo frame hframe other hother
  · intro frame hframe other hother
    rcases List.mem_cons.1 hframe with rfl | hframe
    · exact .inl hother
    · rcases h.seen frame hframe other hother with htodo | hstack | hdone
      · exact .inl htodo
      · exact .inr (.inl (List.mem_cons_of_mem _ hstack))
      · exact .inr (.inr hdone)
  · intro node hnode other hother
    rcases h.placed node hnode other hother with hdone | ⟨hstack, hplace⟩
    · exact .inl hdone
    · exact .inr ⟨List.mem_cons_of_mem _ hstack, hplace⟩

/-- The nodes of the stack lead to every successor of the one on top. -/
theorem leads {more : List ν}
    (h : Exploring successors unvisited ((node, next :: more) :: rest) finished) :
    ∀ other ∈ ((node, next :: more) :: rest).map Prod.fst, Leads successors other next := by
  have hedge := h.todo _ List.mem_cons_self next List.mem_cons_self
  intro other hother
  rcases List.mem_cons.1 hother with rfl | hother
  · exact .single hedge
  · exact ((List.pairwise_cons.1 h.path).1 other hother).tail hedge

/-- A search ends with all nodes of the stack finished. -/
theorem run (h : Exploring successors unvisited stack finished) :
    Exploring successors (Search.finish successors unvisited stack finished).1 []
      (Search.finish successors unvisited stack finished).2 := by
  fun_induction Search.finish successors unvisited stack finished with
  | case1 unvisited finished => exact h
  | case2 unvisited finished node rest ih => exact ih h.finish
  | case3 unvisited finished node next more rest hnext ih =>
    have hpushed := h.push hnext h.leads
    have hnodup : unvisited.Nodup := (List.nodup_append.1 h.nodup).2.1
    exact ih (skip [(next, successors next)] hpushed hnodup.not_mem_erase)
  | case4 unvisited finished node next more rest hnext ih =>
    exact ih (skip [] h hnext)

end Exploring

/-- All searches together finish the nodes in a nested order. -/
theorem finishAll_nested {nodes : List ν} (hnodup : nodes.Nodup)
    (hclosed : ∀ node, ∀ next ∈ successors node, next ∈ nodes) :
    Nested successors (finishAll successors nodes) := by
  have hrun : ∀ (starts : List ν) (state : List ν × List ν),
      Exploring successors state.1 [] state.2 → (∀ node ∈ state.1, node ∈ starts) →
      Exploring successors [] [] (starts.foldl (finishFrom successors) state).2 := by
    intro starts
    induction starts with
    | nil =>
      intro state h hleft
      have hempty : state.1 = [] := List.eq_nil_iff_forall_not_mem.2 fun node hnode =>
        List.not_mem_nil (hleft node hnode)
      rwa [hempty] at h
    | cons start rest ih =>
      intro state h hleft
      have hdistinct : state.1.Nodup := (List.nodup_append.1 h.nodup).2.1
      obtain ⟨hvisited, hsubset⟩ := finishFrom_visited successors start hdistinct
      refine ih _ ?_ fun node hnode => ?_
      · unfold finishFrom
        split
        · rename_i hstart
          exact (h.push hstart fun _ hother => (List.not_mem_nil hother).elim).run
        · exact h
      · rcases List.mem_cons.1 (hleft node (hsubset hnode)) with rfl | hrest
        · exact (hvisited hnode).elim
        · exact hrest
  have hstart : Exploring successors nodes [] [] :=
    ⟨hnodup, hclosed, List.Pairwise.nil, fun _ hmem => (List.not_mem_nil hmem).elim,
      fun _ hmem => (List.not_mem_nil hmem).elim, fun _ hmem => (List.not_mem_nil hmem).elim⟩
  have hend := hrun nodes (nodes, []) hstart fun _ h => h
  intro node hnode next hnext
  exact (hend.placed node hnode next hnext).resolve_right fun hstack =>
    List.not_mem_nil hstack.1

/-! ## Collecting components -/

/-- Whatever is collected leads to the stack through nodes that were unassigned. -/
theorem collect_leads (hadjacent : ∀ a b, a ∈ predecessors b ↔ b ∈ successors a)
    (unassigned stack component : List ν) :
    ∀ node ∈ (collect predecessors unassigned stack component).2, node ∈ component ∨
      ∃ root ∈ stack, ReflTransGen (fun a b => b ∈ successors a ∧ a ∈ unassigned) node root := by
  fun_induction collect predecessors unassigned stack component with
  | case1 unassigned component => exact fun _ h => .inl h
  | case2 unassigned component top rest fresh ih =>
    intro node hnode
    rcases ih node hnode with hold | ⟨root, hroot, hpath⟩
    · rcases List.mem_append.1 hold with hold | htop
      · exact .inl hold
      · rw [List.mem_singleton.1 htop]
        exact .inr ⟨top, List.mem_cons_self, .refl⟩
    · have hlonger : ReflTransGen (fun a b => b ∈ successors a ∧ a ∈ unassigned) node root :=
        ReflTransGen.mono (fun _ _ h => ⟨h.1, (mem_without.1 h.2).1⟩) _ _ hpath
      rcases List.mem_append.1 hroot with hfresh | hrest
      · obtain ⟨hedge, hmem⟩ := mem_among.1 (List.mem_reverse.1 hfresh)
        exact .inr ⟨top, List.mem_cons_self, hlonger.tail ⟨(hadjacent root top).1 hedge, hmem⟩⟩
      · exact .inr ⟨root, List.mem_cons_of_mem _ hrest, hlonger⟩

/-- What is listed from a node on has no earlier position than the node. -/
theorem idxOf_le_of_split {done : List ν} {root : ν} {rest : List ν}
    (hnodup : (done ++ root :: rest).Nodup) {node : ν} (hnode : node ∈ root :: rest) :
    (done ++ root :: rest).idxOf root ≤ (done ++ root :: rest).idxOf node := by
  have hapart : ∀ {other}, other ∈ root :: rest → other ∉ done := fun hother hdone =>
    (List.nodup_append.1 hnodup).2.2 _ hdone _ hother rfl
  rw [List.idxOf_append_of_notMem (hapart List.mem_cons_self),
    List.idxOf_append_of_notMem (hapart hnode), List.idxOf_cons_self]
  omega

/-- The members of a component and its root lead to each other. -/
theorem collect_connected (hadjacent : ∀ a b, a ∈ predecessors b ↔ b ∈ successors a)
    {done rest unassigned : List ν} {root : ν} (horder : Nested successors (done ++ root :: rest))
    (hnodup : (done ++ root :: rest).Nodup) (hleft : ∀ node ∈ unassigned, node ∈ root :: rest) :
    ∀ node ∈ (collect predecessors unassigned [root] []).2,
      Leads successors node root ∧ Leads successors root node := by
  intro node hnode
  obtain hempty | ⟨other, hother, hpath⟩ :=
    collect_leads hadjacent unassigned [root] [] node hnode
  · exact (List.not_mem_nil hempty).elim
  rw [List.mem_singleton.1 hother] at hpath
  have hmem : ∀ {other}, other ∈ unassigned ∨ other = root → other ∈ root :: rest := by
    rintro other (hother | rfl)
    · exact hleft other hother
    · exact List.mem_cons_self
  have hinside : node ∈ unassigned ∨ node = root := by
    rcases ReflTransGen.cases_head hpath with heq | ⟨_, ⟨-, hmem⟩, -⟩
    · exact .inr heq
    · exact .inl hmem
  have hlater : ∀ a b, b ∈ successors a ∧ a ∈ unassigned → b ∈ successors a ∧
      a ∈ done ++ root :: rest ∧
        (done ++ root :: rest).idxOf root ≤ (done ++ root :: rest).idxOf a :=
    fun a b h => ⟨h.1, List.mem_append_right _ (hmem (.inl h.2)),
      idxOf_le_of_split hnodup (hmem (.inl h.2))⟩
  have hencloses := horder.encloses (List.mem_append_right _ List.mem_cons_self)
    (ReflTransGen.mono hlater _ _ hpath)
  exact ⟨ReflTransGen.mono (fun _ _ h => h.1) _ _ hpath,
    hencloses node (List.mem_append_right _ (hmem hinside))
      (idxOf_le_of_split hnodup (hmem hinside)) (Nat.le_refl _)⟩

theorem collect_sublist (predecessors : ν → List ν) (unassigned stack component : List ν) :
    (collect predecessors unassigned stack component).1.Sublist unassigned := by
  fun_induction collect predecessors unassigned stack component with
  | case1 unassigned component => exact List.Sublist.refl _
  | case2 unassigned component node rest fresh ih => exact ih.trans List.filter_sublist

/-- A collection from a node leaves it no longer unassigned, and makes no node unassigned. -/
theorem collectFrom_assigned (predecessors : ν → List ν) {state : List ν × List (List ν)}
    (root : ν) (hnodup : state.1.Nodup) :
    (collectFrom predecessors state root).1.Sublist state.1 ∧
      root ∉ (collectFrom predecessors state root).1 := by
  unfold collectFrom
  split
  · have hsublist := collect_sublist predecessors (state.1.erase root) [root] []
    exact ⟨hsublist.trans List.erase_sublist,
      fun hmem => hnodup.not_mem_erase (hsublist.subset hmem)⟩
  · exact ⟨List.Sublist.refl _, ‹_›⟩

/-- The members of every component that is collected along a nested order lead to each other. -/
theorem components_connected (hadjacent : ∀ a b, a ∈ predecessors b ↔ b ∈ successors a)
    (horder : Nested successors order) (hnodup : order.Nodup) :
    ∀ component ∈ components predecessors order, ∀ a ∈ component, ∀ b ∈ component,
      Leads successors a b := by
  have hrun : ∀ (done starts : List ν) (state : List ν × List (List ν)), order = done ++ starts →
      state.1.Nodup → (∀ node ∈ state.1, node ∈ starts) →
      (∀ component ∈ state.2, ∀ a ∈ component, ∀ b ∈ component, Leads successors a b) →
      ∀ component ∈ (starts.foldl (collectFrom predecessors) state).2, ∀ a ∈ component,
        ∀ b ∈ component, Leads successors a b := by
    intro done starts
    induction starts generalizing done with
    | nil => exact fun _ _ _ _ h => h
    | cons root rest ih =>
      intro state hsplit hdistinct hleft hconnected
      subst hsplit
      have hsubset := collectFrom_assigned predecessors root hdistinct
      refine ih (done ++ [root]) _ (by simp) (hdistinct.sublist hsubset.1) ?_ ?_
      · intro node hnode
        rcases List.mem_cons.1 (hleft node (hsubset.1.subset hnode)) with rfl | hrest
        · exact (hsubset.2 hnode).elim
        · exact hrest
      · unfold collectFrom
        split
        · intro component hcomponent
          rcases List.mem_append.1 hcomponent with hold | hnew
          · exact hconnected component hold
          · have hafter : ∀ node ∈ state.1.erase root, node ∈ root :: rest :=
              fun node hnode => hleft node (List.mem_of_mem_erase hnode)
            have hroot := collect_connected hadjacent horder hnodup hafter
            rw [List.mem_singleton.1 hnew]
            exact fun a ha b hb => (hroot a ha).1.trans (hroot b hb).2
        · exact hconnected
  exact hrun [] order (order, []) rfl hnodup (fun _ h => h) fun _ h => (List.not_mem_nil h).elim

end Search

namespace DeclarationGraph

variable {graph : DeclarationGraph}

theorem mem_successors {source target : DeclarationName} :
    target ∈ graph.successors source ↔ (source, target) ∈ graph.edges := by
  simp [successors]

theorem mem_nodes_addEdge {source target node : DeclarationName} :
    node ∈ (graph.addEdge source target).nodes ↔
      node ∈ graph.nodes ∨ node = source ∨ node = target := by
  have hnodes : (graph.addEdge source target).nodes =
      ((graph.addNode source).addNode target).nodes := by
    unfold addEdge
    dsimp only
    split <;> rfl
  rw [hnodes, mem_nodes_addNode, mem_nodes_addNode, or_assoc]

/-- The members of a component reach each other. -/
theorem Proper.stronglyConnected_connected (h : graph.Proper) :
    ∀ component ∈ graph.stronglyConnected, ∀ a ∈ component, ∀ b ∈ component,
      graph.Reaches a b := by
  have hclosed : ∀ node, ∀ next ∈ graph.successors node, next ∈ graph.nodes :=
    fun node next hnext => (h.ends _ (mem_successors.1 hnext)).2
  have hadjacent : ∀ a b, a ∈ graph.predecessors b ↔ b ∈ graph.successors a :=
    fun a b => mem_predecessors.trans mem_successors.symm
  have hnodup := (Search.finishAll_perm graph.successors h.nodes).nodup_iff.2 h.nodes
  have hconnected := Search.components_connected hadjacent
    (Search.finishAll_nested h.nodes hclosed) hnodup
  simpa only [stronglyConnected, Search.Leads, Reaches, mem_successors] using hconnected

/-- A node is in no later component than those it reaches. -/
theorem Proper.stronglyConnected_le (h : graph.Proper) {i j : Nat}
    (hi : i < graph.stronglyConnected.length) (hj : j < graph.stronglyConnected.length)
    {a b : DeclarationName} (ha : a ∈ graph.stronglyConnected[i])
    (hb : b ∈ graph.stronglyConnected[j]) (hab : graph.Reaches a b) : i ≤ j := by
  by_contra hlater
  exact List.pairwise_iff_getElem.1 h.stronglyConnected_ordered j i hj hi (by omega) b hb a ha hab

/-! ## Graphs built edge by edge -/

/-- The graph of some edges, added one after the other to an empty graph. -/
def ofEdges (edges : List (DeclarationName × DeclarationName)) : DeclarationGraph :=
  edges.foldl (fun graph edge => graph.addEdge edge.1 edge.2) empty

theorem foldl_addEdge (edges : List (DeclarationName × DeclarationName))
    {graph : DeclarationGraph} (h : graph.Proper) :
    (edges.foldl (fun graph edge => graph.addEdge edge.1 edge.2) graph).Proper ∧
      (∀ edge, edge ∈ (edges.foldl (fun graph edge => graph.addEdge edge.1 edge.2) graph).edges ↔
        edge ∈ graph.edges ∨ edge ∈ edges) ∧
      ∀ node, node ∈ (edges.foldl (fun graph edge => graph.addEdge edge.1 edge.2) graph).nodes ↔
        node ∈ graph.nodes ∨ ∃ edge ∈ edges, node = edge.1 ∨ node = edge.2 := by
  induction edges generalizing graph with
  | nil => simp [h]
  | cons first rest ih =>
    obtain ⟨hproper, hedges, hnodes⟩ := ih (h.addEdge first.1 first.2)
    refine ⟨hproper, fun edge => ?_, fun node => ?_⟩
    · rw [List.foldl_cons, hedges, mem_edges_addEdge, List.mem_cons, or_assoc]
    · rw [List.foldl_cons, hnodes, mem_nodes_addEdge]
      simp only [List.mem_cons, exists_eq_or_imp, or_assoc]

variable (edges : List (DeclarationName × DeclarationName))

theorem ofEdges_proper : (ofEdges edges).Proper :=
  (foldl_addEdge edges proper_empty).1

theorem mem_nodes_ofEdges {node : DeclarationName} :
    node ∈ (ofEdges edges).nodes ↔ ∃ edge ∈ edges, node = edge.1 ∨ node = edge.2 := by
  refine ((foldl_addEdge edges proper_empty).2.2 node).trans ?_
  simp [empty]

theorem ofEdges_reaches {a b : DeclarationName} :
    (ofEdges edges).Reaches a b ↔ ReflTransGen (fun a b => (a, b) ∈ edges) a b := by
  have hedges : ∀ edge, edge ∈ (ofEdges edges).edges ↔ edge ∈ edges := fun edge =>
    ((foldl_addEdge edges proper_empty).2.1 edge).trans (by simp [empty])
  simp only [Reaches, hedges]

/-- The components of a graph that is built edge by edge, self loops and repeated edges included:
the components hold every end of an edge, each in a single place; two nodes are in the same
component just when there are paths both ways between them; and an edge between two components
leads from the earlier one to the later one. -/
theorem stronglyConnected_ofEdges :
    (ofEdges edges).stronglyConnected.flatten.Nodup ∧
      (∀ node, node ∈ (ofEdges edges).stronglyConnected.flatten ↔
        ∃ edge ∈ edges, node = edge.1 ∨ node = edge.2) ∧
      (∀ (i j : Nat) (hi : i < (ofEdges edges).stronglyConnected.length)
        (hj : j < (ofEdges edges).stronglyConnected.length),
        ∀ a ∈ (ofEdges edges).stronglyConnected[i], ∀ b ∈ (ofEdges edges).stronglyConnected[j],
          (i = j ↔ ReflTransGen (fun a b => (a, b) ∈ edges) a b ∧
            ReflTransGen (fun a b => (a, b) ∈ edges) b a) ∧
          ((a, b) ∈ edges → i ≠ j → i < j)) := by
  have hproper := ofEdges_proper edges
  have hperm := hproper.stronglyConnected_perm
  refine ⟨hperm.nodup_iff.2 hproper.nodes,
    fun node => hperm.mem_iff.trans (mem_nodes_ofEdges edges), fun i j hi hj a ha b hb => ⟨?_, ?_⟩⟩
  · rw [← ofEdges_reaches, ← ofEdges_reaches]
    constructor
    · rintro rfl
      have hconnected := hproper.stronglyConnected_connected _ (List.getElem_mem hi)
      exact ⟨hconnected a ha b hb, hconnected b hb a ha⟩
    · rintro ⟨hab, hba⟩
      exact Nat.le_antisymm (hproper.stronglyConnected_le hi hj ha hb hab)
        (hproper.stronglyConnected_le hj hi hb ha hba)
  · intro hedge hne
    have hreaches := (ofEdges_reaches edges).2 (.single hedge)
    have hle := hproper.stronglyConnected_le hi hj ha hb hreaches
    omega

end DeclarationGraph

end PolyFront
