import PolyFront.Proofs.Faultless.Front
import PolyFront.Proofs.Grounding.Declared

/-!
# All kinds are known in the end

No node of a checked namespace carries an unsolved kind, at any depth of its kind or of its type.
Neither does a node that a kind checker gives, in whatever order it is asked about written types and
data declarations, and whatever it was asked before.
-/

namespace PolyFront

open Run World

/-! ## The start -/

/-- Nothing is known, and a frame for a namespace is open. -/
def World.opened (name : NamespaceName) : World :=
  ⟨fun _ => False, [], Store.start.pushed (.ns name)⟩

/-- The kinds of the built-in types are known. -/
theorem Store.builtIns_every {w : World} {tag : ScopeTag} : Store.builtIns.Every (w.Bound tag) := by
  suffices h : ∀ (types : List BuiltIn) (frame : Frame (Located Attributes)),
      frame.Every (w.Bound tag) → Frame.Every (w.Bound tag) (types.foldl (fun frame type =>
        frame.putType type.name (.nowhere ⟨.builtIn type.name, .ofKind type.kind⟩)) frame) from
    h _ _ (.empty _)
  intro types
  induction types with
  | nil => exact fun _ hframe => hframe
  | cons type rest ih =>
    have hkind := Check.freeKind_of_ground w type.ground_kind
    exact fun frame hframe => ih _
      (hframe.put (Check.bound_of_free _ rfl hkind.1 hkind.2 tag) (.type type.name))

theorem World.opened_kept (name : NamespaceName) : (opened name).Kept where
  kinds := .empty
  parted := ⟨fun _ hc => (List.not_mem_nil hc).elim, fun _ _ _ _ ⟨_, hparam, _⟩ => hparam.elim⟩
  shown _ hkind := (List.not_mem_nil hkind).elim
  params _ hid := hid.elim
  stands _ := fun ⟨_, hparam, _⟩ => hparam.elim
  types := Ty.laidOut_empty
  stack := by
    refine ⟨fun frame hframe => ?_, fun frame hframe => ?_⟩
    · obtain rfl := List.mem_singleton.1 hframe
      exact .empty _
    · obtain rfl := Option.some.inj hframe
      exact Store.builtIns_every
  registered frame hframe id hid := by
    obtain rfl := List.mem_singleton.1 hframe
    exact (List.not_mem_nil hid).elim
  nonempty := List.cons_ne_nil _ _

/-- Only the frame of the namespace is open. -/
theorem World.opened_calm (name : NamespaceName) : (opened name).Calm (· = .ns) where
  toKept := opened_kept name
  hidden := rfl
  scopes frame hframe := by
    obtain rfl := List.mem_singleton.1 hframe
    rfl

theorem Check.topLevel_ns : TopLevel (· = .ns) := by
  rintro tag rfl
  exact ⟨nofun, rfl⟩

/-! ## Namespaces -/

/-- All kinds that the tree of a namespace carries are known. -/
theorem Check.namespaceNode_ground (uri : String) {ns : Namespace Name}
    (hbinds : ∀ group ∈ ns.groups, ∀ node ∈ group, node.Binds) :
    Ends (namespaceNode ns) (Checker.start uri) fun result _ =>
      ∀ info ∈ result.1.infos, info.classifier.Ground := by
  have hbody : Check.Yields (· = .ns) (opened ns.id.name) (do
      ns.declarations.forM populateDeclaration
      ns.groups.mapM inferGroup : Check (List (List (Declaration Attributes)))) fun _ groups =>
        ∀ group ∈ groups, ∀ node ∈ group, ∀ info ∈ node.infos, info.classifier.Ground :=
    (Yields.forM fun node _ => populateDeclaration_yields node).bind fun _ _ _ _ =>
      Yields.mapM (.const fun group : List (Declaration Attributes) =>
        ∀ node ∈ group, ∀ info ∈ node.infos, info.classifier.Ground)
          fun group hgroup => inferGroup_yields topLevel_ns (hbinds group hgroup)
  have hrun : namespaceNode ns = (do
      Solve.pushScope (.ns ns.id.name)
      let groups ← (do
        ns.declarations.forM populateDeclaration
        ns.groups.mapM inferGroup : Check (List (List (Declaration Attributes))))
      let frame ← Solve.popScope .ns
      pure (⟨typed ns.here (.builtIn .unit), ns.id, ns.imports, groups⟩, frame)) := by
    rw [namespaceNode]
    simp only [bind_assoc]
  rw [hrun]
  refine Ends.bind (Ends.within (Ends.modify (Ends.bind
    ((hbody (opened ns.id.name) _ (.refl _) (opened_calm _) rfl).mono ?_))))
  rintro groups c ⟨w, -, -, hgroups⟩
  refine Ends.bind fun frame c' _ => Ends.pure fun info hinfo => ?_
  rcases List.mem_cons.1 hinfo with rfl | hinfo
  · exact fun kind hkind => List.mem_singleton.1 hkind ▸ Kind.ground_type
  · obtain ⟨node, hnode, hinfo⟩ := List.mem_flatMap.1 hinfo
    obtain ⟨group, hgroup, hnode⟩ := List.mem_flatten.1 hnode
    exact hgroups group hgroup node hnode info hinfo

/-- A namespace is checked, and all kinds that its tree carries are known. -/
theorem Namespace.check_ground (uri : String) (ns : Namespace Unit) :
    ∃ checked, ns.check uri = .ok checked ∧
      ∀ info ∈ checked.tree.infos, info.classifier.Ground := by
  obtain ⟨resolved, resolver, hresolve, -, hnamed⟩ := ns.resolve_ok uri
  obtain ⟨⟨tree, bindings⟩, checker, hcheck, -⟩ :=
    Check.namespaceNode_ok hnamed (show Checker.At [] (Checker.start uri) from rfl)
  refine ⟨⟨resolver.log, checker.log, tree, bindings, checker.store⟩, ?_, ?_⟩
  · rw [Namespace.check, show ns.resolve uri = .ok resolved resolver from hresolve]
    simp only [hcheck]
  · exact Check.namespaceNode_ground uri (Resolve.namespaceNode_binds ns _ _ _ hresolve) _ _ hcheck

/-! ## Kind checkers -/

/-- What a kind checker is asked about. -/
inductive KindRequest where
  | type (node : TypeNode Name)
  | data (node : Data Name)

/-- What a kind checker gives. -/
inductive KindAnswer where
  | type (node : TypeNode Attributes)
  | data (node : Data Attributes)

def KindAnswer.infos : KindAnswer → List Attributes
  | .type node => node.infos
  | .data node => node.infos

namespace KindRequest

def answer : KindRequest → Check KindAnswer
  | .type node => do pure (.type (← Check.properTypeNode node))
  | .data node => do pure (.data (← Check.inferData node))

/-- The tree was resolved, in any scopes that bind types to names of types. -/
def Resolved : KindRequest → Prop
  | .type node => ∃ (written : TypeNode Unit) (s s' : Resolver), s.stack.TypesNamed ∧
    Resolve.typeNode written s = .ok node s'
  | .data node => ∃ (written : Data Unit) (s s' : Resolver), s.stack.TypesNamed ∧
    Resolve.data written s = .ok node s'

/-- A data declaration is resolved in a namespace only. -/
theorem exists_ns (written : Data Unit) (s : Resolver) :
    Ends (Resolve.data written) s fun _ _ => ∃ ns, ScopeKind.ns ns ∈ s.stack.shape := by
  refine Ends.bind (Ends.bind (Ends.get ?_))
  split
  · rename_i ns hns
    obtain ⟨frame, hfound, hkind⟩ := Option.bind_eq_some_iff.1 hns
    refine Ends.pure fun _ _ _ => ⟨ns, List.mem_map.2 ⟨frame, List.mem_of_find?_eq_some hfound, ?_⟩⟩
    split at hkind
    · rename_i name heq
      rw [heq, Option.some.inj hkind]
    · cases hkind
  · exact fun _ _ hrun => by cases hrun

/-- The answer is given, and all kinds that it carries are known. -/
theorem answer_keeps {request : KindRequest} (h : request.Resolved) (kind : ScopeKind) :
    Keeps (Checker.At [kind]) request.answer fun _ => True := by
  cases request with
  | type node =>
    obtain ⟨written, s, s', hstack, hrun⟩ := h
    obtain ⟨_, _, hok, -, hnamed⟩ := Resolve.typeNode_keeps _ written s ⟨rfl, hstack⟩
    rw [hrun] at hok
    obtain ⟨rfl, -⟩ := EStateM.Result.ok.inj hok
    exact Keeps.bind (Check.properTypeNode_keeps hnamed) fun _ _ => Keeps.pure True.intro
  | data node =>
    obtain ⟨written, s, s', hstack, hrun⟩ := h
    obtain ⟨ns, hns⟩ := exists_ns written s _ _ hrun
    obtain ⟨_, _, hok, -, hnamed⟩ := Resolve.data_keeps hns written s ⟨rfl, hstack⟩
    rw [hrun] at hok
    obtain ⟨rfl, -⟩ := EStateM.Result.ok.inj hok
    exact Keeps.bind (Check.inferData_keeps hnamed) fun _ _ => Keeps.pure True.intro

theorem answer_yields {w : World} {request : KindRequest} (h : request.Resolved) :
    Check.Yields (· = .ns) w request.answer fun _ answer =>
      ∀ info ∈ answer.infos, info.classifier.Ground := by
  cases request with
  | type node =>
    exact (Check.properTypeNode_yields node).bind fun _ _ _ ⟨hnode, _⟩ =>
      Yields.pure fun _ _ info hinfo => (hnode info hinfo).ground
  | data node =>
    obtain ⟨written, s, s', -, hrun⟩ := h
    exact (Check.inferData_yields (Resolve.data_binds written s _ _ hrun)
      fun tag htag => (Check.topLevel_ns tag htag).1).bind fun _ _ _ hnode =>
        Yields.pure fun _ _ info hinfo => (hnode.infos info hinfo).ground

end KindRequest

/-- A checker with a frame for a namespace on top of the built-in types. -/
def Checker.opened (uri : String) (name : NamespaceName) : Checker :=
  ⟨uri, Log.empty, Store.start.pushed (.ns name)⟩

/-- A kind checker answers all that it is asked, and all kinds in its answers are known. -/
theorem KindRequest.answers_ground (uri : String) (name : NamespaceName)
    {requests : List KindRequest} (h : ∀ request ∈ requests, request.Resolved) :
    ∃ answers checker, requests.mapM answer (Checker.opened uri name) = .ok answers checker ∧
      ∀ given ∈ answers, ∀ info ∈ given.infos, info.classifier.Ground := by
  obtain ⟨answers, checker, hrun, -, -⟩ := Keeps.mapM_trivial (fun request hrequest =>
    answer_keeps (h request hrequest) (.ns name)) (Checker.opened uri name)
      (show Checker.At [.ns name] (Checker.opened uri name) from rfl)
  refine ⟨answers, checker, hrun, ?_⟩
  have hall : Check.Yields (· = .ns) (World.opened name) (requests.mapM answer) fun _ answers =>
      ∀ given ∈ answers, ∀ info ∈ given.infos, info.classifier.Ground :=
    Yields.mapM (.const fun given : KindAnswer => ∀ info ∈ given.infos, info.classifier.Ground)
      fun request hrequest => answer_yields (h request hrequest)
  obtain ⟨w, -, -, hground⟩ := hall (World.opened name) (Checker.opened uri name) (.refl _)
    (World.opened_calm name) rfl _ _ hrun
  exact hground

/-- No unsolved kind survives checking, at any depth of any kind or type that a node carries.  A
namespace is checked, whatever is reported about it, and a kind checker answers all that it is asked
about resolved trees; and all kinds in what they give are known. -/
theorem no_unsolved_kind_survives (uri : String) :
    (∀ ns : Namespace Unit, ∃ checked, ns.check uri = .ok checked ∧
      ∀ info ∈ checked.tree.infos, info.classifier.Ground) ∧
    ∀ (name : NamespaceName) (requests : List KindRequest),
      (∀ request ∈ requests, request.Resolved) →
      ∃ answers checker,
        requests.mapM KindRequest.answer (Checker.opened uri name) = .ok answers checker ∧
          ∀ given ∈ answers, ∀ info ∈ given.infos, info.classifier.Ground :=
  ⟨Namespace.check_ground uri, fun name _ h => KindRequest.answers_ground uri name h⟩

namespace Sample

/-- Names are resolved in the namespace `M`, among the built-in names. -/
def naming : Resolver :=
  Resolver.start "" ((Stack.ofBuiltIns Resolver.builtIns).push (Frame.empty (.ns ⟨[], "M"⟩)))

theorem naming_typesNamed : naming.stack.TypesNamed := by
  refine Stack.TypesNamed.push ⟨fun _ hframe => (List.not_mem_nil hframe).elim,
    fun frame hframe => ?_⟩ (Frame.TypesNamed.empty _)
  obtain rfl := Option.some.inj hframe
  exact Resolver.builtIns_typesNamed

/-- `data Phantom[a] { K }`, whose parameter is not used. -/
def phantom : Data Unit :=
  ⟨⟨default, ()⟩, "Phantom", [⟨⟨default, ()⟩, .universal, "a"⟩], [⟨⟨default, ()⟩, "K", [], none⟩]⟩

/-- `[f] { f[Int] }`. -/
def wrapped : TypeNode Unit :=
  .quantified ⟨default, ()⟩ [⟨⟨default, ()⟩, .universal, "f"⟩] (.apply ⟨default, ()⟩
    (.var ⟨⟨default, ()⟩, .universal, "f"⟩)
    [.reference ⟨default, ()⟩ ⟨default, none, "Int"⟩])

/-- The request about a tree that was resolved. -/
def asked {α : Type} (request : α → KindRequest) :
    EStateM.Result Fault Resolver α → List KindRequest
  | .ok node _ => [request node]
  | .error _ _ => []

/-- A kind checker is asked about a declaration and about a type, in one go. -/
def requests : List KindRequest :=
  asked .data (Resolve.data phantom naming) ++ asked .type (Resolve.typeNode wrapped naming)

theorem requests_length : requests.length = 2 := by decide +kernel

theorem requests_resolved : ∀ request ∈ requests, request.Resolved := by
  intro request hrequest
  rcases List.mem_append.1 hrequest with hrequest | hrequest
  · cases hrun : Resolve.data phantom naming with
    | ok node s =>
      rw [hrun] at hrequest
      rw [List.mem_singleton.1 hrequest]
      exact ⟨phantom, naming, s, naming_typesNamed, hrun⟩
    | error fault s =>
      rw [hrun] at hrequest
      exact (List.not_mem_nil hrequest).elim
  · cases hrun : Resolve.typeNode wrapped naming with
    | ok node s =>
      rw [hrun] at hrequest
      rw [List.mem_singleton.1 hrequest]
      exact ⟨wrapped, naming, s, naming_typesNamed, hrun⟩
    | error fault s =>
      rw [hrun] at hrequest
      exact (List.not_mem_nil hrequest).elim

/-- Both requests are answered, and no kind is left unsolved. -/
theorem requests_answered : requests.length = 2 ∧ ∃ answers checker,
    requests.mapM KindRequest.answer (Checker.opened "" ⟨[], "M"⟩) = .ok answers checker ∧
      ∀ given ∈ answers, ∀ info ∈ given.infos, info.classifier.Ground :=
  ⟨requests_length, (no_unsolved_kind_survives "").2 ⟨[], "M"⟩ requests requests_resolved⟩

end Sample

end PolyFront
