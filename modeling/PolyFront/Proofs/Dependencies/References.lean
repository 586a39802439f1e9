import PolyFront.Proofs.Dependencies.Groups
import PolyFront.Proofs.Dependencies.Written
import PolyFront.Proofs.Faultless.Naming

/-!
# References are recorded as dependencies

Resolution records an edge for every reference to a declaration of the namespace, from what is
referred to towards the declaration around the reference.  A constructor and its data type depend
on each other, so that a reference inside of a constructor counts for its data type.  Hence the
group of a declaration comes after the groups of all that the declaration refers to.
-/

namespace PolyFront

/-! ## References of a tree -/

section Referents

variable {α : Type}

mutual
/-- What the references in a written type carry. -/
def TypeNode.referents : TypeNode α → List α
  | .quantified _ _ body => body.referents
  | .function _ args result => TypeNode.referentsList args ++ result.referents
  | .apply _ head args => head.referents ++ TypeNode.referentsList args
  | .reference here _ => [here.info]
  | .var _ => []
def TypeNode.referentsList : List (TypeNode α) → List α
  | [] => []
  | node :: rest => node.referents ++ TypeNode.referentsList rest
end

def TypeNode.referentsOption (node : Option (TypeNode α)) : List α :=
  node.elim [] TypeNode.referents

def Param.referents (param : Param α) : List α := TypeNode.referentsOption param.ascription

mutual
/-- What the constructors in a pattern carry. -/
def Pattern.referents : Pattern α → List α
  | .alias _ _ inner => inner.referents
  | .constructor here _ fields => here.info :: FieldPattern.referentsList fields
  | .id _ _ => []
  | .literal _ _ => []
def FieldPattern.referents : FieldPattern α → List α
  | ⟨_, _, pattern⟩ => Pattern.referentsOption pattern
def FieldPattern.referentsList : List (FieldPattern α) → List α
  | [] => []
  | field :: rest => field.referents ++ FieldPattern.referentsList rest
def Pattern.referentsOption : Option (Pattern α) → List α
  | none => []
  | some pattern => pattern.referents
end

mutual
/-- What the references to values and types and the constructors of patterns carry. -/
def Expr.referents : Expr α → List α
  | .block _ bindings result => Binding.referentsList bindings ++ Expr.referentsOption result
  | .conditional _ condition consequent alternative =>
    condition.referents ++ consequent.referents ++ alternative.referents
  | .lambda _ params body => params.flatMap Param.referents ++ body.referents
  | .cases _ scrutinee cases => scrutinee.referents ++ Case.referentsList cases
  | .apply _ function args => function.referents ++ Expr.referentsList args
  | .select _ receiver selection => receiver.referents ++ [selection.here.info]
  | .reference node => [node.here.info]
  | .binary _ _ left right => left.referents ++ right.referents
  | .unary _ _ operand => operand.referents
  | .literal _ _ => []
def Expr.referentsOption : Option (Expr α) → List α
  | none => []
  | some expr => expr.referents
def Expr.referentsList : List (Expr α) → List α
  | [] => []
  | expr :: rest => expr.referents ++ Expr.referentsList rest
def Binding.referents : Binding α → List α
  | ⟨_, _, ascription, value⟩ => TypeNode.referentsOption ascription ++ value.referents
def Binding.referentsList : List (Binding α) → List α
  | [] => []
  | binding :: rest => binding.referents ++ Binding.referentsList rest
def Case.referents : Case α → List α
  | ⟨_, pattern, body⟩ => pattern.referents ++ body.referents
def Case.referentsList : List (Case α) → List α
  | [] => []
  | case :: rest => case.referents ++ Case.referentsList rest
end

def Constructor.referents (node : Constructor α) : List α :=
  node.params.flatMap (fun param => param.ascription.referents) ++
    TypeNode.referentsOption node.result

def FunctionBinding.referents (node : FunctionBinding α) : List α :=
  node.params.flatMap Param.referents ++ TypeNode.referentsOption node.result ++
    node.body.referents

/-- What all references inside of a declaration carry. -/
def Declaration.referents : Declaration α → List α
  | .data d => d.constructors.flatMap Constructor.referents
  | .binding d => d.referents
  | .function d => d.referents

end Referents

/-- What a declaration declares: itself and the constructors of a data type. -/
def Declaration.declared {α : Type} : Declaration α → List α
  | .data d => d.here.info :: d.constructors.map fun c => c.here.info
  | .binding d => [d.here.info]
  | .function d => [d.here.info]

/-! ## What is recorded -/

/-- The namespace of a namespace frame. -/
def ScopeKind.namespace? : ScopeKind → Option NamespaceName
  | .ns name => some name
  | _ => none

/-- Frames inside of a declaration. -/
def ScopeKind.IsInner (kind : ScopeKind) : Prop :=
  kind.namespace? = none ∧ kind.declaration? = none

theorem Stack.enclosingNamespace?_eq {α : Type} (stack : Stack α) :
    stack.enclosingNamespace? = stack.shape.findSome? ScopeKind.namespace? := by
  rw [enclosingNamespace?, enclosing?, shape, List.findSome?_map]
  induction stack.frames with
  | nil => rfl
  | cons frame rest ih =>
    have htag : (frame.tag == ScopeTag.ns) = frame.kind.namespace?.isSome := by
      unfold Frame.tag
      cases frame.kind <;> rfl
    rw [List.find?_cons, List.findSome?_cons, htag]
    cases hkind : frame.kind <;> simp [hkind, ScopeKind.namespace?, ih]

theorem Stack.enclosingDeclaration?_eq {α : Type} (stack : Stack α) :
    stack.enclosingDeclaration? = stack.shape.findSome? ScopeKind.declaration? := by
  rw [enclosingDeclaration?, shape, List.findSome?_map]
  rfl

/-- Every declaration of the namespace among the names leads to the declaration around. -/
def Recorded (shape : List ScopeKind) (graph : DeclarationGraph) (names : List Name) : Prop :=
  ∀ name ∈ names, ∀ source, name.declaration? = some source →
    shape.findSome? ScopeKind.namespace? = some source.qualified.ns →
      ∀ target, shape.findSome? ScopeKind.declaration? = some target →
        (source, target) ∈ graph.edges

/-- What the names of a namespace refer to leads to the declaration. -/
def DeclarationGraph.Cites (graph : DeclarationGraph) (ns : NamespaceName)
    (target : DeclarationName) (names : List Name) : Prop :=
  ∀ name ∈ names, ∀ source, name.declaration? = some source → source.qualified.ns = ns →
    graph.Reaches source target

/-- A constructor and its data type lead to each other, and what the constructor refers to
leads to it. -/
structure Constructor.Tied (data : QualifiedName) (graph : DeclarationGraph)
    (c : Constructor Name) : Prop where
  named : c.here.info = .constructor (.ofData data c.name)
  down : graph.Reaches (.data data) (.constructor (.ofData data c.name))
  cites : graph.Cites data.ns (.data data) c.referents

/-- What a declaration refers to leads to it, and it leads to what it declares. -/
structure Declaration.Linked (ns : NamespaceName) (target : DeclarationName)
    (graph : DeclarationGraph) (d : Declaration Name) : Prop where
  named : d.here.info.declaration? = some target
  cites : graph.Cites ns target d.referents
  declares : ∀ name ∈ d.declared, ∃ source, name.declaration? = some source ∧
    source.qualified.ns = ns ∧ graph.Reaches target source

/-- Resolution only adds edges. -/
structure DeclarationGraph.Grows (graph graph' : DeclarationGraph) : Prop where
  edges : graph.edges ⊆ graph'.edges
  proper : graph.Proper → graph'.Proper

/-- From a state in which the known names are recorded, the run records those of its result. -/
def Visits {α : Type} (shape : List ScopeKind) (known : List Name) (run : Resolve α)
    (names : α → List Name) : Prop :=
  ∀ s : Resolver, s.stack.shape = shape → Recorded shape s.graph known →
    Run.Ends run s fun a s' => s'.stack.shape = shape ∧ s.graph.Grows s'.graph ∧
      Recorded shape s'.graph (names a)

/-- The run keeps the constructs, only adds edges, and what it gives is good afterwards. -/
def Establishes {α : Type} (shape : List ScopeKind) (run : Resolve α)
    (good : α → DeclarationGraph → Prop) : Prop :=
  ∀ s : Resolver, s.stack.shape = shape →
    Run.Ends run s fun a s' => s'.stack.shape = shape ∧ s.graph.Grows s'.graph ∧
      good a s'.graph

/-- The run leaves constructs and dependencies alone, and its result is good. -/
def Quiet {α : Type} (run : Resolve α) (good : α → Prop) : Prop :=
  ∀ s : Resolver, Run.Ends run s fun a s' =>
    good a ∧ s'.stack = s.stack ∧ s'.graph = s.graph

section Rules

variable {α β : Type} {shape : List ScopeKind} {known : List Name} {s : Resolver}
  {graph graph' graph'' : DeclarationGraph}

theorem DeclarationGraph.Grows.refl (graph : DeclarationGraph) : graph.Grows graph :=
  ⟨fun _ h => h, fun h => h⟩

theorem DeclarationGraph.Grows.trans (h : graph.Grows graph') (h' : graph'.Grows graph'') :
    graph.Grows graph'' :=
  ⟨fun _ hedge => h'.edges (h.edges hedge), fun hproper => h'.proper (h.proper hproper)⟩

theorem DeclarationGraph.grows_addEdge (source target : DeclarationName) :
    graph.Grows (graph.addEdge source target) :=
  ⟨fun _ hedge => mem_edges_addEdge.2 (.inl hedge), fun h => h.addEdge _ _⟩

theorem DeclarationGraph.Grows.reaches (h : graph.Grows graph') {source target : DeclarationName}
    (hreaches : graph.Reaches source target) : graph'.Reaches source target :=
  Relation.ReflTransGen.mono (fun _ _ hedge => h.edges hedge) _ _ hreaches

theorem DeclarationGraph.Cites.mono {ns : NamespaceName} {target : DeclarationName}
    {names : List Name} (h : graph.Cites ns target names) (hgrows : graph.Grows graph') :
    graph'.Cites ns target names :=
  fun name hname source hsource hns => hgrows.reaches (h name hname source hsource hns)

theorem Constructor.Tied.mono {data : QualifiedName} {c : Constructor Name}
    (h : c.Tied data graph) (hgrows : graph.Grows graph') : c.Tied data graph' :=
  ⟨h.named, hgrows.reaches h.down, h.cites.mono hgrows⟩

theorem Declaration.Linked.mono {ns : NamespaceName} {target : DeclarationName}
    {d : Declaration Name} (h : d.Linked ns target graph) (hgrows : graph.Grows graph') :
    d.Linked ns target graph' := by
  refine ⟨h.named, h.cites.mono hgrows, fun name hname => ?_⟩
  obtain ⟨source, hsource, hns, hreaches⟩ := h.declares name hname
  exact ⟨source, hsource, hns, hgrows.reaches hreaches⟩

/-- A declaration that declares nothing but itself. -/
theorem Declaration.Linked.ofCites {ns : NamespaceName} {target : DeclarationName}
    {d : Declaration Name} (hnamed : d.here.info.declaration? = some target)
    (hns : target.qualified.ns = ns) (hdeclared : d.declared = [d.here.info])
    (hcites : graph.Cites ns target d.referents) : d.Linked ns target graph := by
  refine ⟨hnamed, hcites, fun name hname => ⟨target, ?_, hns, .refl⟩⟩
  rw [hdeclared, List.mem_singleton] at hname
  rw [hname, hnamed]

theorem Recorded.nil : Recorded shape graph [] := fun _ h => (List.not_mem_nil h).elim

theorem Recorded.mono {names : List Name} (h : Recorded shape graph names)
    (hgrows : graph.Grows graph') : Recorded shape graph' names :=
  fun name hname source hsource hns target htarget =>
    hgrows.edges (h name hname source hsource hns target htarget)

theorem Recorded.append {names names' : List Name} (h : Recorded shape graph names)
    (h' : Recorded shape graph names') : Recorded shape graph (names ++ names') :=
  fun name hname => (List.mem_append.1 hname).elim (h name) (h' name)

theorem Recorded.inner {names : List Name} {kind : ScopeKind} (hkind : kind.IsInner) :
    Recorded (kind :: shape) graph names ↔ Recorded shape graph names := by
  simp only [Recorded, List.findSome?_cons, hkind.1, hkind.2]

namespace Quiet

theorem pure {good : α → Prop} {a : α} (h : good a) : Quiet (Pure.pure a) good :=
  fun _ => Run.Ends.pure ⟨h, rfl, rfl⟩

theorem bind {mid : α → Prop} {good : β → Prop} {run : Resolve α} {next : α → Resolve β}
    (hrun : Quiet run mid) (hnext : ∀ a, mid a → Quiet (next a) good) :
    Quiet (run >>= next) good := by
  intro s
  refine Run.Ends.bind ((hrun s).mono ?_)
  rintro a s₁ ⟨ha, hstack, hgraph⟩
  refine (hnext a ha s₁).mono ?_
  rintro b s₂ ⟨hb, hstack', hgraph'⟩
  exact ⟨hb, hstack'.trans hstack, hgraph'.trans hgraph⟩

theorem get {good : β → Prop} {next : Resolver → Resolve β}
    (hnext : ∀ s, Quiet (next s) good) : Quiet (MonadState.get >>= next) good :=
  fun s => Run.Ends.bind (Run.Ends.get (hnext s s))

theorem mono {good good' : α → Prop} {run : Resolve α} (hrun : Quiet run good)
    (h : ∀ a, good a → good' a) : Quiet run good' :=
  fun s => (hrun s).mono fun a _ hends => ⟨h a hends.1, hends.2⟩

theorem foldlM {f : β → α → Resolve β} {good : β → Prop} {items : List α} {start : β}
    (hstart : good start) (h : ∀ b, good b → ∀ item ∈ items, Quiet (f b item) good) :
    Quiet (items.foldlM f start) good := by
  induction items generalizing start with
  | nil => exact Quiet.pure hstart
  | cons item rest ih =>
    rw [List.foldlM_cons]
    refine Quiet.bind (h start hstart item List.mem_cons_self) fun b hb => ?_
    exact ih hb fun b' hb' other hother => h b' hb' other (List.mem_cons_of_mem _ hother)

end Quiet

namespace Visits

theorem pure {names : α → List Name} {a : α}
    (h : ∀ name ∈ names a, name ∈ known ∨ name.declaration? = none) :
    Visits shape known (Pure.pure a) names := by
  intro s hs hknown
  refine Run.Ends.pure ⟨hs, .refl _, fun name hname source hsource => ?_⟩
  rcases h name hname with hmem | hnone
  · exact hknown name hmem source hsource
  · rw [hnone] at hsource
    cases hsource

/-- A result that refers to nothing but what is known. -/
theorem done {names : α → List Name} {a : α} (h : names a ⊆ known) :
    Visits shape known (Pure.pure a) names :=
  Visits.pure fun _ hname => .inl (h hname)

theorem bind {names : α → List Name} {names' : β → List Name} {run : Resolve α}
    {next : α → Resolve β} (hrun : Visits shape known run names)
    (hnext : ∀ a, Visits shape (known ++ names a) (next a) names') :
    Visits shape known (run >>= next) names' := by
  intro s hs hknown
  refine Run.Ends.bind ((hrun s hs hknown).mono ?_)
  rintro a s₁ ⟨hs₁, hgrows, hnames⟩
  refine (hnext a s₁ hs₁ ((hknown.mono hgrows).append hnames)).mono ?_
  exact fun b s₂ h => ⟨h.1, hgrows.trans h.2.1, h.2.2⟩

theorem get {names : β → List Name} {next : Resolver → Resolve β}
    (hnext : ∀ s, Visits shape known (next s) names) :
    Visits shape known (MonadState.get >>= next) names := by
  intro s hs hknown
  exact Run.Ends.bind (Run.Ends.get (hnext s s hs hknown))

/-- What is done quietly records nothing. -/
theorem after {run : Resolve α} {good : α → Prop} {names : β → List Name}
    {next : α → Resolve β} (hrun : Quiet run good)
    (hnext : ∀ a, good a → Visits shape known (next a) names) :
    Visits shape known (run >>= next) names := by
  intro s hs hknown
  refine Run.Ends.bind ((hrun s).mono ?_)
  rintro a s₁ ⟨ha, hstack, hgraph⟩
  have hends := hnext a ha s₁ (by rw [hstack, hs]) (by rwa [hgraph])
  rwa [hgraph] at hends

theorem mapM {f : α → Resolve β} {names : β → List Name} {items : List α}
    (h : ∀ item ∈ items, ∀ known, Visits shape known (f item) names) :
    Visits shape known (items.mapM f) fun results => results.flatMap names := by
  induction items generalizing known with
  | nil => exact Visits.pure fun _ hname => (List.not_mem_nil hname).elim
  | cons item rest ih =>
    rw [List.mapM_cons]
    refine Visits.bind (h item List.mem_cons_self known) fun b => ?_
    refine Visits.bind (ih fun other hother => h other (List.mem_cons_of_mem _ hother)) ?_
    intro bs
    refine Visits.pure fun name hname => .inl ?_
    simp only [List.flatMap_cons, List.mem_append] at hname ⊢
    grind

end Visits

theorem Establishes.after {run : Resolve α} {fine : α → Prop}
    {good : β → DeclarationGraph → Prop} {next : α → Resolve β} (hrun : Quiet run fine)
    (hnext : ∀ a, fine a → Establishes shape (next a) good) :
    Establishes shape (run >>= next) good := by
  intro s hs
  refine Run.Ends.bind ((hrun s).mono ?_)
  rintro a s₁ ⟨ha, hstack, hgraph⟩
  have hends := hnext a ha s₁ (by rw [hstack, hs])
  rwa [hgraph] at hends

theorem Establishes.map {run : Resolve α} {f : α → β} {good : α → DeclarationGraph → Prop}
    {good' : β → DeclarationGraph → Prop} (hrun : Establishes shape run good)
    (h : ∀ a graph, good a graph → good' (f a) graph) :
    Establishes shape (run >>= fun a => Pure.pure (f a)) good' := fun s hs =>
  Run.Ends.bind ((hrun s hs).mono fun a _ hends =>
    Run.Ends.pure ⟨hends.1, hends.2.1, h a _ hends.2.2⟩)

theorem Establishes.mapM {f : α → Resolve β} {good : β → DeclarationGraph → Prop}
    {items : List α} (h : ∀ item ∈ items, Establishes shape (f item) good)
    (hmono : ∀ b graph graph', good b graph → graph.Grows graph' → good b graph') :
    Establishes shape (items.mapM f) fun results graph =>
      ∀ result ∈ results, good result graph := by
  induction items with
  | nil => exact fun s hs => Run.Ends.pure ⟨hs, .refl _, by simp⟩
  | cons item rest ih =>
    intro s hs
    rw [List.mapM_cons]
    refine Run.Ends.bind ((h item List.mem_cons_self s hs).mono ?_)
    rintro b s₁ ⟨hs₁, hgrows, hb⟩
    have hrest := ih (fun other hother => h other (List.mem_cons_of_mem _ hother)) s₁ hs₁
    refine Run.Ends.bind (hrest.mono ?_)
    rintro bs s₂ ⟨hs₂, hgrows', hbs⟩
    refine Run.Ends.pure ⟨hs₂, hgrows.trans hgrows', fun result hresult => ?_⟩
    rcases List.mem_cons.1 hresult with rfl | hmem
    · exact hmono _ _ _ hb hgrows'
    · exact hbs result hmem

/-- What a frame is pushed around is popped again. -/
theorem Resolve.withFrame_ends {frame : Frame (Located Name)} {body : Resolve α}
    (post : α → DeclarationGraph → Prop)
    (hbody : Run.Ends body { s with stack := s.stack.push frame } fun a s' =>
      s'.stack.shape = frame.kind :: shape ∧ post a s'.graph) :
    Run.Ends (withFrame frame body) s fun a s' => s'.stack.shape = shape ∧ post a s'.graph := by
  refine Run.Ends.bind (Run.Ends.modify ?_)
  refine Run.Ends.bind (hbody.mono ?_)
  rintro a s₁ ⟨hshape, hpost⟩
  obtain ⟨top, rest, hframes, hkind, hrest⟩ := Stack.exists_frames_of_shape_eq_cons hshape
  have htag : top.tag = frame.tag := by simp [Frame.tag, hkind]
  refine Run.Ends.bind (Run.Ends.within ?_)
  rw [Run.Ends, Stack.pop_eq_ok hframes htag]
  rintro _ _ ⟨⟩
  exact Run.Ends.pure ⟨hrest, hpost⟩

theorem Stack.shape_push_of {stack : Stack (Located Name)} (frame : Frame (Located Name))
    (h : stack.shape = shape) : (stack.push frame).shape = frame.kind :: shape := by
  rw [shape_push, h]

theorem Establishes.withFrame {frame : Frame (Located Name)} {body : Resolve α}
    {good : α → DeclarationGraph → Prop} (hbody : Establishes (frame.kind :: shape) body good) :
    Establishes shape (Resolve.withFrame frame body) good := fun s hs =>
  Resolve.withFrame_ends (fun a graph => s.graph.Grows graph ∧ good a graph)
    (hbody { s with stack := s.stack.push frame } (Stack.shape_push_of frame hs))

/-- Frames inside of a declaration change nothing about what is recorded. -/
theorem Visits.withFrame {names : α → List Name} {frame : Frame (Located Name)}
    {body : Resolve α} (hkind : frame.kind.IsInner)
    (hbody : Visits (frame.kind :: shape) known body names) :
    Visits shape known (Resolve.withFrame frame body) names := by
  intro s hs hknown
  have hends := hbody { s with stack := s.stack.push frame } (Stack.shape_push_of frame hs)
    ((Recorded.inner hkind).2 hknown)
  simp only [Recorded.inner hkind] at hends
  exact Resolve.withFrame_ends
    (fun a graph => s.graph.Grows graph ∧ Recorded shape graph (names a)) hends

theorem Visits.withScope {names : α → List Name} {kind : ScopeKind} {body : Resolve α}
    (hkind : kind.IsInner) (hbody : Visits (kind :: shape) known body names) :
    Visits shape known (Resolve.withScope kind body) names :=
  Visits.withFrame hkind hbody

end Rules

/-! ## The operations on the state -/

namespace Resolve

open Run

variable {shape : List ScopeKind} {known : List Name} {s : Resolver}

theorem reportError_quiet (range : Range) (message : String) (related : List Note) :
    Quiet (reportError range message related) fun _ => True :=
  fun _ => Ends.modify ⟨True.intro, rfl, rfl⟩

theorem reportDuplicate_quiet (what : String) (proposed existing : Range) :
    Quiet (reportDuplicate what proposed existing) fun _ => True :=
  Quiet.get fun _ => reportError_quiet _ _ _

theorem reportUndefined_quiet (what : String) (range : Range) (name : String) :
    Quiet (reportUndefined what range name) fun _ => True :=
  reportError_quiet _ _ _

/-- Something is put into a frame, unless the place is taken. -/
theorem define_quiet {frame frame' : Frame (Located Name)} {taken : Option (Located Name)}
    {what : String} {range : Range} (hkind : frame'.kind = frame.kind) :
    Quiet (match taken with
      | some existing => do
        reportDuplicate what range existing.range
        pure frame
      | none => pure frame') fun result => result.kind = frame.kind := by
  split
  · exact Quiet.bind (reportDuplicate_quiet _ _ _) fun _ _ => Quiet.pure rfl
  · exact Quiet.pure hkind

theorem defineValue_quiet (frame : Frame (Located Name)) (name : String)
    (here : Located Name) :
    Quiet (defineValue frame name here) fun frame' => frame'.kind = frame.kind :=
  define_quiet rfl

theorem defineType_quiet (frame : Frame (Located Name)) (name : String)
    (here : Located Name) :
    Quiet (defineType frame name here) fun frame' => frame'.kind = frame.kind :=
  define_quiet rfl

theorem defineField_quiet (frame : Frame (Located Name)) (constructor : ConstructorName)
    (name : String) (here : Located Name) :
    Quiet (defineField frame constructor name here) fun frame' => frame'.kind = frame.kind :=
  define_quiet rfl

theorem recorded_singleton {graph : DeclarationGraph} {name : Name} :
    Recorded shape graph [name] ↔ ∀ source, name.declaration? = some source →
      shape.findSome? ScopeKind.namespace? = some source.qualified.ns →
        ∀ target, shape.findSome? ScopeKind.declaration? = some target →
          (source, target) ∈ graph.edges := by
  simp only [Recorded, List.mem_singleton, forall_eq]

theorem recordReference_visits (name : Name) :
    Visits shape known (recordReference name) fun _ => [name] := by
  intro s hs _
  simp only [recorded_singleton]
  unfold recordReference
  split
  · rename_i hnone
    exact Ends.pure ⟨hs, .refl _, fun source hsource => by simp [hnone] at hsource⟩
  · rename_i referenced hreferenced
    refine Ends.bind (Ends.get ?_)
    dsimp only
    rw [Stack.enclosingNamespace?_eq, Stack.enclosingDeclaration?_eq, hs]
    split
    · split
      · rename_i enclosing henclosing
        refine Ends.modify ⟨hs, DeclarationGraph.grows_addEdge _ _, ?_⟩
        intro source hsource _ target htarget
        refine DeclarationGraph.mem_edges_addEdge.2 (.inr ?_)
        simp_all
      · rename_i hnone
        exact Ends.pure ⟨hs, .refl _, fun _ _ _ target htarget => by simp [hnone] at htarget⟩
    · refine Ends.pure ⟨hs, .refl _, fun source hsource hns => ?_⟩
      simp_all

/-- A look-up that records what it finds. -/
theorem lookup_visits {found : Resolver → Option (Located Name)} (what : String)
    (range : Range) (id : QualifiedId) :
    Visits shape known (do
      match found (← get) with
      | some here =>
        recordReference here.info
        pure (here.withRange range)
      | none =>
        reportUndefined what range id.canonical
        pure ⟨range, .nameless⟩) fun here => [here.info] := by
  refine Visits.get fun s => ?_
  split
  · refine Visits.bind (recordReference_visits _) fun _ => Visits.pure fun name hname => .inl ?_
    rw [List.mem_singleton.1 hname]
    exact List.mem_append_right _ List.mem_cons_self
  · refine Visits.after (reportUndefined_quiet _ _ _) fun _ _ => Visits.pure ?_
    intro name hname
    rw [List.mem_singleton.1 hname]
    exact .inr rfl

theorem resolveValue_visits (range : Range) (id : QualifiedId) :
    Visits shape known (resolveValue range id) fun here => [here.info] :=
  lookup_visits "undefined value" range id

theorem resolveType_visits (range : Range) (id : QualifiedId) :
    Visits shape known (resolveType range id) fun here => [here.info] :=
  lookup_visits "undefined type" range id

/-- A binder refers to nothing, and its frame stays the frame of the same construct. -/
theorem bindLocal_visits (target : ScopeTag) (name : String) (range : Range) :
    Visits shape known (bindLocal target name range) fun _ => [] := by
  intro s hs _
  refine Ends.bind (Ends.get (Ends.bind (Ends.set ?_)))
  split
  · rename_i frame hframe
    refine Ends.bind ((defineValue_quiet frame name _ _).mono ?_)
    rintro frame' s₁ ⟨hkind, hstack, hgraph⟩
    refine Ends.bind (Ends.modify (Ends.pure ⟨?_, ?_, .nil⟩))
    · rw [← hs]
      change (Stack.updateFirst _ _ _).map Frame.kind = _
      rw [hstack]
      refine map_kind_updateFirst fun old _ hold => ?_
      obtain rfl : old = frame := Option.some.inj (hold.symm.trans hframe)
      exact hkind
    · rw [hgraph]
      exact .refl _
  · intro _ _ hrun
    cases hrun

/-! ## Written types -/

theorem typeVar_quiet (var : TypeVarNode Unit) : Quiet (typeVar var) fun _ => True := by
  refine Quiet.get fun s => ?_
  split
  · exact Quiet.pure True.intro
  · exact Quiet.bind (reportUndefined_quiet _ _ _) fun _ _ => Quiet.pure True.intro

theorem typeVars_quiet (vars : List (TypeVarNode Unit)) :
    Quiet (vars.mapM typeVar) fun _ => True := by
  induction vars with
  | nil => exact Quiet.pure True.intro
  | cons var rest ih =>
    rw [List.mapM_cons]
    exact Quiet.bind (typeVar_quiet var) fun _ _ => Quiet.bind ih fun _ _ =>
      Quiet.pure True.intro

theorem frameOfBinders_quiet (kind : ScopeKind) (binders : List (TypeVarNode Unit)) :
    Quiet (frameOfBinders kind binders) fun frame => frame.kind = kind := by
  refine Quiet.foldlM rfl fun frame hframe var _ => ?_
  exact (defineType_quiet frame var.name _).mono fun _ h => h.trans hframe

mutual
theorem typeNode_visits (shape : List ScopeKind) (known : List Name) :
    ∀ node : TypeNode Unit, Visits shape known (typeNode node) TypeNode.referents
  | .quantified here binders body => by
    refine Visits.after (frameOfBinders_quiet .quantifiedType binders) fun frame hframe => ?_
    refine Visits.withFrame (by rw [hframe]; exact ⟨rfl, rfl⟩) ?_
    refine Visits.after (typeVars_quiet binders) fun _ _ => ?_
    exact Visits.bind (typeNode_visits _ _ body) fun _ => Visits.done
      (by grind [TypeNode.referents])
  | .function here args result => by
    refine Visits.bind (typeNodes_visits shape known args) fun _ => ?_
    exact Visits.bind (typeNode_visits shape _ result) fun _ => Visits.done
      (by grind [TypeNode.referents])
  | .apply here head args => by
    refine Visits.bind (typeNode_visits shape known head) fun _ => ?_
    exact Visits.bind (typeNodes_visits shape _ args) fun _ => Visits.done
      (by grind [TypeNode.referents])
  | .reference here id =>
    Visits.bind (resolveType_visits here.range id) fun _ => Visits.done
      (by grind [TypeNode.referents])
  | .var node => Visits.after (typeVar_quiet node) fun _ _ => Visits.done
      (by grind [TypeNode.referents])
theorem typeNodes_visits (shape : List ScopeKind) (known : List Name) :
    ∀ nodes : List (TypeNode Unit), Visits shape known (typeNodes nodes) TypeNode.referentsList
  | [] => Visits.done (List.nil_subset _)
  | node :: rest => by
    refine Visits.bind (typeNode_visits shape known node) fun _ => ?_
    exact Visits.bind (typeNodes_visits shape _ rest) fun _ => Visits.done
      (by grind [TypeNode.referentsList])
end

theorem ascription_visits (node : Option (TypeNode Unit)) :
    Visits shape known (ascription node) TypeNode.referentsOption := by
  cases node with
  | none => exact Visits.done (List.nil_subset _)
  | some written =>
    exact Visits.bind (typeNode_visits shape known written) fun _ => Visits.done
      (List.subset_append_right _ _)

theorem param_visits (known : List Name) (node : Param Unit) :
    Visits shape known (param node) Param.referents := by
  refine Visits.bind (bindLocal_visits _ _ _) fun _ => ?_
  exact Visits.bind (ascription_visits node.ascription) fun _ => Visits.done
    (List.subset_append_right _ _)

theorem reference_visits (node : Reference Unit) :
    Visits shape known (reference node) fun node => [node.here.info] :=
  Visits.bind (resolveValue_visits _ _) fun _ => Visits.done (List.subset_append_right _ _)

/-! ## Patterns -/

theorem checkField_quiet (range : Range) (field : String) :
    Quiet (checkField range field) fun _ => True := by
  refine Quiet.get fun s => ?_
  dsimp only
  split
  · split
    · exact reportError_quiet _ _ _
    · exact Quiet.pure True.intro
  · exact Quiet.pure True.intro

mutual
theorem pattern_visits (shape : List ScopeKind) (known : List Name) :
    ∀ node : Pattern Unit, Visits shape known (pattern node) Pattern.referents
  | .alias here name inner => by
    refine Visits.bind (bindLocal_visits _ name here.range) fun _ => ?_
    exact Visits.bind (pattern_visits shape _ inner) fun _ => Visits.done
      (by grind [Pattern.referents])
  | .id here name =>
    Visits.bind (bindLocal_visits _ name here.range) fun _ => Visits.done
      (by grind [Pattern.referents])
  | .literal here value => Visits.done (by grind [Pattern.referents])
  | .constructor here id fields => by
    refine Visits.get fun s => ?_
    have hrest (known : List Name) (name : Name) (kind : ScopeKind) (hkind : kind.IsInner) :
        Visits shape known (do
          let fields ← withScope kind (fieldPatterns fields)
          recordReference name
          pure (.constructor ⟨here.range, name⟩ id fields)) Pattern.referents := by
      refine Visits.bind (Visits.withScope hkind (fieldPatterns_visits _ _ fields)) fun _ => ?_
      exact Visits.bind (recordReference_visits _) fun _ => Visits.done
        (by grind [Pattern.referents])
    dsimp only
    split
    · exact Visits.after (reportUndefined_quiet _ _ _) fun _ _ => hrest _ _ _ ⟨rfl, rfl⟩
    · exact hrest _ _ _ ⟨rfl, rfl⟩
theorem fieldPattern_visits (shape : List ScopeKind) (known : List Name) :
    ∀ node : FieldPattern Unit, Visits shape known (fieldPattern node) FieldPattern.referents
  | ⟨here, field, inner⟩ => Visits.after (checkField_quiet here.range field) fun _ _ =>
      optionalPattern_visits shape known here field inner
theorem optionalPattern_visits (shape : List ScopeKind) (known : List Name)
    (here : Located Unit) (field : String) : ∀ inner : Option (Pattern Unit),
      Visits shape known (optionalPattern here field inner) FieldPattern.referents
  | none => Visits.bind (bindLocal_visits _ field here.range) fun _ => Visits.done
      (by grind [FieldPattern.referents, Pattern.referentsOption])
  | some inner => Visits.bind (pattern_visits shape known inner) fun _ => Visits.done
      (by grind [FieldPattern.referents, Pattern.referentsOption])
theorem fieldPatterns_visits (shape : List ScopeKind) (known : List Name) :
    ∀ fields : List (FieldPattern Unit),
      Visits shape known (fieldPatterns fields) FieldPattern.referentsList
  | [] => Visits.done (List.nil_subset _)
  | field :: rest => by
    refine Visits.bind (fieldPattern_visits shape known field) fun _ => ?_
    exact Visits.bind (fieldPatterns_visits shape _ rest) fun _ => Visits.done
      (by grind [FieldPattern.referentsList])
end

/-! ## Expressions -/

mutual
theorem expr_visits (shape : List ScopeKind) (known : List Name) :
    ∀ node : Expr Unit, Visits shape known (expr node) Expr.referents
  | .block here bindings result => by
    refine Visits.withScope ⟨rfl, rfl⟩ ?_
    refine Visits.bind (localBindings_visits _ _ bindings) fun _ => ?_
    exact Visits.bind (optionalExpr_visits _ _ result) fun _ => Visits.done
      (by grind [Expr.referents])
  | .conditional here condition consequent alternative => by
    refine Visits.bind (expr_visits shape known condition) fun _ => ?_
    refine Visits.bind (expr_visits shape _ consequent) fun _ => ?_
    exact Visits.bind (expr_visits shape _ alternative) fun _ => Visits.done
      (by grind [Expr.referents])
  | .lambda here params body => by
    refine Visits.withScope ⟨rfl, rfl⟩ ?_
    refine Visits.bind (Visits.mapM fun node _ known => param_visits known node) fun _ => ?_
    exact Visits.bind (expr_visits _ _ body) fun _ => Visits.done (by grind [Expr.referents])
  | .cases here scrutinee cases => by
    refine Visits.bind (expr_visits shape known scrutinee) fun _ => ?_
    exact Visits.bind (caseList_visits shape _ cases) fun _ => Visits.done
      (by grind [Expr.referents])
  | .apply here function args => by
    refine Visits.bind (expr_visits shape known function) fun _ => ?_
    exact Visits.bind (exprs_visits shape _ args) fun _ => Visits.done
      (by grind [Expr.referents])
  | .select here receiver selection => by
    refine Visits.bind (expr_visits shape known receiver) fun _ => ?_
    exact Visits.bind (reference_visits selection) fun _ => Visits.done
      (by grind [Expr.referents])
  | .reference node => Visits.bind (reference_visits node) fun _ => Visits.done
      (by grind [Expr.referents])
  | .binary here op left right => by
    refine Visits.bind (expr_visits shape known left) fun _ => ?_
    exact Visits.bind (expr_visits shape _ right) fun _ => Visits.done
      (by grind [Expr.referents])
  | .unary here op operand => Visits.bind (expr_visits shape known operand) fun _ =>
      Visits.done (by grind [Expr.referents])
  | .literal here value => Visits.done (by grind [Expr.referents])
theorem optionalExpr_visits (shape : List ScopeKind) (known : List Name) :
    ∀ node : Option (Expr Unit), Visits shape known (optionalExpr node) Expr.referentsOption
  | none => Visits.done (List.nil_subset _)
  | some node => Visits.bind (expr_visits shape known node) fun _ => Visits.done
      (by grind [Expr.referentsOption])
theorem exprs_visits (shape : List ScopeKind) (known : List Name) :
    ∀ nodes : List (Expr Unit), Visits shape known (exprs nodes) Expr.referentsList
  | [] => Visits.done (List.nil_subset _)
  | node :: rest => by
    refine Visits.bind (expr_visits shape known node) fun _ => ?_
    exact Visits.bind (exprs_visits shape _ rest) fun _ => Visits.done
      (by grind [Expr.referentsList])
theorem localBinding_visits (shape : List ScopeKind) (known : List Name) :
    ∀ node : Binding Unit, Visits shape known (localBinding node) Binding.referents
  | ⟨here, name, type, value⟩ => by
    refine Visits.bind (bindLocal_visits _ name here.range) fun _ => ?_
    refine Visits.bind (ascription_visits type) fun _ => ?_
    exact Visits.bind (expr_visits shape _ value) fun _ => Visits.done
      (by grind [Binding.referents])
theorem localBindings_visits (shape : List ScopeKind) (known : List Name) :
    ∀ nodes : List (Binding Unit),
      Visits shape known (localBindings nodes) Binding.referentsList
  | [] => Visits.done (List.nil_subset _)
  | node :: rest => by
    refine Visits.bind (localBinding_visits shape known node) fun _ => ?_
    exact Visits.bind (localBindings_visits shape _ rest) fun _ => Visits.done
      (by grind [Binding.referentsList])
theorem caseNode_visits (shape : List ScopeKind) (known : List Name) :
    ∀ node : Case Unit, Visits shape known (caseNode node) Case.referents
  | ⟨here, inner, body⟩ => by
    refine Visits.withScope ⟨rfl, rfl⟩ ?_
    refine Visits.bind (pattern_visits _ _ inner) fun _ => ?_
    exact Visits.bind (expr_visits _ _ body) fun _ => Visits.done (by grind [Case.referents])
theorem caseList_visits (shape : List ScopeKind) (known : List Name) :
    ∀ nodes : List (Case Unit), Visits shape known (caseList nodes) Case.referentsList
  | [] => Visits.done (List.nil_subset _)
  | node :: rest => by
    refine Visits.bind (caseNode_visits shape known node) fun _ => ?_
    exact Visits.bind (caseList_visits shape _ rest) fun _ => Visits.done
      (by grind [Case.referentsList])
end

/-! ## Declarations -/

section Declarations

variable {ns : NamespaceName} {target : DeclarationName}

/-- Inside of a declaration the references count for it. -/
theorem declaring_establishes {α : Type} (names : α → List Name) (fine : α → Prop)
    {frame : Frame (Located Name)} {body : Resolve α} {good : α → DeclarationGraph → Prop}
    (htarget : frame.kind.declaration? = some target) (hinner : frame.kind.namespace? = none)
    (hns : shape.findSome? ScopeKind.namespace? = some ns)
    (hbody : Visits (frame.kind :: shape) [] body names) (hgives : Gives body fine)
    (hgood : ∀ a graph, fine a → graph.Cites ns target (names a) → good a graph) :
    Establishes shape (withFrame frame body) good := by
  refine Establishes.withFrame fun s hs a s' hrun => ?_
  obtain ⟨hshape, hgrows, hrecorded⟩ := hbody s hs .nil a s' hrun
  refine ⟨hshape, hgrows, hgood a _ (hgives s a s' hrun) ?_⟩
  intro name hname source hsource hsourceNs
  refine .single (hrecorded name hname source hsource ?_ target ?_)
  · rw [List.findSome?_cons, hinner, hsourceNs, hns]
  · rw [List.findSome?_cons, htarget]

theorem constructorParam_visits (name : ConstructorName) (known : List Name)
    (node : ConstructorParam Unit) :
    Visits shape known (constructorParam name node) fun param => param.ascription.referents :=
  Visits.bind (typeNode_visits shape known node.ascription) fun _ => Visits.done
    (List.subset_append_right _ _)

theorem constructor_establishes (data : QualifiedName)
    (hns : shape.findSome? ScopeKind.namespace? = some data.ns) (node : Constructor Unit) :
    Establishes shape (constructor data node) fun c graph => c.Tied data graph := by
  intro s hs
  refine Ends.bind (Ends.modify (Ends.bind (Ends.modify ?_)))
  generalize hname : ConstructorName.ofData data node.name = name
  generalize hgraph : (s.graph.addEdge (.data data) (.constructor name)).addEdge
    (.constructor name) (.data data) = graph
  have hgrows : s.graph.Grows graph := by
    rw [← hgraph]
    exact (DeclarationGraph.grows_addEdge _ _).trans (DeclarationGraph.grows_addEdge _ _)
  have hdown : (.data data, .constructor name) ∈ graph.edges := by
    simp [← hgraph, DeclarationGraph.mem_edges_addEdge]
  have hup : (.constructor name, .data data) ∈ graph.edges := by
    simp [← hgraph, DeclarationGraph.mem_edges_addEdge]
  have hinside : Establishes shape (withScope (.constructor name) do
      let params ← node.params.mapM (constructorParam name)
      let result ← ascription node.result
      pure (⟨⟨node.here.range, .constructor name⟩, node.name, params, result⟩ : Constructor Name))
      fun c graph => (c.here.info = .constructor name ∧ c.name = node.name) ∧
        graph.Cites data.ns (.constructor name) c.referents := by
    refine declaring_establishes Constructor.referents
      (fun c => c.here.info = .constructor name ∧ c.name = node.name) rfl rfl hns ?_ ?_
      fun _ _ hfine hcites => ⟨hfine, hcites⟩
    · refine Visits.bind (Visits.mapM fun param _ known =>
        constructorParam_visits _ known param) fun params => ?_
      refine Visits.bind (ascription_visits node.result) fun _ => Visits.done ?_
      grind [Constructor.referents]
    · exact Gives.skip fun _ => Gives.skip fun _ => Gives.pure ⟨rfl, rfl⟩
  refine (hinside { s with graph := graph } hs).mono ?_
  rintro c s' ⟨hshape, hgrows', ⟨hhere, hcname⟩, hcites⟩
  refine ⟨hshape, hgrows.trans hgrows', ?_, ?_, fun other hother source hsource hsourceNs => ?_⟩
  · rw [hhere, hcname, hname]
  · rw [hcname, hname]
    exact .single (hgrows'.edges hdown)
  · exact (hcites other hother source hsource hsourceNs).tail (hgrows'.edges hup)

/-- The namespace of the declarations is known from the constructs around. -/
theorem inNamespace_establishes {α : Type} {good : α → DeclarationGraph → Prop}
    {next : NamespaceName → Resolve α}
    (hns : shape.findSome? ScopeKind.namespace? = some ns)
    (hnext : Establishes shape (next ns) good) :
    Establishes shape (currentNamespace >>= next) good := by
  intro s hs
  refine Ends.bind (Ends.bind (Ends.get ?_))
  rw [Stack.enclosingNamespace?_eq, hs, hns]
  exact Ends.pure (hnext s hs)

theorem data_establishes (hns : shape.findSome? ScopeKind.namespace? = some ns)
    (node : Data Unit) :
    Establishes shape (data node) fun d graph =>
      (Declaration.data d).Linked ns (.data ⟨ns, node.name⟩) graph := by
  refine inNamespace_establishes hns ?_
  refine Establishes.after (frameOfBinders_quiet _ node.typeParams) fun frame hframe => ?_
  refine Establishes.withFrame (Establishes.after (typeVars_quiet node.typeParams) ?_)
  intro typeParams _
  have hinner : (frame.kind :: shape).findSome? ScopeKind.namespace? = some ns := by
    rw [hframe, List.findSome?_cons]
    exact hns
  refine Establishes.map (Establishes.mapM
    (fun inner _ => constructor_establishes ⟨ns, node.name⟩ hinner inner)
    fun _ _ _ h hgrows => h.mono hgrows) fun constructors graph hties => ?_
  refine ⟨rfl, fun name hname => ?_, fun name hname => ?_⟩
  · obtain ⟨c, hc, hname⟩ := List.mem_flatMap.1 hname
    exact (hties c hc).cites name hname
  · rcases List.mem_cons.1 hname with rfl | hname
    · exact ⟨_, rfl, rfl, .refl⟩
    · obtain ⟨c, hc, rfl⟩ := List.mem_map.1 hname
      rw [(hties c hc).named]
      exact ⟨_, rfl, rfl, (hties c hc).down⟩

theorem topLevelBinding_establishes (hns : shape.findSome? ScopeKind.namespace? = some ns)
    (node : Binding Unit) :
    Establishes shape (topLevelBinding node) fun d graph =>
      (Declaration.binding d).Linked ns (.binding ⟨ns, node.name⟩) graph := by
  refine inNamespace_establishes hns ?_
  refine declaring_establishes Binding.referents
    (fun d => d.here.info = .binding ⟨ns, node.name⟩) rfl rfl hns ?_ ?_ ?_
  · refine Visits.bind (ascription_visits node.ascription) fun _ => ?_
    exact Visits.bind (expr_visits _ _ node.value) fun _ => Visits.done
      (by grind [Binding.referents])
  · exact Gives.skip fun _ => Gives.skip fun _ => Gives.pure rfl
  · intro d graph hhere hcites
    exact .ofCites (congrArg Name.declaration? hhere) rfl rfl hcites

theorem functionBinding_establishes (hns : shape.findSome? ScopeKind.namespace? = some ns)
    (node : FunctionBinding Unit) :
    Establishes shape (functionBinding node) fun d graph =>
      (Declaration.function d).Linked ns (.binding ⟨ns, node.name⟩) graph := by
  refine inNamespace_establishes hns ?_
  refine Establishes.after (frameOfBinders_quiet _ node.typeParams) fun frame hframe => ?_
  refine declaring_establishes FunctionBinding.referents
    (fun d => d.here.info = .binding ⟨ns, node.name⟩) (by rw [hframe]; rfl) (by rw [hframe]; rfl)
    hns ?_ ?_ ?_
  · refine Visits.withScope ⟨rfl, rfl⟩ ?_
    refine Visits.after (typeVars_quiet node.typeParams) fun _ _ => ?_
    refine Visits.bind (Visits.mapM fun param _ known => param_visits known param) fun _ => ?_
    refine Visits.bind (ascription_visits node.result) fun _ => ?_
    exact Visits.bind (expr_visits _ _ node.body) fun _ => Visits.done
      (by grind [FunctionBinding.referents])
  · exact withFrame_gives (Gives.skip fun _ => Gives.skip fun _ => Gives.skip fun _ =>
      Gives.skip fun _ => Gives.pure rfl)
  · intro d graph hhere hcites
    exact .ofCites (congrArg Name.declaration? hhere) rfl rfl hcites

/-- Every declaration is linked to what it refers to. -/
theorem declaration_establishes (hns : shape.findSome? ScopeKind.namespace? = some ns)
    (node : Declaration Unit) :
    Establishes shape (declaration node) fun d graph => ∃ target, d.Linked ns target graph := by
  have hreset : Quiet (modify fun s => { s with nextLocal := 0 }) fun _ => True :=
    fun _ => Ends.modify ⟨True.intro, rfl, rfl⟩
  refine Establishes.after hreset fun _ _ => ?_
  cases node with
  | data d => exact Establishes.map (data_establishes hns d) fun _ _ h => ⟨_, h⟩
  | binding d => exact Establishes.map (topLevelBinding_establishes hns d) fun _ _ h => ⟨_, h⟩
  | function d => exact Establishes.map (functionBinding_establishes hns d) fun _ _ h => ⟨_, h⟩

end Declarations

/-! ## Namespaces -/

theorem populateConstructor_quiet (data : QualifiedName) (frame : Frame (Located Name))
    (node : Constructor Unit) :
    Quiet (populateConstructor data frame node) fun frame' => frame'.kind = frame.kind := by
  refine Quiet.bind (defineValue_quiet frame node.name _) fun frame₁ hframe₁ => ?_
  refine Quiet.foldlM ?_ fun frame₂ hframe₂ param _ => ?_
  · rw [populateType_kind, populateType_kind, (populateValue_types _ _ _).2, hframe₁]
  · exact (defineField_quiet frame₂ _ _ _).mono fun _ h => h.trans hframe₂

theorem populateDeclaration_quiet (ns : NamespaceName) (frame : Frame (Located Name))
    (node : Declaration Unit) :
    Quiet (populateDeclaration ns frame node) fun frame' => frame'.kind = frame.kind := by
  have hvalue (here : Located Name) : Quiet (do
      let frame ← defineValue frame node.name here
      pure (frame.populateValue (QualifiedName.canonical ⟨ns, node.name⟩) here))
      fun frame' => frame'.kind = frame.kind := by
    refine Quiet.bind (defineValue_quiet frame node.name _) fun frame₁ hframe₁ => Quiet.pure ?_
    rw [(populateValue_types _ _ _).2, hframe₁]
  cases node with
  | binding d => exact hvalue _
  | function d => exact hvalue _
  | data d =>
    refine Quiet.bind (defineType_quiet frame d.name _) fun frame₁ hframe₁ => ?_
    refine Quiet.foldlM ?_ fun frame₂ hframe₂ inner _ => ?_
    · rw [populateType_kind, hframe₁]
    · exact (populateConstructor_quiet _ frame₂ inner).mono fun _ h => h.trans hframe₂

theorem populate_quiet (ns : Namespace Unit) :
    Quiet (populate ns) fun frame => frame.kind = .ns ns.id.name :=
  Quiet.foldlM rfl fun frame hframe node _ =>
    (populateDeclaration_quiet ns.id.name frame node).mono fun _ h => h.trans hframe

/-- The groups are those of a graph in which all declarations are linked. -/
theorem namespaceNode_ends (ns : Namespace Unit) :
    Ends (namespaceNode ns) s fun resolved _ => ∃ graph declarations,
      resolved.groups = DeclarationGraph.groups graph declarations ∧ graph.Proper ∧
        declarations.mapM (Declaration.traverse forget) = ns.declarations ∧
          ∀ d ∈ declarations, ∃ target, d.Linked ns.id.name target graph := by
  refine Ends.bind (Ends.modify (Ends.bind ((populate_quiet ns _).mono ?_)))
  rintro frame s₁ ⟨hkind, hstack, hgraph⟩
  refine Ends.bind (Ends.modify ?_)
  have hns : (frame.kind :: s₁.stack.shape).findSome? ScopeKind.namespace? = some ns.id.name := by
    rw [List.findSome?_cons, hkind]
    rfl
  have hlinked := Establishes.mapM (fun d (_ : d ∈ ns.declarations) =>
    declaration_establishes hns d) fun d graph graph' ⟨target, h⟩ hgrows => ⟨target, h.mono hgrows⟩
  have hwritten := Gives.mapM fun d (_ : d ∈ ns.declarations) => declaration_gives d
  refine Ends.bind ?_
  intro declarations s₂ hrun
  obtain ⟨-, hgrows, hall⟩ := hlinked _ rfl _ _ hrun
  have hsame := hwritten _ _ _ hrun
  have hproper : s₂.graph.Proper := hgrows.proper (hgraph ▸ DeclarationGraph.proper_empty)
  refine Ends.bind (Ends.within fun popped stack _ => ?_)
  refine Ends.bind (Ends.modify (Ends.bind (Ends.get (Ends.pure ?_))))
  exact ⟨s₂.graph, declarations, rfl, hproper, hsame, hall⟩

end Resolve

theorem Resolver.at_start (s : Resolver) :
    Resolver.At [] { s with stack := Stack.ofBuiltIns Resolver.builtIns } := by
  refine ⟨rfl, ⟨fun frame hframe => (List.not_mem_nil hframe).elim, fun frame hframe => ?_⟩⟩
  obtain rfl := Option.some.inj hframe
  exact Resolver.builtIns_typesNamed

/-- Linked declarations refer to nothing that is declared in a later group. -/
theorem DeclarationGraph.Proper.groups_referents {graph : DeclarationGraph}
    {ns : NamespaceName} {declarations : List (Declaration Name)} (hproper : graph.Proper)
    (hlinked : ∀ d ∈ declarations, ∃ target, d.Linked ns target graph) :
    (graph.groups declarations).Pairwise fun earlier later =>
      ∀ d ∈ earlier, ∀ e ∈ later, ∀ name ∈ d.referents, name ∉ e.declared := by
  refine (hproper.groups_ordered declarations).imp_of_mem ?_
  intro earlier later hearlier hlater hordered d hd e he name hrefers hdeclared
  obtain ⟨target, htarget⟩ := hlinked d (mem_of_mem_groups hearlier hd)
  obtain ⟨owner, howner⟩ := hlinked e (mem_of_mem_groups hlater he)
  obtain ⟨source, hsource, hns, hdown⟩ := howner.declares name hdeclared
  have hreaches : graph.Reaches owner target :=
    hdown.trans (htarget.cites name hrefers source hsource hns)
  exact hordered d hd e he target owner htarget.named howner.named hreaches

/-- What a declaration refers to is declared in its own group or in an earlier one, and every
declaration that was written is in exactly one group. -/
theorem Namespace.groups_follow_references (ns : Namespace Unit) (s : Resolver) :
    ∃ resolved resolver,
      Resolve.namespaceNode ns { s with stack := Stack.ofBuiltIns Resolver.builtIns } =
          .ok resolved resolver ∧
        (resolved.groups.Pairwise fun earlier later =>
          ∀ d ∈ earlier, ∀ e ∈ later, ∀ name ∈ d.referents, name ∉ e.declared) ∧
        (resolved.groups.flatten.map Declaration.written).Perm ns.declarations := by
  obtain ⟨resolved, resolver, hrun, -⟩ := Resolve.namespaceNode_keeps ns _ (Resolver.at_start s)
  obtain ⟨graph, declarations, hgroups, hproper, hwritten, hlinked⟩ :=
    Resolve.namespaceNode_ends ns _ _ hrun
  refine ⟨resolved, resolver, hrun, ?_, ?_⟩
  · rw [hgroups]
    exact hproper.groups_referents hlinked
  · rw [hgroups, ← hwritten]
    exact ((graph.groups_perm declarations).map _).trans (.of_eq List.idRun_mapM.symm)

end PolyFront
