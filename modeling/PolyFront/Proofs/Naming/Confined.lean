import PolyFront.Proofs.Naming.Alike

/-!
# Resolution leaves its surroundings alone

A run is confined to the frames over some lower ones when it neither faults nor changes anything
below, and when the log and the top-level bindings of the namespace before are only passed on.
Every construct is confined to the frames that were pushed around it, whatever the frames below
are.  A resolver is therefore left with the stack it was given, and what it resolved before has
no influence on what it resolves next.
-/

namespace PolyFront

/-- The given frames lie at the bottom, under frames of the given constructs. -/
def Stack.Over {α : Type} (lower : List (Frame α)) (shape : List ScopeKind)
    (stack : Stack α) : Prop :=
  ∃ upper, stack.frames = upper ++ lower ∧ upper.map Frame.kind = shape

/-- The resolver with another past, which resolution does not look at. -/
def Resolver.recall (s : Resolver) (log : Log) (topLevel : Option (Frame (Located Name))) :
    Resolver :=
  { s with log := log, topLevel := topLevel }

namespace Log

@[simp]
theorem append_empty (log : Log) : log.append empty = log := by
  simp [append, empty]

theorem append_assoc (first second third : Log) :
    (first.append second).append third = first.append (second.append third) := by
  simp [append, List.append_assoc, Nat.add_assoc]

theorem report_eq_append (log : Log) (diagnostic : Diagnostic) :
    log.report diagnostic = log.append (empty.report diagnostic) := by
  simp [report, append, empty]

end Log

namespace Resolve

/-- From the given resolver the run ends over the same lower frames, whatever was resolved
before, and only adds to the log. -/
def ConfinedFrom {α : Type} (lower : List (Frame (Located Name))) (shape : List ScopeKind)
    (s : Resolver) (run : Resolve α) (good : α → Prop) : Prop :=
  ∃ (a : α) (t : Resolver) (reports : Log), good a ∧ t.stack.Over lower shape ∧
      t.stack.builtIns = s.stack.builtIns ∧
    t.uri = s.uri ∧ ∀ log topLevel,
      run (s.recall log topLevel) = .ok a (t.recall (log.append reports) topLevel)

/-- The run never touches the lower frames. -/
def Confined {α : Type} (lower : List (Frame (Located Name))) (shape : List ScopeKind)
    (run : Resolve α) (good : α → Prop) : Prop :=
  ∀ s, s.stack.Over lower shape → ConfinedFrom lower shape s run good

/-- The run looks at nothing but the source it is about, and only adds to the log. -/
def Detached {α : Type} (run : Resolve α) (good : α → Prop) : Prop :=
  ∀ uri, ∃ (a : α) (reports : Log), good a ∧
    ∀ s : Resolver, s.uri = uri → run s = .ok a { s with log := s.log.append reports }

section Rules

variable {α β : Type} {lower : List (Frame (Located Name))} {shape : List ScopeKind}
  {s : Resolver}

theorem ConfinedFrom.pure {good : α → Prop} {a : α} (hs : s.stack.Over lower shape)
    (ha : good a) : ConfinedFrom lower shape s (Pure.pure a) good :=
  ⟨a, s, Log.empty, ha, hs, rfl, rfl, fun log _ => by rw [Log.append_empty]; rfl⟩

theorem ConfinedFrom.bind {mid : α → Prop} {good : β → Prop} {run : Resolve α}
    {next : α → Resolve β} (h : ConfinedFrom lower shape s run mid)
    (hnext : ∀ a, mid a → Confined lower shape (next a) good) :
    ConfinedFrom lower shape s (run >>= next) good := by
  obtain ⟨a, t, reports, ha, hover, hbuiltIns, huri, hrun⟩ := h
  obtain ⟨b, u, reports', hb, hover', hbuiltIns', huri', hrest⟩ := hnext a ha t hover
  refine ⟨b, u, reports.append reports', hb, hover', hbuiltIns'.trans hbuiltIns,
    huri'.trans huri, fun log topLevel => ?_⟩
  show EStateM.bind run next (s.recall log topLevel) = _
  rw [EStateM.bind, hrun, ← Log.append_assoc]
  exact hrest _ _

theorem Confined.pure {good : α → Prop} {a : α} (ha : good a) :
    Confined lower shape (Pure.pure a : Resolve α) good :=
  fun _ hs => ConfinedFrom.pure hs ha

/-- A result of which nothing is asked. -/
theorem Confined.done (a : α) : Confined lower shape (Pure.pure a : Resolve α) fun _ => True :=
  Confined.pure True.intro

theorem Confined.bind {mid : α → Prop} {good : β → Prop} {run : Resolve α}
    {next : α → Resolve β} (h : Confined lower shape run mid)
    (hnext : ∀ a, mid a → Confined lower shape (next a) good) :
    Confined lower shape (run >>= next) good :=
  fun s hs => (h s hs).bind hnext

/-- A run whose result is of no further interest. -/
theorem Confined.andThen {mid : α → Prop} {good : β → Prop} {run : Resolve α}
    {next : α → Resolve β} (h : Confined lower shape run mid)
    (hnext : ∀ a, Confined lower shape (next a) good) :
    Confined lower shape (run >>= next) good :=
  h.bind fun a _ => hnext a

/-- What is done with the state does not depend on the past. -/
theorem Confined.get {good : β → Prop} {next : Resolver → Resolve β}
    (hsame : ∀ (s : Resolver) (log : Log) (topLevel : Option (Frame (Located Name))),
      next (s.recall log topLevel) = next s)
    (h : ∀ s, s.stack.Over lower shape → ConfinedFrom lower shape s (next s) good) :
    Confined lower shape (MonadState.get >>= next) good := by
  intro s hs
  obtain ⟨a, t, reports, ha, hover, hbuiltIns, huri, hrun⟩ := h s hs
  refine ⟨a, t, reports, ha, hover, hbuiltIns, huri, fun log topLevel => ?_⟩
  show next (s.recall log topLevel) (s.recall log topLevel) = _
  rw [hsame]
  exact hrun log topLevel

theorem Detached.pure {good : α → Prop} {a : α} (ha : good a) :
    Detached (Pure.pure a : Resolve α) good :=
  fun _ => ⟨a, Log.empty, ha, fun _ _ => by rw [Log.append_empty]; rfl⟩

theorem Detached.bind {mid : α → Prop} {good : β → Prop} {run : Resolve α}
    {next : α → Resolve β} (h : Detached run mid) (hnext : ∀ a, mid a → Detached (next a) good) :
    Detached (run >>= next) good := by
  intro uri
  obtain ⟨a, reports, ha, hrun⟩ := h uri
  obtain ⟨b, reports', hb, hrest⟩ := hnext a ha uri
  refine ⟨b, reports.append reports', hb, fun s hs => ?_⟩
  show EStateM.bind run next s = _
  rw [EStateM.bind, hrun s hs, ← Log.append_assoc]
  exact hrest _ hs

theorem Detached.foldlM {run : β → α → Resolve β} {good : β → Prop} {items : List α} {start : β}
    (hstart : good start) (h : ∀ b, good b → ∀ item ∈ items, Detached (run b item) good) :
    Detached (items.foldlM run start) good := by
  induction items generalizing start with
  | nil => exact Detached.pure hstart
  | cons item rest ih =>
    rw [List.foldlM_cons]
    exact (h start hstart item List.mem_cons_self).bind fun b hb =>
      ih hb fun b' hb' other hother => h b' hb' other (List.mem_cons_of_mem _ hother)

theorem Detached.confined {good : α → Prop} {run : Resolve α} (h : Detached run good) :
    Confined lower shape run good := by
  intro s hs
  obtain ⟨a, reports, ha, hrun⟩ := h s.uri
  exact ⟨a, s, reports, ha, hs, rfl, rfl, fun log topLevel => hrun (s.recall log topLevel) rfl⟩

theorem Confined.ite {c : Prop} [Decidable c] {good : α → Prop} {run run' : Resolve α}
    (h : Confined lower shape run good) (h' : Confined lower shape run' good) :
    Confined lower shape (if c then run else run') good := by
  split
  · exact h
  · exact h'

/-- An action that is done only under a condition, before the rest of a run. -/
theorem Confined.whenThen {c : Prop} [Decidable c] {good : α → Prop} {run : Resolve PUnit}
    {next : Resolve α} (h : Confined lower shape run fun _ => True)
    (hnext : Confined lower shape next good) :
    Confined lower shape (do
      if c then run
      next) good :=
  .ite (h.andThen fun _ => hnext) ((Confined.done PUnit.unit).andThen fun _ => hnext)

theorem Confined.mapM {run : α → Resolve β} {items : List α}
    (h : ∀ item ∈ items, Confined lower shape (run item) fun _ => True) :
    Confined lower shape (items.mapM run) fun _ => True := by
  induction items with
  | nil => exact Confined.done []
  | cons item rest ih =>
    rw [List.mapM_cons]
    refine (h item List.mem_cons_self).andThen fun b => ?_
    exact (ih fun other hother => h other (List.mem_cons_of_mem _ hother)).andThen fun bs =>
      Confined.done (b :: bs)

end Rules

/-! ## The operations on the state -/

section Steps

variable {lower : List (Frame (Located Name))} {shape : List ScopeKind}

theorem reportError_detached (range : Range) (message : String) (related : List Note) :
    Detached (reportError range message related) fun _ => True := by
  refine fun uri =>
    ⟨(), Log.empty.report ⟨⟨uri, range⟩, .error, message, related⟩, True.intro, ?_⟩
  rintro s rfl
  rw [← Log.report_eq_append]
  rfl

theorem reportDuplicate_detached (what : String) (proposed existing : Range) :
    Detached (reportDuplicate what proposed existing) fun _ => True := by
  intro uri
  obtain ⟨_, reports, -, hrun⟩ := reportError_detached proposed
    ("Duplicate definition of " ++ what)
    [⟨⟨uri, existing⟩, "Original definition of " ++ what⟩] uri
  refine ⟨(), reports, True.intro, ?_⟩
  rintro s rfl
  exact hrun s rfl

theorem reportUndefined_confined (what : String) (range : Range) (name : String) :
    Confined lower shape (reportUndefined what range name) fun _ => True :=
  (reportError_detached _ _ _).confined

/-- Something is put into a frame that is not on the stack, unless the place is taken. -/
theorem define_detached {frame frame' : Frame (Located Name)} {taken : Option (Located Name)}
    {what : String} {range : Range} (hkind : frame'.kind = frame.kind) :
    Detached (match taken with
      | some existing => do
        reportDuplicate what range existing.range
        pure frame
      | none => pure frame') fun result => result.kind = frame.kind := by
  split
  · exact (reportDuplicate_detached _ _ _).bind fun _ _ => Detached.pure rfl
  · exact Detached.pure hkind

theorem defineValue_detached (frame : Frame (Located Name)) (name : String)
    (here : Located Name) :
    Detached (defineValue frame name here) fun frame' => frame'.kind = frame.kind :=
  define_detached rfl

theorem defineType_detached (frame : Frame (Located Name)) (name : String)
    (here : Located Name) :
    Detached (defineType frame name here) fun frame' => frame'.kind = frame.kind :=
  define_detached rfl

theorem defineField_detached (frame : Frame (Located Name)) (constructor : ConstructorName)
    (name : String) (here : Located Name) :
    Detached (defineField frame constructor name here) fun frame' => frame'.kind = frame.kind :=
  define_detached rfl

theorem addEdge_confined (source target : DeclarationName) :
    Confined lower shape (addEdge source target) fun _ => True :=
  fun s hs => ⟨(), { s with graph := s.graph.addEdge source target }, Log.empty, True.intro, hs,
    rfl, rfl, fun log _ => by rw [Log.append_empty]; rfl⟩

/-- A frame that is pushed around a run is popped again, and the frames below are as before. -/
theorem withFrame_confined {α : Type} {good : α → Prop} {frame : Frame (Located Name)}
    {body : Resolve α} (hbody : Confined lower (frame.kind :: shape) body good) :
    Confined lower shape (withFrame frame body) good := by
  rintro s ⟨upper, hframes, hkinds⟩
  have hpushed : (s.stack.push frame).Over lower (frame.kind :: shape) :=
    ⟨frame :: upper, congrArg _ hframes, congrArg _ hkinds⟩
  obtain ⟨a, t, reports, ha, ⟨upper', hframes', hkinds'⟩, hbuiltIns, huri, hrun⟩ :=
    hbody { s with stack := s.stack.push frame } hpushed
  obtain ⟨top, rest, rfl, htop, hrest⟩ := List.map_eq_cons_iff.1 hkinds'
  have htag : top.tag = frame.tag := by rw [Frame.tag, Frame.tag, htop]
  have hpop := Stack.pop_eq_ok hframes' htag
  refine ⟨a, { t with stack := { t.stack with frames := rest ++ lower } }, reports, ha,
    ⟨rest, rfl, hrest⟩, hbuiltIns, huri, fun log topLevel => ?_⟩
  show EStateM.bind body (fun result => EStateM.bind (Run.within Resolver.stack
    (fun stack s => { s with stack := stack }) (Stack.pop frame.tag)) fun _ =>
      EStateM.pure result)
    (Resolver.recall { s with stack := s.stack.push frame } log topLevel) = _
  rw [EStateM.bind, hrun]
  simp only [EStateM.bind, Run.within, Resolver.recall, hpop, EStateM.pure]
  rfl

theorem withScope_confined {α : Type} {good : α → Prop} {kind : ScopeKind} {body : Resolve α}
    (hbody : Confined lower (kind :: shape) body good) :
    Confined lower shape (withScope kind body) good :=
  withFrame_confined hbody

/-- The nearest frame of a construct that was pushed is one of the frames that were pushed. -/
theorem exists_enclosing_over {stack : Stack (Located Name)}
    {upper : List (Frame (Located Name))} {kind : ScopeKind}
    (hframes : stack.frames = upper ++ lower) (hkind : kind ∈ upper.map Frame.kind) :
    ∃ frame, upper.find? (fun frame => frame.tag == kind.tag) = some frame ∧
      stack.enclosing? kind.tag = some frame ∧ frame.tag = kind.tag := by
  obtain ⟨frame, hmem, hframe⟩ := List.mem_map.1 hkind
  have hsome : (upper.find? fun frame => frame.tag == kind.tag).isSome :=
    List.find?_isSome.2 ⟨frame, hmem, by simp [Frame.tag, hframe]⟩
  obtain ⟨found, hfound⟩ := Option.isSome_iff_exists.1 hsome
  refine ⟨found, hfound, ?_, by simpa using List.find?_some hfound⟩
  rw [Stack.enclosing?, hframes, List.find?_append, hfound, Option.some_or]

theorem currentNamespace_confined {ns : NamespaceName} (hns : .ns ns ∈ shape) :
    Confined lower shape currentNamespace fun _ => True := by
  refine Confined.get (fun _ _ _ => rfl) fun s hs => ?_
  obtain ⟨upper, hframes, hkinds⟩ := id hs
  obtain ⟨frame, -, hfound, htag⟩ := exists_enclosing_over hframes (hkinds ▸ hns)
  have hsome : ∃ name, s.stack.enclosingNamespace? = some name := by
    rw [Stack.enclosingNamespace?, show ScopeTag.ns = (ScopeKind.ns ns).tag from rfl, hfound]
    cases hkind : frame.kind <;> simp_all [Frame.tag, ScopeKind.tag]
  obtain ⟨name, hname⟩ := hsome
  simp only [hname]
  exact ConfinedFrom.pure hs True.intro

theorem recordReference_confined (name : Name) :
    Confined lower shape (recordReference name) fun _ => True := by
  unfold recordReference
  split
  · exact Confined.done _
  · refine Confined.get (fun _ _ _ => rfl) fun s hs => ?_
    refine Confined.ite ?_ (Confined.done _) s hs
    split
    · exact addEdge_confined _ _
    · exact Confined.done _

/-- A local name is bound in a frame that was pushed. -/
theorem bindLocal_confined {kind : ScopeKind} (hkind : kind ∈ shape) (name : String)
    (range : Range) : Confined lower shape (bindLocal kind.tag name range) fun _ => True := by
  rintro s ⟨upper, hframes, rfl⟩
  obtain ⟨frame, hfirst, hfound, -⟩ := exists_enclosing_over hframes hkind
  let here : Located Name := ⟨range, .bound name s.nextLocal⟩
  obtain ⟨frame', reports, hkind', hdefine⟩ := defineValue_detached frame name here s.uri
  have hupdate : Stack.updateFirst (fun frame => frame.tag == kind.tag) (fun _ => frame')
      s.stack.frames = Stack.updateFirst (fun frame => frame.tag == kind.tag)
        (fun _ => frame') upper ++ lower := by
    rw [hframes]
    exact updateFirst_append _ lower hfirst
  have hkinds : (Stack.updateFirst (fun frame => frame.tag == kind.tag) (fun _ => frame')
      upper).map Frame.kind = upper.map Frame.kind := by
    refine map_kind_updateFirst fun other _ hother => ?_
    obtain rfl := Option.some.inj (hfirst.symm.trans hother)
    exact hkind'
  refine ⟨here, { s with
    stack := s.stack.updateEnclosing kind.tag fun _ => frame'
    nextLocal := s.nextLocal + 1 }, reports, True.intro, ⟨_, hupdate, hkinds⟩, rfl, rfl,
    fun log topLevel => ?_⟩
  have hcounted := hdefine { s.recall log topLevel with nextLocal := s.nextLocal + 1 } rfl
  simp only [Resolver.recall] at hcounted
  refine (Run.ok_bind rfl).trans ((Run.ok_bind rfl).trans ?_)
  show bindFound kind.tag name here (s.stack.enclosing? kind.tag) _ = _
  rw [hfound]
  exact (Run.ok_bind hcounted).trans ((Run.ok_bind rfl).trans rfl)

theorem resolveValue_confined (range : Range) (id : QualifiedId) :
    Confined lower shape (resolveValue range id) fun _ => True := by
  refine Confined.get (fun _ _ _ => rfl) fun s hs => ?_
  split
  · exact (recordReference_confined _).andThen (fun _ => Confined.done _) s hs
  · exact (reportUndefined_confined _ _ _).andThen (fun _ => Confined.done _) s hs

theorem resolveType_confined (range : Range) (id : QualifiedId) :
    Confined lower shape (resolveType range id) fun _ => True := by
  refine Confined.get (fun _ _ _ => rfl) fun s hs => ?_
  split
  · exact (recordReference_confined _).andThen (fun _ => Confined.done _) s hs
  · exact (reportUndefined_confined _ _ _).andThen (fun _ => Confined.done _) s hs

theorem typeVar_confined (var : TypeVarNode Unit) :
    Confined lower shape (typeVar var) fun _ => True := by
  refine Confined.get (fun _ _ _ => rfl) fun s hs => ?_
  split
  · exact ConfinedFrom.pure hs True.intro
  · exact (reportUndefined_confined _ _ _).andThen (fun _ => Confined.done _) s hs

theorem typeVars_confined (vars : List (TypeVarNode Unit)) :
    Confined lower shape (vars.mapM typeVar) fun _ => True :=
  Confined.mapM fun var _ => typeVar_confined var

theorem frameOfBinders_detached (kind : ScopeKind) (binders : List (TypeVarNode Unit)) :
    Detached (frameOfBinders kind binders) fun frame => frame.kind = kind :=
  Detached.foldlM rfl fun frame hframe var _ => by
    obtain rfl := hframe
    exact defineType_detached frame var.name _

/-- Work inside the frame of some binders. -/
theorem withBinders_confined {α : Type} {good : α → Prop} (kind : ScopeKind)
    (binders : List (TypeVarNode Unit)) {body : Resolve α}
    (hbody : Confined lower (kind :: shape) body good) :
    Confined lower shape (do withFrame (← frameOfBinders kind binders) body) good :=
  (frameOfBinders_detached kind binders).confined.bind fun _ hframe =>
    withFrame_confined (hframe ▸ hbody)

theorem checkField_confined (range : Range) (field : String) :
    Confined lower shape (checkField range field) fun _ => True := by
  refine Confined.get (fun _ _ _ => rfl) fun s hs => ?_
  dsimp only
  split
  · exact Confined.ite (reportError_detached _ _ _).confined (Confined.done _) s hs
  · exact Confined.done _ s hs

end Steps

/-! ## Types, patterns and expressions -/

section Trees

variable {lower : List (Frame (Located Name))}

mutual
theorem typeNode_confined (shape : List ScopeKind) :
    ∀ node : TypeNode Unit, Confined lower shape (typeNode node) fun _ => True
  | .quantified _ binders body =>
    withBinders_confined .quantifiedType binders <|
      (typeVars_confined binders).andThen fun _ =>
        (typeNode_confined _ body).andThen fun _ => Confined.done _
  | .function _ args result =>
    (typeNodes_confined shape args).andThen fun _ =>
      (typeNode_confined shape result).andThen fun _ => Confined.done _
  | .apply _ head args =>
    (typeNode_confined shape head).andThen fun _ =>
      (typeNodes_confined shape args).andThen fun _ => Confined.done _
  | .reference here id =>
    (resolveType_confined here.range id).andThen fun _ => Confined.done _
  | .var node => (typeVar_confined node).andThen fun _ => Confined.done _
theorem typeNodes_confined (shape : List ScopeKind) :
    ∀ nodes : List (TypeNode Unit), Confined lower shape (typeNodes nodes) fun _ => True
  | [] => Confined.done []
  | node :: rest =>
    (typeNode_confined shape node).andThen fun _ =>
      (typeNodes_confined shape rest).andThen fun _ => Confined.done _
end

variable {shape : List ScopeKind}

theorem ascription_confined (node : Option (TypeNode Unit)) :
    Confined lower shape (ascription node) fun _ => True := by
  cases node with
  | none => exact Confined.done none
  | some written => exact (typeNode_confined shape written).andThen fun _ => Confined.done _

theorem param_confined (hkind : .lambda ∈ shape) (node : Param Unit) :
    Confined lower shape (param node) fun _ => True :=
  (bindLocal_confined hkind node.name node.here.range).andThen fun _ =>
    (ascription_confined node.ascription).andThen fun _ => Confined.done _

theorem reference_confined (node : Reference Unit) :
    Confined lower shape (reference node) fun _ => True :=
  (resolveValue_confined _ _).andThen fun _ => Confined.done _

mutual
theorem pattern_confined (shape : List ScopeKind) (hkind : .case ∈ shape) :
    ∀ node : Pattern Unit, Confined lower shape (pattern node) fun _ => True
  | .alias here name inner =>
    (bindLocal_confined hkind name here.range).andThen fun _ =>
      (pattern_confined shape hkind inner).andThen fun _ => Confined.done _
  | .id here name => (bindLocal_confined hkind name here.range).andThen fun _ => Confined.done _
  | .literal here value => Confined.done _
  | .constructor here id fields => by
    refine Confined.get (fun _ _ _ => rfl) fun s hs => Confined.whenThen ?_ ?_ s hs
    · exact reportUndefined_confined _ _ _
    · have hfields (kind : ScopeKind) := fieldPatterns_confined (kind :: shape)
        (List.mem_cons_of_mem kind hkind) fields
      refine (withScope_confined (hfields _)).andThen fun _ => ?_
      exact (recordReference_confined _).andThen fun _ => Confined.done _
theorem fieldPattern_confined (shape : List ScopeKind) (hkind : .case ∈ shape) :
    ∀ node : FieldPattern Unit, Confined lower shape (fieldPattern node) fun _ => True
  | ⟨here, field, inner⟩ =>
    (checkField_confined here.range field).andThen fun _ =>
      optionalPattern_confined shape hkind here field inner
theorem optionalPattern_confined (shape : List ScopeKind) (hkind : .case ∈ shape)
    (here : Located Unit) (field : String) : ∀ inner : Option (Pattern Unit),
      Confined lower shape (optionalPattern here field inner) fun _ => True
  | none => (bindLocal_confined hkind field here.range).andThen fun _ => Confined.done _
  | some inner => (pattern_confined shape hkind inner).andThen fun _ => Confined.done _
theorem fieldPatterns_confined (shape : List ScopeKind) (hkind : .case ∈ shape) :
    ∀ fields : List (FieldPattern Unit),
      Confined lower shape (fieldPatterns fields) fun _ => True
  | [] => Confined.done []
  | field :: rest =>
    (fieldPattern_confined shape hkind field).andThen fun _ =>
      (fieldPatterns_confined shape hkind rest).andThen fun _ => Confined.done _
end

mutual
theorem expr_confined (shape : List ScopeKind) :
    ∀ node : Expr Unit, Confined lower shape (expr node) fun _ => True
  | .block _ bindings result =>
    withScope_confined <|
      (localBindings_confined _ List.mem_cons_self bindings).andThen fun _ =>
        (optionalExpr_confined _ result).andThen fun _ => Confined.done _
  | .conditional _ condition consequent alternative =>
    (expr_confined shape condition).andThen fun _ =>
      (expr_confined shape consequent).andThen fun _ =>
        (expr_confined shape alternative).andThen fun _ => Confined.done _
  | .lambda _ _ body =>
    withScope_confined <|
      (Confined.mapM fun node _ => param_confined List.mem_cons_self node).andThen fun _ =>
        (expr_confined _ body).andThen fun _ => Confined.done _
  | .cases _ scrutinee cases =>
    (expr_confined shape scrutinee).andThen fun _ =>
      (caseList_confined shape cases).andThen fun _ => Confined.done _
  | .apply _ function args =>
    (expr_confined shape function).andThen fun _ =>
      (exprs_confined shape args).andThen fun _ => Confined.done _
  | .select _ receiver selection =>
    (expr_confined shape receiver).andThen fun _ =>
      (reference_confined selection).andThen fun _ => Confined.done _
  | .reference node => (reference_confined node).andThen fun _ => Confined.done _
  | .binary _ _ left right =>
    (expr_confined shape left).andThen fun _ =>
      (expr_confined shape right).andThen fun _ => Confined.done _
  | .unary _ _ operand => (expr_confined shape operand).andThen fun _ => Confined.done _
  | .literal _ _ => Confined.done _
theorem optionalExpr_confined (shape : List ScopeKind) : ∀ node : Option (Expr Unit),
    Confined lower shape (optionalExpr node) fun _ => True
  | none => Confined.done none
  | some node => (expr_confined shape node).andThen fun _ => Confined.done _
theorem exprs_confined (shape : List ScopeKind) :
    ∀ nodes : List (Expr Unit), Confined lower shape (exprs nodes) fun _ => True
  | [] => Confined.done []
  | node :: rest =>
    (expr_confined shape node).andThen fun _ =>
      (exprs_confined shape rest).andThen fun _ => Confined.done _
theorem localBinding_confined (shape : List ScopeKind) (hkind : .block ∈ shape) :
    ∀ node : Binding Unit, Confined lower shape (localBinding node) fun _ => True
  | ⟨here, name, type, value⟩ =>
    (bindLocal_confined hkind name here.range).andThen fun _ =>
      (ascription_confined type).andThen fun _ =>
        (expr_confined shape value).andThen fun _ => Confined.done _
theorem localBindings_confined (shape : List ScopeKind) (hkind : .block ∈ shape) :
    ∀ nodes : List (Binding Unit), Confined lower shape (localBindings nodes) fun _ => True
  | [] => Confined.done []
  | node :: rest =>
    (localBinding_confined shape hkind node).andThen fun _ =>
      (localBindings_confined shape hkind rest).andThen fun _ => Confined.done _
theorem caseNode_confined (shape : List ScopeKind) :
    ∀ node : Case Unit, Confined lower shape (caseNode node) fun _ => True
  | ⟨_, inner, body⟩ =>
    withScope_confined <|
      (pattern_confined _ List.mem_cons_self inner).andThen fun _ =>
        (expr_confined _ body).andThen fun _ => Confined.done _
theorem caseList_confined (shape : List ScopeKind) :
    ∀ nodes : List (Case Unit), Confined lower shape (caseList nodes) fun _ => True
  | [] => Confined.done []
  | node :: rest =>
    (caseNode_confined shape node).andThen fun _ =>
      (caseList_confined shape rest).andThen fun _ => Confined.done _
end

/-! ## Declarations -/

theorem constructorParam_confined (name : ConstructorName) (node : ConstructorParam Unit) :
    Confined lower shape (constructorParam name node) fun _ => True :=
  (typeNode_confined shape node.ascription).andThen fun _ => Confined.done _

theorem constructor_confined (data : QualifiedName) (node : Constructor Unit) :
    Confined lower shape (constructor data node) fun _ => True := by
  refine (addEdge_confined _ _).andThen fun _ => (addEdge_confined _ _).andThen fun _ => ?_
  refine withScope_confined ((Confined.mapM fun param _ => ?_).andThen fun _ => ?_)
  · exact constructorParam_confined _ param
  · exact (ascription_confined node.result).andThen fun _ => Confined.done _

theorem data_confined {ns : NamespaceName} (hns : .ns ns ∈ shape) (node : Data Unit) :
    Confined lower shape (data node) fun _ => True := by
  refine (currentNamespace_confined hns).andThen fun _ => ?_
  refine withBinders_confined _ node.typeParams ?_
  refine (typeVars_confined node.typeParams).andThen fun _ => ?_
  exact (Confined.mapM fun inner _ => constructor_confined _ inner).andThen fun _ =>
    Confined.done _

theorem topLevelBinding_confined {ns : NamespaceName} (hns : .ns ns ∈ shape)
    (node : Binding Unit) : Confined lower shape (topLevelBinding node) fun _ => True := by
  refine (currentNamespace_confined hns).andThen fun _ => withScope_confined ?_
  exact (ascription_confined node.ascription).andThen fun _ =>
    (expr_confined _ node.value).andThen fun _ => Confined.done _

theorem functionBinding_confined {ns : NamespaceName} (hns : .ns ns ∈ shape)
    (node : FunctionBinding Unit) :
    Confined lower shape (functionBinding node) fun _ => True := by
  refine (currentNamespace_confined hns).andThen fun _ => ?_
  refine withBinders_confined _ node.typeParams (withScope_confined ?_)
  refine (typeVars_confined node.typeParams).andThen fun _ => ?_
  refine (Confined.mapM fun inner _ => param_confined List.mem_cons_self inner).andThen ?_
  intro _
  exact (ascription_confined node.result).andThen fun _ =>
    (expr_confined _ node.body).andThen fun _ => Confined.done _

theorem declaration_confined {ns : NamespaceName} (hns : .ns ns ∈ shape)
    (node : Declaration Unit) : Confined lower shape (declaration node) fun _ => True := by
  have hnumbered : Confined lower shape (modify fun s => { s with nextLocal := 0 })
      fun _ => True :=
    fun s hs => ⟨(), { s with nextLocal := 0 }, Log.empty, True.intro, hs, rfl, rfl,
      fun log _ => by rw [Log.append_empty]; rfl⟩
  refine hnumbered.andThen fun _ => ?_
  cases node with
  | data d => exact (data_confined hns d).andThen fun _ => Confined.done _
  | binding d => exact (topLevelBinding_confined hns d).andThen fun _ => Confined.done _
  | function d => exact (functionBinding_confined hns d).andThen fun _ => Confined.done _

/-! ## Namespaces -/

theorem populateConstructor_detached (data : QualifiedName) (frame : Frame (Located Name))
    (node : Constructor Unit) :
    Detached (populateConstructor data frame node) fun frame' => frame'.kind = frame.kind := by
  refine (defineValue_detached frame node.name _).bind fun frame₁ hframe₁ => ?_
  refine Detached.foldlM ?_ fun frame₂ hframe₂ param _ => ?_
  · rw [populateType_kind, populateType_kind, (populateValue_types _ _ _).2, hframe₁]
  · rw [← hframe₂]
    exact defineField_detached frame₂ _ _ _

theorem populateDeclaration_detached (ns : NamespaceName) (frame : Frame (Located Name))
    (node : Declaration Unit) :
    Detached (populateDeclaration ns frame node) fun frame' => frame'.kind = frame.kind := by
  have hvalue (here : Located Name) : Detached (do
      let frame ← defineValue frame node.name here
      pure (frame.populateValue (QualifiedName.canonical ⟨ns, node.name⟩) here))
      fun frame' => frame'.kind = frame.kind := by
    refine (defineValue_detached frame node.name _).bind fun frame₁ hframe₁ => Detached.pure ?_
    rw [(populateValue_types _ _ _).2, hframe₁]
  cases node with
  | binding d => exact hvalue _
  | function d => exact hvalue _
  | data d =>
    refine (defineType_detached frame d.name _).bind fun frame₁ hframe₁ => ?_
    refine Detached.foldlM ?_ fun frame₂ hframe₂ inner _ => ?_
    · rw [populateType_kind, hframe₁]
    · rw [← hframe₂]
      exact populateConstructor_detached _ frame₂ inner

theorem populate_detached (ns : Namespace Unit) :
    Detached (populate ns) fun frame => frame.kind = .ns ns.id.name :=
  Detached.foldlM rfl fun frame hframe node _ => by
    rw [← hframe]
    exact populateDeclaration_detached ns.id.name frame node

/-- Where the local names were numbered to before makes no difference to any declaration. -/
theorem declarations_renumbered (nodes : List (Declaration Unit)) (s : Resolver)
    {trees : List (Declaration Name)} {t : Resolver}
    (hrun : nodes.mapM declaration { s with nextLocal := 0 } = .ok trees t) :
    ∃ next, nodes.mapM declaration s = .ok trees { t with nextLocal := next } := by
  cases nodes with
  | nil =>
    cases hrun
    exact ⟨s.nextLocal, rfl⟩
  | cons node rest =>
    rw [List.mapM_cons] at hrun ⊢
    exact ⟨t.nextLocal, hrun⟩

/-- What a namespace is resolved to: its tree, its dependencies and its top-level bindings. -/
def outcome (ns : Namespace Unit) :
    Resolve (Namespace Name × DeclarationGraph × Option (Frame (Located Name))) := do
  let tree ← namespaceNode ns
  let s ← get
  pure (tree, s.graph, s.topLevel)

/-- A namespace has one outcome over one stack, and the stack is left as it was. -/
theorem exists_outcome (ns : Namespace Unit) (uri : String) (stack : Stack (Located Name)) :
    ∃ result : Namespace Name × DeclarationGraph × Option (Frame (Located Name)),
      ∀ s : Resolver, s.uri = uri → s.stack = stack → ∃ t,
        namespaceNode ns s = .ok result.1 t ∧ outcome ns s = .ok result t ∧
          t.uri = uri ∧ t.stack = stack := by
  obtain ⟨frame, reports, hframe, hpopulate⟩ := populate_detached ns uri
  let s₁ := Resolver.start uri (stack.push frame)
  have hover₁ : s₁.stack.Over stack.frames [.ns ns.id.name] :=
    ⟨[frame], rfl, congrArg (fun kind => [kind]) hframe⟩
  have hconfined : Confined stack.frames [.ns ns.id.name] (ns.declarations.mapM Resolve.declaration)
      fun _ => True :=
    Confined.mapM fun node _ => declaration_confined List.mem_cons_self node
  obtain ⟨trees, t, reports', -, ⟨upper, hframes, hupper⟩, hbuiltIns, huri, hnodes⟩ :=
    hconfined s₁ hover₁
  obtain ⟨top, rest, rfl, htop, hrest⟩ := List.map_eq_cons_iff.1 hupper
  obtain rfl := List.map_eq_nil_iff.1 hrest
  have htag : top.tag = .ns := by
    rw [Frame.tag, htop]
    rfl
  have hpop := Stack.pop_eq_ok hframes htag
  refine ⟨(⟨⟨ns.here.range, .ns ns.id.name⟩, ns.id, ns.imports, t.graph.groups trees⟩, t.graph,
    some top), ?_⟩
  rintro s rfl rfl
  obtain ⟨next, hdeclarations⟩ := declarations_renumbered ns.declarations
    { s with
      log := s.log.append reports, stack := s.stack.push frame
      graph := DeclarationGraph.empty } (hnodes (s.log.append reports) s.topLevel)
  have hfilled := hpopulate { s with graph := DeclarationGraph.empty } rfl
  have hrest : t.stack.builtIns = s.stack.builtIns := hbuiltIns
  rw [hrest] at hpop
  let inside : Resolver := { t with
    log := (s.log.append reports).append reports', topLevel := s.topLevel, nextLocal := next }
  have hpopped : Run.within Resolver.stack (fun stack s => { s with stack := stack })
      (Stack.pop .ns) inside = .ok top { inside with stack := s.stack } := Run.within_ok hpop
  let done : Resolver := { t with
    log := (s.log.append reports).append reports', stack := s.stack, topLevel := some top
    nextLocal := next }
  have hrun : namespaceNode ns s = .ok ⟨⟨ns.here.range, .ns ns.id.name⟩, ns.id, ns.imports,
      t.graph.groups trees⟩ done := by
    refine (Run.ok_bind rfl).trans ((Run.ok_bind hfilled).trans ((Run.ok_bind rfl).trans ?_))
    refine (Run.ok_bind hdeclarations).trans ((Run.ok_bind hpopped).trans rfl)
  refine ⟨done, hrun, ?_, huri, rfl⟩
  show EStateM.bind (namespaceNode ns) _ s = _
  rw [EStateM.bind, hrun]
  rfl

/-- Namespaces resolved one after the other have the outcomes that each of them has alone. -/
theorem outcomes_run (uri : String) (stack : Stack (Located Name))
    (namespaces : List (Namespace Unit)) (s : Resolver) (huri : s.uri = uri)
    (hstack : s.stack = stack) :
    ∃ results t, namespaces.mapM outcome s = .ok results t ∧ t.stack = stack ∧
      List.Forall₂ (fun ns result => ∃ u, outcome ns (Resolver.start uri stack) = .ok result u)
        namespaces results := by
  induction namespaces generalizing s with
  | nil => exact ⟨[], s, rfl, hstack, .nil⟩
  | cons ns rest ih =>
    obtain ⟨result, hresult⟩ := exists_outcome ns uri stack
    obtain ⟨s₁, -, hrun, huri₁, hstack₁⟩ := hresult s huri hstack
    obtain ⟨u, -, halone, -, -⟩ := hresult (Resolver.start uri stack) rfl rfl
    obtain ⟨results, t, hrest, ht, hall⟩ := ih s₁ huri₁ hstack₁
    refine ⟨result :: results, t, ?_, ht, .cons ⟨u, halone⟩ hall⟩
    rw [List.mapM_cons]
    show EStateM.bind (outcome ns) _ s = _
    rw [EStateM.bind, hrun]
    show EStateM.bind (rest.mapM outcome) _ s₁ = _
    rw [EStateM.bind, hrest]
    rfl

end Trees

end Resolve

/-- A namespace and an expression are resolved without a fault, and the stack of scopes is left
exactly as it was.  In a row of namespaces each one has the tree, the dependencies and the
top-level bindings that a new resolver over the same stack gives it. -/
theorem Resolver.leaves_environment (s : Resolver) :
    (∀ ns, ∃ tree t, Resolve.namespaceNode ns s = .ok tree t ∧ t.stack = s.stack) ∧
    (∀ e, ∃ tree t, Resolve.expr e s = .ok tree t ∧ t.stack = s.stack) ∧
    ∀ namespaces, ∃ results t,
      namespaces.mapM Resolve.outcome s = .ok results t ∧ t.stack = s.stack ∧
        List.Forall₂ (fun ns result => ∃ u,
          Resolve.outcome ns (Resolver.start s.uri s.stack) = .ok result u) namespaces results := by
  refine ⟨fun ns => ?_, fun e => ?_, fun namespaces => ?_⟩
  · obtain ⟨result, hresult⟩ := Resolve.exists_outcome ns s.uri s.stack
    obtain ⟨t, hrun, -, -, hstack⟩ := hresult s rfl rfl
    exact ⟨result.1, t, hrun, hstack⟩
  · obtain ⟨tree, t, reports, -, ⟨upper, hframes, hupper⟩, hbuiltIns, -, hrun⟩ :=
      Resolve.expr_confined [] e s ⟨[], rfl, rfl⟩
    obtain rfl := List.map_eq_nil_iff.1 hupper
    refine ⟨tree, t.recall (s.log.append reports) s.topLevel, hrun s.log s.topLevel, ?_⟩
    show Stack.mk t.stack.frames t.stack.builtIns = s.stack
    rw [hframes, hbuiltIns]
    rfl
  · exact Resolve.outcomes_run s.uri s.stack namespaces s rfl rfl

end PolyFront
