import PolyFront.Proofs.Dependencies.References

/-!
# Resolution depends on bindings only

Two resolvers are beside each other when their frames are the same but for the outermost one, and
the outermost frames bind the same.  Resolution cannot tell them apart: it gives the same tree,
reports the same, and leaves resolvers beside each other.  The log and the dependencies that were
recorded before do not matter.
-/

namespace PolyFront

/-- The frames belong to the same construct and bind the same. -/
structure Frame.Same (frame frame' : Frame (Located Name)) : Prop where
  kind : frame.kind = frame'.kind
  value? : ∀ key, frame.value? key = frame'.value? key
  type? : ∀ key, frame.type? key = frame'.type? key
  field? : ∀ constructor key, frame.field? constructor key = frame'.field? constructor key

theorem Frame.Same.refl (frame : Frame (Located Name)) : frame.Same frame :=
  ⟨rfl, fun _ => rfl, fun _ => rfl, fun _ _ => rfl⟩

namespace Resolve

/-- Two outermost frames that belong to a namespace and bind the same. -/
structure Bases (base base' : Frame (Located Name)) : Prop extends base.Same base' where
  tag : base.tag = .ns

/-- The same frames lie over the one and the other outermost frame. -/
structure Beside (base base' : Frame (Located Name)) (upper : List (Frame (Located Name)))
    (s s' : Resolver) : Prop where
  left : s.stack.frames = upper ++ [base]
  right : s'.stack.frames = upper ++ [base']
  builtIns : s.stack.builtIns = s'.stack.builtIns
  uri : s.uri = s'.uri
  nextLocal : s.nextLocal = s'.nextLocal

/-- Two runs fault alike, or give the same and report the same. -/
inductive Alike {α : Type} (base base' : Frame (Located Name))
    (upper : List (Frame (Located Name))) (s s' : Resolver) :
    EStateM.Result Fault Resolver α → EStateM.Result Fault Resolver α → Prop
  | ok {a : α} {t t' : Resolver} {upper' : List (Frame (Located Name))}
      (reports : List Diagnostic) (hkinds : upper'.map Frame.kind = upper.map Frame.kind)
      (hbeside : Beside base base' upper' t t')
      (hkept : t.uri = s.uri ∧ t.stack.builtIns = s.stack.builtIns)
      (hleft : t.log.items = s.log.items ++ reports)
      (hright : t'.log.items = s'.log.items ++ reports) :
      Alike base base' upper s s' (.ok a t) (.ok a t')
  | error {fault fault' : Fault} {t t' : Resolver} :
      Alike base base' upper s s' (.error fault t) (.error fault' t')

/-- The runs are alike from resolvers that are beside each other. -/
def Follows {α : Type} (base base' : Frame (Located Name)) (run : Resolve α) : Prop :=
  ∀ upper s s', Beside base base' upper s s' → Alike base base' upper s s' (run s) (run s')

section Rules

variable {α β : Type} {base base' : Frame (Located Name)} {upper : List (Frame (Located Name))}
  {s s' : Resolver}

theorem Alike.pure (h : Beside base base' upper s s') (a : α) :
    Alike base base' upper s s' ((Pure.pure a : Resolve α) s) ((Pure.pure a : Resolve α) s') :=
  .ok [] rfl h ⟨rfl, rfl⟩ (List.append_nil _).symm (List.append_nil _).symm

theorem Alike.bind {run run' : Resolve α} {next next' : α → Resolve β}
    (h : Alike base base' upper s s' (run s) (run' s'))
    (hnext : ∀ a upper' t t', run s = .ok a t → upper'.map Frame.kind = upper.map Frame.kind →
      Beside base base' upper' t t' → Alike base base' upper' t t' (next a t) (next' a t')) :
    Alike base base' upper s s' ((run >>= next) s) ((run' >>= next') s') := by
  show Alike base base' upper s s' (EStateM.bind run next s) (EStateM.bind run' next' s')
  rw [EStateM.bind, EStateM.bind]
  generalize hrun : run s = result at h
  generalize run' s' = result' at h
  cases h with
  | error => exact .error
  | @ok a t t' upper' reports hkinds hbeside hkept hleft hright =>
    have hrest := hnext a upper' t t' hrun hkinds hbeside
    dsimp only
    generalize next a t = result, next' a t' = result' at hrest
    cases hrest with
    | error => exact .error
    | ok reports' hkinds' hbeside' hkept' hleft' hright' =>
      refine .ok (reports ++ reports') (hkinds'.trans hkinds) hbeside'
        ⟨hkept'.1.trans hkept.1, hkept'.2.trans hkept.2⟩ ?_ ?_
      · rw [hleft', hleft, List.append_assoc]
      · rw [hright', hright, List.append_assoc]

theorem Follows.pure (a : α) : Follows base base' (Pure.pure a : Resolve α) :=
  fun _ _ _ h => Alike.pure h a

theorem Follows.bind {run : Resolve α} {next : α → Resolve β} (h : Follows base base' run)
    (hnext : ∀ a, Follows base base' (next a)) : Follows base base' (run >>= next) :=
  fun upper s s' hs => (h upper s s' hs).bind fun a upper' t t' _ _ ht => hnext a upper' t t' ht

/-- What is done with the state does not tell apart resolvers that are beside each other. -/
theorem Follows.get {next : Resolver → Resolve β}
    (hsame : ∀ upper s s', Beside base base' upper s s' → next s = next s')
    (h : ∀ s, Follows base base' (next s)) : Follows base base' (MonadState.get >>= next) := by
  intro upper s s' hs
  show Alike base base' upper s s' (next s s) (next s' s')
  rw [hsame upper s s' hs]
  exact h s' upper s s' hs

/-- A change of what does not matter. -/
theorem Follows.modify {f : Resolver → Resolver} (h : ∀ s, (f s).stack = s.stack ∧
    (f s).uri = s.uri ∧ (f s).nextLocal = s.nextLocal ∧ (f s).log = s.log) :
    Follows base base' (MonadStateOf.modifyGet fun s => (PUnit.unit, f s) : Resolve PUnit) := by
  intro upper s s' hs
  obtain ⟨hstack, huri, hnext, hlog⟩ := h s
  obtain ⟨hstack', huri', hnext', hlog'⟩ := h s'
  refine .ok [] rfl ⟨?_, ?_, ?_, ?_, ?_⟩ ⟨huri, by rw [hstack]⟩ ?_ ?_
  · rw [hstack, hs.left]
  · rw [hstack', hs.right]
  · rw [hstack, hstack', hs.builtIns]
  · rw [huri, huri', hs.uri]
  · rw [hnext, hnext', hs.nextLocal]
  · rw [hlog, List.append_nil]
  · rw [hlog', List.append_nil]

theorem Follows.mapM {run : α → Resolve β} {items : List α}
    (h : ∀ item ∈ items, Follows base base' (run item)) :
    Follows base base' (items.mapM run) := by
  induction items with
  | nil => exact Follows.pure []
  | cons item rest ih =>
    rw [List.mapM_cons]
    refine (h item List.mem_cons_self).bind fun b => ?_
    exact (ih fun other hother => h other (List.mem_cons_of_mem _ hother)).bind fun bs =>
      Follows.pure (b :: bs)

theorem Follows.foldlM {run : β → α → Resolve β} {items : List α} {start : β}
    (h : ∀ b, ∀ item ∈ items, Follows base base' (run b item)) :
    Follows base base' (items.foldlM run start) := by
  induction items generalizing start with
  | nil => exact Follows.pure start
  | cons item rest ih =>
    rw [List.foldlM_cons]
    exact (h start item List.mem_cons_self).bind fun b =>
      ih fun b other hother => h b other (List.mem_cons_of_mem _ hother)

end Rules

/-! ## The stack -/

section Stacks

variable {base base' : Frame (Located Name)} {upper : List (Frame (Located Name))}
  {s s' : Resolver}

theorem Beside.lookup {β : Type} (h : Beside base base' upper s s')
    {get : Frame (Located Name) → Option β} (hget : get base = get base') :
    s.stack.lookup get = s'.stack.lookup get := by
  rw [Stack.lookup, Stack.lookup, h.left, h.right, h.builtIns, List.findSome?_append,
    List.findSome?_append, List.findSome?_cons, List.findSome?_cons, hget]

/-- Nothing but the kinds of frames tells which constructs enclose a place. -/
theorem Beside.enclosing (h : Beside base base' upper s s') (hkind : base.kind = base'.kind)
    (tag : ScopeTag) : (s.stack.enclosing? tag).map Frame.kind =
      (s'.stack.enclosing? tag).map Frame.kind := by
  have hbase : ∀ frame : Frame (Located Name), ([frame].find? fun f => f.tag == tag).map
      Frame.kind = if frame.kind.tag == tag then some frame.kind else none := by
    intro frame
    rw [List.find?_cons, Frame.tag]
    cases frame.kind.tag == tag <;> rfl
  rw [Stack.enclosing?, Stack.enclosing?, h.left, h.right, List.find?_append,
    List.find?_append, Option.map_or, Option.map_or, hbase, hbase, hkind]

theorem Beside.enclosing_bind {β : Type} (h : Beside base base' upper s s')
    (hkind : base.kind = base'.kind) (tag : ScopeTag) {get : Frame (Located Name) → Option β}
    (hget : ∀ frame frame', frame.kind = frame'.kind → get frame = get frame') :
    (s.stack.enclosing? tag).bind get = (s'.stack.enclosing? tag).bind get := by
  have heq := h.enclosing hkind tag
  cases hfound : s.stack.enclosing? tag with
  | none =>
    rw [hfound, Option.map_none, eq_comm, Option.map_eq_none_iff] at heq
    rw [heq]
  | some frame =>
    rw [hfound, Option.map_some, eq_comm, Option.map_eq_some_iff] at heq
    obtain ⟨frame', hfound', hkinds⟩ := heq
    rw [hfound']
    exact hget frame frame' hkinds.symm

theorem Beside.enclosingNamespace? (h : Beside base base' upper s s')
    (hkind : base.kind = base'.kind) :
    s.stack.enclosingNamespace? = s'.stack.enclosingNamespace? :=
  h.enclosing_bind hkind .ns fun _ _ heq => by simp only [heq]

theorem Beside.enclosingConstructorPattern? (h : Beside base base' upper s s')
    (hkind : base.kind = base'.kind) :
    s.stack.enclosingConstructorPattern? = s'.stack.enclosingConstructorPattern? :=
  h.enclosing_bind hkind .constructorPattern fun _ _ heq => by simp only [heq]

theorem Beside.enclosingDeclaration? (h : Beside base base' upper s s')
    (hkind : base.kind = base'.kind) :
    s.stack.enclosingDeclaration? = s'.stack.enclosingDeclaration? := by
  rw [Stack.enclosingDeclaration?, Stack.enclosingDeclaration?, h.left, h.right,
    List.findSome?_append, List.findSome?_append, List.findSome?_cons, List.findSome?_cons, hkind]

theorem Beside.value? (h : Beside base base' upper s s') (hsame : base.Same base')
    (key : String) : s.stack.value? key = s'.stack.value? key :=
  h.lookup (hsame.value? key)

theorem Beside.type? (h : Beside base base' upper s s') (hsame : base.Same base')
    (key : String) : s.stack.type? key = s'.stack.type? key :=
  h.lookup (hsame.type? key)

theorem Beside.field? (h : Beside base base' upper s s') (hsame : base.Same base')
    (constructor : ConstructorName) (key : String) :
    s.stack.field? constructor key = s'.stack.field? constructor key :=
  h.lookup (hsame.field? constructor key)

end Stacks

/-! ## Reports and references -/

section Steps

variable {base base' : Frame (Located Name)} {upper : List (Frame (Located Name))}
  {s s' : Resolver}

theorem Follows.fault {α : Type} (fault : Fault) :
    Follows base base' (throw fault : Resolve α) := fun _ _ _ _ => .error

theorem Follows.ite {α : Type} {c : Prop} [Decidable c] {run run' : Resolve α}
    (h : c → Follows base base' run) (h' : ¬c → Follows base base' run') :
    Follows base base' (if c then run else run') := by
  split
  · exact h ‹_›
  · exact h' ‹_›

theorem Follows.whenThen {α : Type} {c : Prop} [Decidable c] {run : Resolve PUnit}
    {next : Resolve α} (h : Follows base base' run) (hnext : Follows base base' next) :
    Follows base base' (do
      if c then run
      next) :=
  .ite (fun _ => h.bind fun _ => hnext) fun _ => (Follows.pure PUnit.unit).bind fun _ => hnext

theorem reportError_follows (range : Range) (message : String) (related : List Note) :
    Follows base base' (reportError range message related) := fun upper s s' h =>
  .ok [⟨⟨s.uri, range⟩, .error, message, related⟩] rfl
    ⟨h.left, h.right, h.builtIns, h.uri, h.nextLocal⟩ ⟨rfl, rfl⟩ rfl (by rw [h.uri]; rfl)

theorem reportDuplicate_follows (what : String) (proposed existing : Range) :
    Follows base base' (reportDuplicate what proposed existing) :=
  Follows.get (fun _ _ _ h => by rw [h.uri]) fun _ => reportError_follows _ _ _

theorem reportUndefined_follows (what : String) (range : Range) (name : String) :
    Follows base base' (reportUndefined what range name) :=
  reportError_follows _ _ _

theorem defineValue_follows (frame : Frame (Located Name)) (name : String)
    (here : Located Name) : Follows base base' (defineValue frame name here) := by
  unfold defineValue
  split
  · exact (reportDuplicate_follows _ _ _).bind fun _ => Follows.pure _
  · exact Follows.pure _

theorem defineType_follows (frame : Frame (Located Name)) (name : String)
    (here : Located Name) : Follows base base' (defineType frame name here) := by
  unfold defineType
  split
  · exact (reportDuplicate_follows _ _ _).bind fun _ => Follows.pure _
  · exact Follows.pure _

theorem addEdge_follows (source target : DeclarationName) :
    Follows base base' (addEdge source target) :=
  Follows.modify fun _ => ⟨rfl, rfl, rfl, rfl⟩

theorem currentNamespace_follows (hbases : Bases base base') :
    Follows base base' currentNamespace := by
  refine Follows.get (fun _ _ _ h => by rw [h.enclosingNamespace? hbases.kind]) fun s => ?_
  split
  · exact Follows.pure _
  · exact Follows.fault _

theorem recordReference_follows (hbases : Bases base base') (name : Name) :
    Follows base base' (recordReference name) := by
  unfold recordReference
  split
  · exact Follows.pure _
  · refine Follows.get (fun upper s s' h => ?_) fun s => Follows.ite (fun _ => ?_) fun _ =>
      Follows.pure _
    · dsimp only
      rw [h.enclosingNamespace? hbases.kind, h.enclosingDeclaration? hbases.kind]
    · split
      · exact addEdge_follows _ _
      · exact Follows.pure _

theorem resolveValue_follows (hbases : Bases base base') (range : Range) (id : QualifiedId) :
    Follows base base' (resolveValue range id) := by
  refine Follows.get (fun upper s s' h => ?_) fun s => ?_
  · rw [h.value? hbases.toSame]
  · split
    · exact (recordReference_follows hbases _).bind fun _ => Follows.pure _
    · exact (reportUndefined_follows _ _ _).bind fun _ => Follows.pure _

theorem resolveType_follows (hbases : Bases base base') (range : Range) (id : QualifiedId) :
    Follows base base' (resolveType range id) := by
  refine Follows.get (fun upper s s' h => ?_) fun s => ?_
  · rw [h.type? hbases.toSame]
  · split
    · exact (recordReference_follows hbases _).bind fun _ => Follows.pure _
    · exact (reportUndefined_follows _ _ _).bind fun _ => Follows.pure _

/-- A frame that is pushed around a run is popped again. -/
theorem withFrame_follows {α : Type} {frame : Frame (Located Name)} {body : Resolve α}
    (hbody : Follows base base' body) : Follows base base' (withFrame frame body) := by
  intro upper s s' h
  have hpushed : Beside base base' (frame :: upper) { s with stack := s.stack.push frame }
      { s' with stack := s'.stack.push frame } :=
    ⟨congrArg _ h.left, congrArg _ h.right, h.builtIns, h.uri, h.nextLocal⟩
  have hrest := hbody _ _ _ hpushed
  show Alike base base' upper s s'
    (EStateM.bind body (fun result => EStateM.bind (Run.within Resolver.stack
      (fun stack s => { s with stack := stack }) (Stack.pop frame.tag)) fun _ =>
        EStateM.pure result) { s with stack := s.stack.push frame })
    (EStateM.bind body (fun result => EStateM.bind (Run.within Resolver.stack
      (fun stack s => { s with stack := stack }) (Stack.pop frame.tag)) fun _ =>
        EStateM.pure result) { s' with stack := s'.stack.push frame })
  rw [EStateM.bind, EStateM.bind]
  generalize body { s with stack := s.stack.push frame } = result,
    body { s' with stack := s'.stack.push frame } = result' at hrest
  cases hrest with
  | error => exact .error
  | @ok a t t' upper' reports hkinds hbeside hkept hleft hright =>
    obtain ⟨top, rest, rfl, hkind, hkinds⟩ := List.map_eq_cons_iff.1 hkinds
    have htag : top.tag = frame.tag := by rw [Frame.tag, Frame.tag, hkind]
    have hpop := Stack.pop_eq_ok hbeside.left htag
    have hpop' := Stack.pop_eq_ok hbeside.right htag
    simp only [EStateM.bind, Run.within, hpop, hpop', EStateM.pure]
    exact .ok reports hkinds ⟨rfl, rfl, hbeside.builtIns, hbeside.uri, hbeside.nextLocal⟩
      hkept hleft hright

theorem withScope_follows {α : Type} {kind : ScopeKind} {body : Resolve α}
    (hbody : Follows base base' body) : Follows base base' (withScope kind body) :=
  withFrame_follows hbody

/-- A frame above the outermost one is changed. -/
theorem updateFirst_append {test : Frame (Located Name) → Bool}
    (f : Frame (Located Name) → Frame (Located Name)) {found : Frame (Located Name)}
    (rest : List (Frame (Located Name))) (h : upper.find? test = some found) :
    Stack.updateFirst test f (upper ++ rest) = Stack.updateFirst test f upper ++ rest := by
  induction upper with
  | nil => cases h
  | cons frame frames ih =>
    rw [List.cons_append, Stack.updateFirst, Stack.updateFirst]
    cases htest : test frame with
    | true => rfl
    | false =>
      rw [List.find?_cons, htest] at h
      rw [if_neg Bool.false_ne_true, if_neg Bool.false_ne_true, ih h]
      rfl

/-- Bind a local name in the frame that was found for it. -/
def bindFound (target : ScopeTag) (name : String) (here : Located Name) :
    Option (Frame (Located Name)) → Resolve (Located Name)
  | some frame => do
    let frame ← defineValue frame name here
    modify fun s => { s with stack := s.stack.updateEnclosing target fun _ => frame }
    pure here
  | none => throw (.noBinder target name)

/-- Local names are never bound in the outermost frame. -/
theorem bindLocal_follows (hbases : Bases base base') {target : ScopeTag}
    (htarget : (target == .ns) = false) (name : String) (range : Range) :
    Follows base base' (bindLocal target name range) := by
  intro upper s s' h
  have hbase : ∀ frame : Frame (Located Name), frame.tag = .ns →
      (upper ++ [frame]).find? (fun frame => frame.tag == target) =
        upper.find? fun frame => frame.tag == target := by
    intro frame hframe
    rw [List.find?_append, List.find?_cons, hframe, beq_false_of_ne (ne_of_beq_false htarget).symm]
    exact Option.or_none
  have htag' : base'.tag = .ns := by rw [← hbases.tag, Frame.tag, Frame.tag, hbases.kind]
  have hcounted : Beside base base' upper { s with nextLocal := s.nextLocal + 1 }
      { s' with nextLocal := s'.nextLocal + 1 } :=
    ⟨h.left, h.right, h.builtIns, h.uri, congrArg (· + 1) h.nextLocal⟩
  let here : Located Name := ⟨range, .bound name s.nextLocal⟩
  let bindIn := bindFound target name here
  have hrun : bindLocal target name range s = bindIn (upper.find? fun f => f.tag == target)
      { s with nextLocal := s.nextLocal + 1 } := by
    rw [← hbase base hbases.tag, ← h.left]
    rfl
  have hrun' : bindLocal target name range s' = bindIn (upper.find? fun f => f.tag == target)
      { s' with nextLocal := s'.nextLocal + 1 } := by
    rw [← hbase base' htag', ← h.right]
    show _ = bindIn (s'.stack.enclosing? target) _
    simp only [bindIn, here, h.nextLocal]
    rfl
  have hbound : Alike base base' upper { s with nextLocal := s.nextLocal + 1 }
      { s' with nextLocal := s'.nextLocal + 1 }
      (bindIn (upper.find? fun f => f.tag == target) { s with nextLocal := s.nextLocal + 1 })
      (bindIn (upper.find? fun f => f.tag == target)
        { s' with nextLocal := s'.nextLocal + 1 }) := by
    cases hfound : upper.find? fun f => f.tag == target with
    | none => exact .error
    | some frame =>
      refine (defineValue_follows frame name here upper _ _ hcounted).bind ?_
      intro frame' upper' t t' hdefined _ ht
      obtain ⟨hkind, hstack, -⟩ := defineValue_quiet frame name here _ _ _ hdefined
      obtain rfl : upper' = upper := by
        have hframes := ht.left
        rw [hstack] at hframes
        exact (List.append_cancel_right (hframes.symm.trans h.left))
      have hupdate : ∀ rest : List (Frame (Located Name)),
          Stack.updateFirst (fun f => f.tag == target) (fun _ => frame') (upper' ++ rest) =
            Stack.updateFirst (fun f => f.tag == target) (fun _ => frame') upper' ++ rest :=
        fun rest => updateFirst_append _ rest hfound
      have hkinds : (Stack.updateFirst (fun f => f.tag == target) (fun _ => frame') upper').map
          Frame.kind = upper'.map Frame.kind := by
        refine map_kind_updateFirst fun other _ hother => ?_
        obtain rfl := Option.some.inj (hfound.symm.trans hother)
        exact hkind
      exact .ok [] hkinds ⟨(congrArg _ ht.left).trans (hupdate _),
        (congrArg _ ht.right).trans (hupdate _), ht.builtIns, ht.uri, ht.nextLocal⟩
        ⟨rfl, rfl⟩ (List.append_nil _).symm (List.append_nil _).symm
  rw [hrun, hrun']
  generalize bindIn _ _ = result, bindIn _ { s' with nextLocal := s'.nextLocal + 1 } = result'
    at hbound
  cases hbound with
  | error => exact .error
  | ok reports hkinds hbeside hkept hleft hright =>
    exact .ok reports hkinds hbeside hkept hleft hright

end Steps

/-! ## Trees -/

section Trees

variable {base base' : Frame (Located Name)}

theorem typeVar_follows (hbases : Bases base base') (var : TypeVarNode Unit) :
    Follows base base' (typeVar var) := by
  refine Follows.get (fun upper s s' h => ?_) fun s => ?_
  · rw [h.type? hbases.toSame]
  · split
    · exact Follows.pure _
    · exact (reportUndefined_follows _ _ _).bind fun _ => Follows.pure _

theorem frameOfBinders_follows (kind : ScopeKind) (binders : List (TypeVarNode Unit)) :
    Follows base base' (frameOfBinders kind binders) :=
  Follows.foldlM fun _ _ _ => defineType_follows _ _ _

theorem typeVars_follows (hbases : Bases base base') (vars : List (TypeVarNode Unit)) :
    Follows base base' (vars.mapM typeVar) :=
  Follows.mapM fun var _ => typeVar_follows hbases var

mutual
theorem typeNode_follows (hbases : Bases base base') : ∀ node : TypeNode Unit,
    Follows base base' (typeNode node)
  | .quantified _ binders body =>
    (frameOfBinders_follows _ binders).bind fun _ => withFrame_follows <|
      (typeVars_follows hbases binders).bind fun _ =>
        (typeNode_follows hbases body).bind fun _ => Follows.pure _
  | .function _ args result =>
    (typeNodes_follows hbases args).bind fun _ =>
      (typeNode_follows hbases result).bind fun _ => Follows.pure _
  | .apply _ head args =>
    (typeNode_follows hbases head).bind fun _ =>
      (typeNodes_follows hbases args).bind fun _ => Follows.pure _
  | .reference _ _ => (resolveType_follows hbases _ _).bind fun _ => Follows.pure _
  | .var node => (typeVar_follows hbases node).bind fun _ => Follows.pure _
theorem typeNodes_follows (hbases : Bases base base') : ∀ nodes : List (TypeNode Unit),
    Follows base base' (typeNodes nodes)
  | [] => Follows.pure _
  | node :: rest =>
    (typeNode_follows hbases node).bind fun _ =>
      (typeNodes_follows hbases rest).bind fun _ => Follows.pure _
end

theorem ascription_follows (hbases : Bases base base') (node : Option (TypeNode Unit)) :
    Follows base base' (ascription node) := by
  cases node with
  | none => exact Follows.pure _
  | some node => exact (typeNode_follows hbases node).bind fun _ => Follows.pure _

theorem param_follows (hbases : Bases base base') (node : Param Unit) :
    Follows base base' (param node) :=
  (bindLocal_follows hbases rfl _ _).bind fun _ =>
    (ascription_follows hbases node.ascription).bind fun _ => Follows.pure _

theorem reference_follows (hbases : Bases base base') (node : Reference Unit) :
    Follows base base' (reference node) :=
  (resolveValue_follows hbases _ _).bind fun _ => Follows.pure _

theorem checkField_follows (hbases : Bases base base') (range : Range) (field : String) :
    Follows base base' (checkField range field) := by
  refine Follows.get (fun upper s s' h => ?_) fun s => ?_
  · dsimp only
    simp only [h.enclosingConstructorPattern? hbases.kind, h.field? hbases.toSame]
  · dsimp only
    split
    · exact Follows.ite (fun _ => reportError_follows _ _ _) fun _ => Follows.pure _
    · exact Follows.pure _

mutual
theorem pattern_follows (hbases : Bases base base') : ∀ node : Pattern Unit,
    Follows base base' (pattern node)
  | .alias _ _ inner =>
    (bindLocal_follows hbases rfl _ _).bind fun _ =>
      (pattern_follows hbases inner).bind fun _ => Follows.pure _
  | .id _ _ => (bindLocal_follows hbases rfl _ _).bind fun _ => Follows.pure _
  | .literal _ _ => Follows.pure _
  | .constructor here id fields => by
    refine Follows.get (fun upper s s' h => ?_) fun s => Follows.whenThen ?_ ?_
    · dsimp only
      rw [h.value? hbases.toSame]
    · exact reportUndefined_follows _ _ _
    · exact (withScope_follows (fieldPatterns_follows hbases fields)).bind fun _ =>
        (recordReference_follows hbases _).bind fun _ => Follows.pure _
theorem fieldPattern_follows (hbases : Bases base base') : ∀ node : FieldPattern Unit,
    Follows base base' (fieldPattern node)
  | ⟨here, field, inner⟩ =>
    (checkField_follows hbases _ _).bind fun _ => optionalPattern_follows hbases here field inner
theorem optionalPattern_follows (hbases : Bases base base') (here : Located Unit)
    (field : String) : ∀ inner : Option (Pattern Unit),
      Follows base base' (optionalPattern here field inner)
  | none => (bindLocal_follows hbases rfl _ _).bind fun _ => Follows.pure _
  | some inner => (pattern_follows hbases inner).bind fun _ => Follows.pure _
theorem fieldPatterns_follows (hbases : Bases base base') : ∀ fields : List (FieldPattern Unit),
    Follows base base' (fieldPatterns fields)
  | [] => Follows.pure _
  | field :: rest =>
    (fieldPattern_follows hbases field).bind fun _ =>
      (fieldPatterns_follows hbases rest).bind fun _ => Follows.pure _
end

mutual
theorem expr_follows (hbases : Bases base base') : ∀ node : Expr Unit,
    Follows base base' (expr node)
  | .block _ bindings result =>
    withScope_follows <| (localBindings_follows hbases bindings).bind fun _ =>
      (optionalExpr_follows hbases result).bind fun _ => Follows.pure _
  | .conditional _ condition consequent alternative =>
    (expr_follows hbases condition).bind fun _ => (expr_follows hbases consequent).bind fun _ =>
      (expr_follows hbases alternative).bind fun _ => Follows.pure _
  | .lambda _ _ body =>
    withScope_follows <| (Follows.mapM fun node _ => param_follows hbases node).bind fun _ =>
      (expr_follows hbases body).bind fun _ => Follows.pure _
  | .cases _ scrutinee cases =>
    (expr_follows hbases scrutinee).bind fun _ =>
      (caseList_follows hbases cases).bind fun _ => Follows.pure _
  | .apply _ function args =>
    (expr_follows hbases function).bind fun _ =>
      (exprs_follows hbases args).bind fun _ => Follows.pure _
  | .select _ receiver selection =>
    (expr_follows hbases receiver).bind fun _ =>
      (reference_follows hbases selection).bind fun _ => Follows.pure _
  | .reference node => (reference_follows hbases node).bind fun _ => Follows.pure _
  | .binary _ _ left right =>
    (expr_follows hbases left).bind fun _ =>
      (expr_follows hbases right).bind fun _ => Follows.pure _
  | .unary _ _ operand => (expr_follows hbases operand).bind fun _ => Follows.pure _
  | .literal _ _ => Follows.pure _
theorem optionalExpr_follows (hbases : Bases base base') : ∀ node : Option (Expr Unit),
    Follows base base' (optionalExpr node)
  | none => Follows.pure _
  | some node => (expr_follows hbases node).bind fun _ => Follows.pure _
theorem exprs_follows (hbases : Bases base base') : ∀ nodes : List (Expr Unit),
    Follows base base' (exprs nodes)
  | [] => Follows.pure _
  | node :: rest =>
    (expr_follows hbases node).bind fun _ =>
      (exprs_follows hbases rest).bind fun _ => Follows.pure _
theorem localBinding_follows (hbases : Bases base base') : ∀ node : Binding Unit,
    Follows base base' (localBinding node)
  | ⟨_, _, type, value⟩ =>
    (bindLocal_follows hbases rfl _ _).bind fun _ =>
      (ascription_follows hbases type).bind fun _ =>
        (expr_follows hbases value).bind fun _ => Follows.pure _
theorem localBindings_follows (hbases : Bases base base') : ∀ nodes : List (Binding Unit),
    Follows base base' (localBindings nodes)
  | [] => Follows.pure _
  | node :: rest =>
    (localBinding_follows hbases node).bind fun _ =>
      (localBindings_follows hbases rest).bind fun _ => Follows.pure _
theorem caseNode_follows (hbases : Bases base base') : ∀ node : Case Unit,
    Follows base base' (caseNode node)
  | ⟨_, inner, body⟩ =>
    withScope_follows <| (pattern_follows hbases inner).bind fun _ =>
      (expr_follows hbases body).bind fun _ => Follows.pure _
theorem caseList_follows (hbases : Bases base base') : ∀ nodes : List (Case Unit),
    Follows base base' (caseList nodes)
  | [] => Follows.pure _
  | node :: rest =>
    (caseNode_follows hbases node).bind fun _ =>
      (caseList_follows hbases rest).bind fun _ => Follows.pure _
end

/-! ## Declarations -/

theorem constructor_follows (hbases : Bases base base') (data : QualifiedName)
    (node : Constructor Unit) : Follows base base' (constructor data node) := by
  refine (addEdge_follows _ _).bind fun _ => (addEdge_follows _ _).bind fun _ => ?_
  refine withScope_follows <| (Follows.mapM fun param _ => ?_).bind fun _ =>
    (ascription_follows hbases node.result).bind fun _ => Follows.pure _
  exact (typeNode_follows hbases param.ascription).bind fun _ => Follows.pure _

theorem data_follows (hbases : Bases base base') (node : Data Unit) :
    Follows base base' (data node) := by
  refine (currentNamespace_follows hbases).bind fun ns => ?_
  refine (frameOfBinders_follows _ node.typeParams).bind fun frame => withFrame_follows ?_
  refine (typeVars_follows hbases node.typeParams).bind fun _ => ?_
  exact (Follows.mapM fun inner _ => constructor_follows hbases _ inner).bind fun _ =>
    Follows.pure _

theorem topLevelBinding_follows (hbases : Bases base base') (node : Binding Unit) :
    Follows base base' (topLevelBinding node) := by
  refine (currentNamespace_follows hbases).bind fun ns => withScope_follows ?_
  exact (ascription_follows hbases node.ascription).bind fun _ =>
    (expr_follows hbases node.value).bind fun _ => Follows.pure _

theorem functionBinding_follows (hbases : Bases base base') (node : FunctionBinding Unit) :
    Follows base base' (functionBinding node) := by
  refine (currentNamespace_follows hbases).bind fun ns => ?_
  refine (frameOfBinders_follows _ node.typeParams).bind fun frame => withFrame_follows ?_
  refine withScope_follows <| (typeVars_follows hbases node.typeParams).bind fun _ => ?_
  refine (Follows.mapM fun param _ => param_follows hbases param).bind fun _ => ?_
  exact (ascription_follows hbases node.result).bind fun _ =>
    (expr_follows hbases node.body).bind fun _ => Follows.pure _

/-- A declaration whose local names are numbered on from those before. -/
def declarationOnwards : Declaration Unit → Resolve (Declaration Name)
  | .data d => do pure (.data (← data d))
  | .binding d => do pure (.binding (← topLevelBinding d))
  | .function d => do pure (.function (← functionBinding d))

/-- A declaration is resolved alike wherever its local names were numbered to before. -/
theorem declaration_alike (hbases : Bases base base') (node : Declaration Unit) {s s' : Resolver}
    (hleft : s.stack.frames = [base]) (hright : s'.stack.frames = [base'])
    (hbuiltIns : s.stack.builtIns = s'.stack.builtIns) (huri : s.uri = s'.uri) :
    Alike base base' [] s s' (declaration node s) (declaration node s') := by
  let run := declarationOnwards node
  have hrun : Follows base base' run := by
    cases node with
    | data d => exact (data_follows hbases d).bind fun _ => Follows.pure _
    | binding d => exact (topLevelBinding_follows hbases d).bind fun _ => Follows.pure _
    | function d => exact (functionBinding_follows hbases d).bind fun _ => Follows.pure _
  have hreset : Beside base base' [] { s with nextLocal := 0 } { s' with nextLocal := 0 } :=
    ⟨hleft, hright, hbuiltIns, huri, rfl⟩
  have halike := hrun [] _ _ hreset
  show Alike base base' [] s s' (run { s with nextLocal := 0 }) (run { s' with nextLocal := 0 })
  generalize run { s with nextLocal := 0 } = result, run { s' with nextLocal := 0 } = result'
    at halike
  cases halike with
  | error => exact .error
  | ok reports hkinds hbeside hkept hleft hright =>
    exact .ok reports hkinds hbeside hkept hleft hright

/-- What a declaration is resolved to, and what is reported on the way, depends on nothing but
the bindings of the namespace around it. -/
theorem exists_resolution {ns : NamespaceName} (hkind : base.kind = .ns ns)
    (hnamed : base.TypesNamed) (uri : String) (node : Declaration Unit) :
    ∃ tree reports, tree.written = node ∧ ∀ base', base.Same base' → ∀ s : Resolver,
      s.uri = uri → s.stack = ⟨[base'], some Resolver.builtIns⟩ →
        ∃ t, declaration node s = .ok tree t ∧ t.uri = uri ∧ t.stack = s.stack ∧
          t.log.items = s.log.items ++ reports := by
  let s₀ : Resolver := Resolver.start uri ⟨[base], some Resolver.builtIns⟩
  have hat : Resolver.At [.ns ns] s₀ := by
    refine ⟨congrArg (fun kind => [kind]) hkind, fun frame hframe => ?_, fun frame hframe => ?_⟩
    · exact List.mem_singleton.1 hframe ▸ hnamed
    · obtain rfl := Option.some.inj hframe
      exact Resolver.builtIns_typesNamed
  have htag : base.tag = .ns := by rw [Frame.tag, hkind]; rfl
  obtain ⟨tree, t₀, hrun₀, -⟩ := declaration_keeps List.mem_cons_self node s₀ hat
  obtain ⟨reports, hreports⟩ : ∃ reports, t₀.log.items = reports := ⟨_, rfl⟩
  refine ⟨tree, reports, declaration_gives node s₀ tree t₀ hrun₀,
    fun base' hsame s huri hstack => ?_⟩
  have halike := declaration_alike ⟨hsame, htag⟩ node (show s₀.stack.frames = [base] from rfl)
    (show s.stack.frames = [base'] by rw [hstack]) (by rw [hstack]; rfl)
    huri.symm
  rw [hrun₀] at halike
  generalize hrun : declaration node s = result at halike
  cases halike with
  | @ok _ _ t upper' more hkinds hbeside hkept hleft hright =>
    obtain rfl := List.map_eq_nil_iff.1 hkinds
    refine ⟨t, rfl, ?_, ?_, ?_⟩
    · rw [← hbeside.uri, hkept.1]
      rfl
    · have hbuiltIns : t.stack.builtIns = some Resolver.builtIns := by
        rw [← hbeside.builtIns, hkept.2]
        rfl
      rw [hstack]
      show Stack.mk t.stack.frames t.stack.builtIns = _
      rw [hbeside.right, hbuiltIns]
      rfl
    · have hmore : reports = more := by
        rw [← hreports, hleft]
        rfl
      rw [hright, hmore]

end Trees

end Resolve

end PolyFront
