import PolyFront.Proofs.Solutions.Popping
import PolyFront.Proofs.Solutions.Subkind

/-!
# Checks against ground kinds

While every check compares with a kind that mentions no variables, no variable is ever made to
stand for another one.  Dropping variables then changes the substitution of no kind that is
still in use, so that a substitution found at one time is absorbed by every later one.
-/

namespace PolyFront

namespace Partition

variable {α : Type} [BEq α] [EquivBEq α] {shape : TermShape α} {good : α → Prop}
  {partition : Partition α} {left right : α} {pick : α → α → α}

theorem find_union_same (h : Distinct partition.elements) :
    (partition.union left right pick).find left = (partition.union left right pick).find right := by
  obtain ⟨⟨l, hl⟩, r, hr⟩ := exists_classOf?_prepared partition left right
  rcases union_cases pick h hl hr with ⟨rfl, hunion⟩ | ⟨hlr, -⟩
  · rw [hunion, find_of_classOf? hl, find_of_classOf? hr]
  · have hleft := classOf?_union pick h hl hr hlr left
    have hright := classOf?_union pick h hl hr hlr right
    have hlhas : l.Has left := (mem_of_classOf? hl).2
    have hrhas : r.Has right := (mem_of_classOf? hr).2
    rcases hleft with ⟨-, hleft⟩ | ⟨hnot, -⟩
    · rcases hright with ⟨-, hright⟩ | ⟨hnot, -⟩
      · rw [find_of_classOf? hleft, find_of_classOf? hright]
      · exact (hnot (.inr hrhas)).elim
    · exact (hnot (.inl hlhas)).elim

/-- Merging what is in one class already changes no representative. -/
theorem find_union_of_same (h : Distinct partition.elements) {c : Class α}
    (hleft : partition.classOf? left = some c) (hright : partition.classOf? right =
        some c) (a : α) :
    ((partition.union left right pick).find a == partition.find a) = true := by
  have hprepared : ∀ {b}, partition.classOf? b = some c →
      (partition.prepared left right).classOf? b = some c := by
    intro b hb
    rw [prepared, classOf?_add, classOf?_add, hb]
    rfl
  rcases union_cases pick h (hprepared hleft) (hprepared hright) with ⟨-, hunion⟩ | ⟨hne, -⟩
  · rw [hunion]
    exact find_prepared_beq partition left right a
  · exact (hne rfl).elim

/-- What is solved keeps its solution when an unsolved class is merged. -/
theorem Sound.find_union_solved (h : Sound shape good partition) (hpick : shape.Picks pick)
    (hunknown : shape.unknown (partition.find left) = true) {a : α}
    (ha : shape.unknown (partition.find a) = false) :
    ((partition.union left right pick).find a == partition.find a) = true := by
  obtain ⟨⟨l, hl⟩, r, hr⟩ := exists_classOf?_prepared partition left right
  have hdistinct := distinct_prepared h.distinct left right
  have hfound := find_prepared_beq partition left right
  -- The class of `a` is not the unsolved one.
  have hrep : ∀ {c}, (partition.prepared left right).classOf? a = some c →
      shape.unknown c.representative = false := by
    intro c hc
    rw [← find_of_classOf? hc, shape.unknown_congr (hfound a), ha]
  rcases union_cases pick h.distinct hl hr with ⟨-, hunion⟩ | ⟨hlr, -⟩
  · rw [hunion]
    exact hfound a
  · rcases classOf?_union pick h.distinct hl hr hlr a with ⟨hhas, hclass⟩ | ⟨-, hclass⟩
    · have hlunknown : shape.unknown l.representative = true := by
        rw [← find_of_classOf? hl, shape.unknown_congr (hfound left), hunknown]
      rcases hhas with hhas | hhas
      · have hla := classOf?_eq_some hdistinct (mem_of_classOf? hl).1 hhas
        rw [hrep hla] at hlunknown
        cases hlunknown
      · have hra := classOf?_eq_some hdistinct (mem_of_classOf? hr).1 hhas
        rw [find_of_classOf? hclass, Class.merged, hpick.solved hlunknown (hrep hra),
          ← find_of_classOf? hra]
        exact hfound a
    · rw [find, hclass]
      exact hfound a

end Partition

namespace Kind

variable {created : Nat} {kinds kinds' : Partition Kind}

/-- A kind without variables. -/
def Ground (kind : Kind) : Prop := kind.unknowns = []

instance (kind : Kind) : Decidable kind.Ground :=
  inferInstanceAs (Decidable (kind.unknowns = []))

theorem ground_type : Ground .type := unknowns_type

theorem ground_higher {args : List Kind} {result : Kind} :
    Ground (.higher args result) ↔ (∀ arg ∈ args, arg.Ground) ∧ result.Ground := by
  simp [Ground, List.flatMap_eq_nil_iff]

theorem not_ground_unsolved (id : Nat) : ¬Ground (.unsolved id) := by simp [Ground]

theorem Ground.proper {kind : Kind} (h : kind.Ground) (created : Nat) : kind.Proper created := by
  intro id hid
  rw [h] at hid
  cases hid

theorem Ground.substitute {kind : Kind} (h : kind.Ground) (kinds : Partition Kind) :
    kind.substitute kinds = kind := by
  refine bind_self fun id hid => ?_
  rw [h] at hid
  cases hid

theorem substitute_higher (kinds : Partition Kind) (args : List Kind) (result : Kind) :
    substitute kinds (.higher args result) =
      .higher (args.map (substitute kinds)) (result.substitute kinds) := by
  rw [substitute, bind_higher]
  rfl

/-- No variable stands for another one. -/
def Lone (kinds : Partition Kind) : Prop :=
  ∀ id other, kinds.find (.unsolved id) = .unsolved other → other = id

/-- Solutions that are kept absorb those that were there before. -/
theorem substitute_absorbs (h : WellFounded (Within kinds)) (h' : WellFounded (Within kinds'))
    (hsolved : ∀ id, kinds.find (.unsolved id) ≠ .unsolved id →
      kinds'.find (.unsolved id) = kinds.find (.unsolved id)) (kind : Kind) :
    (kind.substitute kinds).substitute kinds' = kind.substitute kinds' := by
  have hvariable : ∀ id, (substitute kinds (.unsolved id)).substitute kinds' =
      substitute kinds' (.unsolved id) := by
    intro id
    induction id using h.induction with
    | h id ih =>
      rw [substitute_unsolved h]
      split
      · rfl
      · rename_i hne
        rw [← substitute_find h' id, hsolved id hne, substitute_eq_bind kinds,
          substitute_eq_bind kinds', bind_bind, substitute_eq_bind kinds']
        refine bind_congr fun inner hinner => ?_
        rw [← substitute_eq_bind]
        exact ih inner ⟨fun hfinal => hne (final_iff.1 hfinal), hinner⟩
  rw [substitute_eq_bind kinds, substitute_eq_bind kinds', bind_bind, substitute_eq_bind kinds']
  refine bind_congr fun id _ => ?_
  rw [← substitute_eq_bind]
  exact hvariable id

theorem Lone.solved (h : Lone kinds) {id : Nat} (hne : kinds.find (.unsolved id) ≠ .unsolved id) :
    (kinds.find (.unsolved id)).isUnsolved = false := by
  cases hfind : kinds.find (.unsolved id) with
  | unsolved other =>
    rw [h id other hfind] at hfind
    exact (hne hfind).elim
  | type => rfl
  | higher args result => rfl

theorem Lone.closed (hlone : Lone kinds) (h : WellFounded (Within kinds)) :
    Lone (Kind.closed kinds) := by
  intro id other hfind
  rw [find_closed h, substitute_unsolved h] at hfind
  split at hfind
  · cases hfind
    rfl
  · rename_i hne
    have hsolved := hlone.solved hne
    cases hfound : kinds.find (.unsolved id) with
    | unsolved other => rw [hfound] at hsolved; cases hsolved
    | type => rw [hfound, substitute, bind_type] at hfind; cases hfind
    | higher args result => rw [hfound, substitute_higher] at hfind; cases hfind

/-- A variable that is solved by a kind which is none gets that solution. -/
theorem Acyclic.lone_solve (h : Acyclic created kinds) (hlone : Lone kinds) {id : Nat} {kind : Kind}
    {pick : Kind → Kind → Kind} (hpick : shape.Picks pick) (hid : id < created)
    (hfinal : kinds.Final (.unsolved id)) (hkind : kind.Proper created)
    (hsolution : Solution kinds id kind) (hsolid : shape.unknown kind = false) :
    Lone (kinds.union (.unsolved id) kind pick) ∧
      (kinds.union (.unsolved id) kind pick).find (.unsolved id) = kind := by
  have hne : ((.unsolved id : Kind) == kind) = false := by
    rw [beq_eq_false_iff_ne]
    rintro rfl
    cases hsolid
  have hcase : kinds.classOf? kind = none ∨ shape.leaf kind = true := by
    cases hsolution with
    | type => exact .inr rfl
    | unknown _ hother => cases hsolid
    | compound _ hnew _ => exact .inl hnew
  obtain ⟨loser, winner, hmerges, hcases⟩ := h.sound.merges hpick (proper_unsolved.2 hid) hkind rfl
    hfinal hne (hcase.imp_right .inl)
  have hself : kinds.find kind = kind := by
    rcases hcase with habsent | hleaf
    · exact Partition.find_of_absent habsent
    · have hfound : shape.leaf (kinds.find kind) = true := h.sound.leaf_find hleaf
      rw [eq_of_beq hfound, eq_of_beq hleaf]
  have hwinner : winner = kind := by
    rcases hcases with ⟨-, hwinner, -⟩ | ⟨-, hunknown, -⟩
    · rw [← eq_of_beq hwinner, hself]
    · rw [hsolid] at hunknown
      cases hunknown
  refine ⟨fun v other hfind => ?_, ?_⟩
  · rcases hmerges.find (.unsolved v) with heq | heq
    · rw [eq_of_beq heq] at hfind
      exact hlone v other hfind
    · rw [← hwinner, ← heq, hfind] at hsolid
      cases hsolid
  · rw [Partition.find_union_same h.sound.distinct]
    rcases hmerges.find kind with heq | heq
    · rw [eq_of_beq heq, hself]
    · rw [heq, hwinner]

theorem Lone.remove (hlone : Lone kinds) (h : Acyclic created kinds) {id : Nat}
    {pick : Kind → Kind → Kind} (hpick : shape.Picks pick) :
    Lone (kinds.remove (.unsolved id) pick) := by
  intro v other hfind
  have hvariable : shape.unknown (.unsolved id) = true := rfl
  rcases h.sound.find_remove hpick hvariable (.unsolved v) with heq | ⟨-, heq⟩ | ⟨heq, -, hne, -⟩
  · rw [heq] at hfind
    exact hlone v other hfind
  · rw [heq] at hfind
    cases hfind
    rfl
  · obtain rfl := hlone v id (eq_of_beq heq)
    rw [Partition.find_of_absent (Partition.classOf?_remove_self h.sound.distinct pick
        (BEq.refl _)),
      BEq.refl] at hne
    cases hne

/-- Dropping variables that stand for themselves only leaves the substitution of all others. -/
theorem Lone.substitute_drops (hlone : Lone kinds) (h : Acyclic created kinds)
    (h' : Acyclic created kinds') {dropped : List Nat}
    (hdrops : Partition.Drops shape (dropped.map .unsolved) (Kind.closed kinds) kinds') {id : Nat}
    (hid : id ∉ dropped) :
    substitute kinds' (.unsolved id) = substitute kinds (.unsolved id) ∧
      kinds'.find (.unsolved id) = (Kind.closed kinds).find (.unsolved id) := by
  have hkept : ¬Partition.Among (dropped.map .unsolved)
      ((Kind.closed kinds).find (.unsolved id)) := by
    rw [among_iff_isDropped]
    rintro ⟨other, hother, heq⟩
    rw [hlone.closed h.wellFounded id other heq] at hother
    exact hid hother
  have hfind := hdrops.stays (not_among_unsolved hid) hkept
  refine ⟨?_, hfind⟩
  rw [substitute_dropped h h' hdrops hid, hfind, find_closed h.wellFounded]

end Kind

namespace Stack

variable {α : Type}

/-- Only the innermost frame changed, and it registered only variables created since. -/
structure Registers (created : Nat) (stack stack' : Stack α) : Prop where
  builtIns : stack'.builtIns = stack.builtIns
  tail : stack'.frames.tail = stack.frames.tail
  fresh : ∀ frame' ∈ stack'.frames.head?, ∀ id ∈ frame'.unsolvedKinds,
    (∃ frame ∈ stack.frames.head?, id ∈ frame.unsolvedKinds) ∨ created ≤ id

theorem Registers.refl (created : Nat) (stack : Stack α) : Registers created stack stack :=
  ⟨rfl, rfl, fun frame hframe _ hid => .inl ⟨frame, hframe, hid⟩⟩

theorem Registers.trans {created created' : Nat} {stack stack' stack'' : Stack α}
    (h : Registers created stack stack') (h' : Registers created' stack' stack'')
    (hle : created ≤ created') : Registers created stack stack'' where
  builtIns := h'.builtIns.trans h.builtIns
  tail := h'.tail.trans h.tail
  fresh frame hframe id hid := by
    rcases h'.fresh frame hframe id hid with ⟨frame', hframe', hid'⟩ | hnew
    · exact h.fresh frame' hframe' id hid'
    · exact .inr (Nat.le_trans hle hnew)

/-- The types that the frames bind. -/
def typeTables (stack : Stack α) : List (Table String α) := stack.frames.map Frame.types

theorem type?_congr {stack stack' : Stack α} (hbuiltIns : stack'.builtIns = stack.builtIns)
    (htypes : stack'.typeTables = stack.typeTables) (key : String) :
    stack'.type? key = stack.type? key := by
  have hfound : ∀ frames : List (Frame α), frames.findSome? (fun frame => frame.type? key) =
      (frames.map Frame.types).findSome? fun types => types.get? key := by
    intro frames
    rw [List.findSome?_map]
    rfl
  rw [typeTables] at htypes
  rw [type?, type?, lookup, lookup, hbuiltIns, hfound, hfound, htypes, typeTables]

/-- Work on the innermost frame. -/
theorem updateTop_ends {f : Frame α → Frame α} {stack : Stack α} {post : Unit → Stack α → Prop}
    (h : ∀ frame rest, stack.frames = frame :: rest →
      post () { stack with frames := f frame :: rest }) : Run.Ends (updateTop f) stack post := by
  refine Run.Ends.bind (Run.Ends.get ?_)
  cases hframes : stack.frames with
  | nil =>
    intro a s' hrun
    cases hrun
  | cons frame rest => exact Run.Ends.set (h frame rest hframes)

end Stack

namespace Store

/-- Solutions were found that absorb the earlier ones, without making a variable stand for
another one. -/
structure Steady (s s' : Store) : Prop where
  sound : s'.Sound
  lone : Kind.Lone s'.kinds
  kinds : s.nextKind ≤ s'.nextKind
  stack : Stack.Registers s.nextKind s.stack s'.stack
  absorbs : ∀ kind, kind.Proper s.nextKind →
    s'.substituteKind (s.substituteKind kind) = s'.substituteKind kind

/-- Steadily, and without binding a type. -/
structure Calm (s s' : Store) : Prop extends Steady s s' where
  types : s'.stack.typeTables = s.stack.typeTables

variable {s s' s'' : Store}

theorem substituteKind_higher (s : Store) (args : List Kind) (result : Kind) :
    s.substituteKind (.higher args result) =
      .higher (args.map s.substituteKind) (s.substituteKind result) :=
  Kind.substitute_higher s.kinds args result

theorem Sound.substitute_proper (h : s.Sound) {kind : Kind} (hkind : kind.Proper s.nextKind) :
    (s.substituteKind kind).Proper s.nextKind :=
  h.kinds.substitute_proper hkind

theorem Sound.calm (h : s.Sound) (hlone : Kind.Lone s.kinds) : Calm s s where
  sound := h
  lone := hlone
  kinds := Nat.le_refl _
  stack := .refl _ _
  absorbs kind _ := Kind.substitute_substitute h.kinds.wellFounded kind
  types := rfl

theorem Steady.trans (hs : s.Sound) (h : Steady s s') (h' : Steady s' s'') : Steady s s'' where
  sound := h'.sound
  lone := h'.lone
  kinds := Nat.le_trans h.kinds h'.kinds
  stack := h.stack.trans h'.stack h.kinds
  absorbs kind hkind := by
    have hproper : (s.substituteKind kind).Proper s'.nextKind :=
      (hs.substitute_proper hkind).mono h.kinds
    rw [← h'.absorbs _ hproper, h.absorbs kind hkind, h'.absorbs kind (hkind.mono h.kinds)]

theorem Calm.trans (hs : s.Sound) (h : Calm s s') (h' : Calm s' s'') : Calm s s'' :=
  ⟨h.toSteady.trans hs h'.toSteady, h'.types.trans h.types⟩

/-- A kind whose substitution is ground keeps its substitution. -/
theorem Steady.ground (h : Steady s s') {kind : Kind} (hkind : kind.Proper s.nextKind)
    (hground : (s.substituteKind kind).Ground) : s'.substituteKind kind =
        s.substituteKind kind := by
  rw [← h.absorbs kind hkind]
  exact hground.substitute s'.kinds

/-- The kind that a type is bound to. -/
def kindBound (s : Store) (key : String) : Option Kind :=
  (s.stack.type? key).bind fun here => here.info.classifier.kind?

theorem Calm.kindBound (h : Calm s s') (key : String) : s'.kindBound key = s.kindBound key := by
  rw [Store.kindBound, Stack.type?_congr h.stack.builtIns h.types, Store.kindBound]

/-- The store with a new frame. -/
def pushed (s : Store) (kind : ScopeKind) : Store :=
  { s with stack := s.stack.push (Frame.empty kind) }

theorem Sound.pushed (h : s.Sound) (kind : ScopeKind) : (s.pushed kind).Sound :=
  (h.withStack _).sound

/-! ## Creating and solving -/

theorem Grows.calm (h : Grows s s') (hs : s.Sound) (hlone : Kind.Lone s.kinds)
    (hstack : Stack.Registers s.nextKind s.stack s'.stack)
    (htypes : s'.stack.typeTables = s.stack.typeTables) : Calm s s' where
  sound := h.sound
  lone id other hfind := by
    rw [h.findKind] at hfind
    exact hlone id other hfind
  kinds := h.kinds
  stack := hstack
  absorbs kind _ := Kind.substitute_absorbs hs.kinds.wellFounded h.sound.kinds.wellFounded
    (fun _ _ => h.findKind _) kind
  types := htypes

/-- Solving a variable by a kind that is none. -/
theorem Sound.calm_solveKind (h : s.Sound) (hlone : Kind.Lone s.kinds) {id : Nat} {kind : Kind}
    (hid : id < s.nextKind) (hfinal : s.kinds.Final (.unsolved id)) (hkind : kind.Proper s.nextKind)
    (hsolution : Kind.Solution s.kinds id kind) (hsolid : Kind.shape.unknown kind = false) :
    Calm s (s.solveKind id kind) ∧ (s.solveKind id kind).substituteKind (.unsolved id) =
      (s.solveKind id kind).substituteKind kind := by
  have hpick := Kind.picks_pickKind (α := Located Attributes) s.stack.outermostFirst
  have hunion := h.kinds.solve hpick hid hfinal hkind hsolution
  obtain ⟨hloneUnion, hsolved⟩ := h.kinds.lone_solve hlone hpick hid hfinal hkind hsolution hsolid
  have hsubstitute : ∀ k, (s.solveKind id kind).substituteKind k =
      k.substitute (s.kinds.union (.unsolved id) kind s.pickKind) := fun k =>
    Kind.substitute_closed hunion.wellFounded k
  have hunknown : Kind.shape.unknown (s.kinds.find (.unsolved id)) = true := by
    rw [Kind.final_iff.1 hfinal]
    rfl
  refine ⟨⟨⟨(h.solveKind hid hfinal hkind hsolution).sound, hloneUnion.closed hunion.wellFounded,
    Nat.le_refl _, .refl _ _, fun k _ => ?_⟩, rfl⟩, ?_⟩
  · rw [hsubstitute, hsubstitute]
    refine Kind.substitute_absorbs h.kinds.wellFounded hunion.wellFounded (fun other hne => ?_) k
    have hother : Kind.shape.unknown (s.kinds.find (.unsolved other)) = false := hlone.solved hne
    exact eq_of_beq (h.kinds.sound.find_union_solved hpick hunknown hother)
  · rw [hsubstitute, hsubstitute]
    have hfound := Kind.substitute_find hunion.wellFounded id
    rw [hsolved] at hfound
    exact hfound.symm

theorem lone_forget (hs : s.Sound) (hlone : Kind.Lone s.kinds)
    (frame : Frame (Located Attributes)) : Kind.Lone (s.forget frame).kinds := by
  have hremoved : ∀ (ids : List Nat) (kinds : Partition Kind), Kind.Acyclic s.nextKind kinds →
      Kind.Lone kinds → Kind.Lone
        (ids.foldl (fun kinds id => kinds.remove (.unsolved id) s.pickKind) kinds) := by
    intro ids
    induction ids with
    | nil => exact fun _ _ hkinds => hkinds
    | cons id rest ih =>
      intro kinds hacyclic hkinds
      have hpick := Kind.picks_pickKind (α := Located Attributes) s.stack.outermostFirst
      exact ih _ (hacyclic.remove hpick) (hkinds.remove hacyclic hpick)
  exact hremoved _ _ hs.kinds hlone

end Store

namespace Solve

open Run Store

variable {s s' : Store}

theorem freshKind_calm (hs : s.Sound) (hlone : Kind.Lone s.kinds) :
    Ends freshKind s fun kind s' => Calm s s' ∧ Grows s s' ∧ kind = .unsolved s.nextKind ∧
      s'.nextKind = s.nextKind + 1 := by
  refine Ends.bind (Ends.get ?_)
  refine Ends.bind (Ends.modify ?_)
  refine Ends.bind (Ends.bind (Ends.modify ?_))
  refine Ends.within (Stack.updateTop_ends fun frame rest hframes => Ends.pure ?_)
  have hgrows := hs.addKind { s.stack with frames := frame.addKinds [s.nextKind] :: rest }
  refine ⟨hgrows.calm hs hlone ⟨rfl, ?_, ?_⟩ ?_, hgrows, rfl, rfl⟩
  · dsimp only at hframes ⊢
    rw [hframes, List.tail_cons, List.tail_cons]
  · dsimp only at hframes ⊢
    intro frame' hframe' id hid
    rw [List.head?_cons, Option.mem_some_iff] at hframe'
    subst hframe'
    have hid' : id ∈ frame.unsolvedKinds.insert s.nextKind := hid
    rcases List.mem_insert_iff.1 hid' with rfl | hold
    · exact .inr (Nat.le_refl _)
    · exact .inl ⟨frame, by rw [hframes, List.head?_cons, Option.mem_some_iff], hold⟩
  · dsimp only at hframes ⊢
    rw [Stack.typeTables, Stack.typeTables, hframes]
    rfl

/-- Popping a frame that drops its variables, once the work inside of it is done. -/
theorem popScope_calm {kind : ScopeKind} (hs : s.Sound) (h : Steady (s.pushed kind) s')
    {tag : ScopeTag} (htag : tag.dropsVariables = true) :
    Ends (popScope tag) s' fun _ s'' => Calm s s'' ∧ s'.nextKind ≤ s''.nextKind ∧
      ∀ k, k.Proper s.nextKind → s''.substituteKind k = s'.substituteKind k := by
  have hframes : Ends (popScope tag) s' fun frame s'' => Kind.Lone s''.kinds ∧
      ∃ rest, s'.stack.frames = frame :: rest ∧ s''.stack = { s'.stack with frames := rest } := by
    rw [popScope, if_pos htag]
    refine Ends.bind (Ends.modify ?_)
    refine Ends.bind (Ends.within ?_)
    refine Ends.bind (Ends.get ?_)
    have hclosed := h.sound.closeSolutions.sound
    have hstack : s'.closeSolutions.stack = s'.stack := rfl
    rw [hstack]
    cases hframes : s'.stack.frames with
    | nil =>
      intro _ _ hrun
      cases hrun
    | cons frame rest =>
      refine Ends.bind (Ends.set ?_)
      split
      · refine Ends.pure (Ends.bind (Ends.modify (Ends.pure ⟨?_, rest, rfl, rfl⟩)))
        have hsound : Sound { s'.closeSolutions with stack := { s'.stack with frames := rest } } :=
          (hclosed.withStack _).sound
        exact lone_forget hsound (h.lone.closed h.sound.kinds.wellFounded) frame
      · intro _ _ hrun
        cases hrun
  intro frame s'' hrun
  obtain ⟨hlone, rest, hpopped, hstack⟩ := hframes frame s'' hrun
  obtain ⟨hdrops, -⟩ := popScope_drops h.sound htag frame s'' hrun
  have hsettles := popScope_ends h.sound tag frame s'' hrun
  have hkinds : s.nextKind ≤ s''.nextKind := Nat.le_trans h.kinds hsettles.kinds
  -- The frame is empty when it is pushed, so that it drops none of the variables before it.
  have hdropped : ∀ id ∈ frame.unsolvedKinds, s.nextKind ≤ id := by
    intro id hid
    rcases h.stack.fresh frame (by rw [hpopped]; rfl) id hid with ⟨frame', hframe', hid'⟩ | hnew
    · cases hframe'
      cases hid'
    · exact hnew
  have hsame : ∀ k : Kind, k.Proper s.nextKind → s''.substituteKind k = s'.substituteKind k := by
    intro k hk
    rw [Store.substituteKind, Store.substituteKind, Kind.substitute_eq_bind,
      Kind.substitute_eq_bind s'.kinds]
    refine Kind.bind_congr fun id hid => ?_
    have hkept : id ∉ frame.unsolvedKinds := fun hmem =>
      Nat.not_lt.2 (hdropped id hmem) (hk id hid)
    exact (h.lone.substitute_drops (h.sound.kinds.mono hsettles.kinds) hsettles.sound.kinds hdrops
      hkept).1
  have hback : s''.stack = s.stack := by
    have htail := h.stack.tail
    have hbuiltIns := h.stack.builtIns
    rw [hpopped] at htail
    rw [hstack]
    cases hold : s.stack with
    | mk frames builtIns =>
      rw [pushed, Stack.push, hold] at htail hbuiltIns
      simp only [List.tail_cons] at htail hbuiltIns
      simp only [htail, hbuiltIns]
  refine ⟨⟨⟨hsettles.sound, hlone, hkinds, ?_, fun k hk => ?_⟩, by rw [hback]⟩,
      hsettles.kinds, hsame⟩
  · rw [hback]
    exact .refl _ _
  · rw [hsame _ (hs.substitute_proper hk), hsame k hk]
    exact h.absorbs k hk

/-- The work done inside of a frame that drops its variables. -/
theorem withScope_calm {α : Type} {kind : ScopeKind} (htag : kind.tag.dropsVariables = true)
    {body : Solve α} {post : α → Store → Prop} (hs : s.Sound)
    (h : Ends body (s.pushed kind) fun a s' => Steady (s.pushed kind) s' ∧
      ∀ s'', (∀ k, k.Proper s.nextKind → s''.substituteKind k = s'.substituteKind k) → post a s'') :
    Ends (withScope kind body) s fun a s' => Calm s s' ∧ post a s' := by
  refine Ends.bind (Ends.modify ?_)
  refine Ends.bind (h.mono fun a s₁ hbody => ?_)
  refine Ends.bind ((popScope_calm hs hbody.1 htag).mono fun _ s₂ hpop => ?_)
  exact Ends.pure ⟨hpop.1, hbody.2 s₂ hpop.2.2⟩

/-! ## Checks -/

/-- A check that makes two kinds the same when one of them is ground. -/
def GroundCheck (check : Kind → Kind → Solve Bool) : Prop :=
  ∀ ⦃s : Store⦄ (a b : Kind), s.Sound → Kind.Lone s.kinds → a.Proper s.nextKind →
    b.Proper s.nextKind → (s.substituteKind a).Ground ∨ (s.substituteKind b).Ground →
    Ends (check a b) s fun ok s' => Calm s s' ∧
      (ok = true → s'.substituteKind a = s'.substituteKind b)

variable {check : Kind → Kind → Solve Bool}

theorem GroundCheck.relate (hcheck : GroundCheck check) (side : Side) :
    GroundCheck (side.relate check) := by
  cases side with
  | sub => exact hcheck
  | sup =>
    intro s a b hs hlone ha hb hground
    refine (hcheck b a hs hlone hb ha hground.symm).mono fun ok s' hs' => ⟨hs'.1, ?_⟩
    exact fun hok => (hs'.2 hok).symm

theorem GroundCheck.allM (hcheck : GroundCheck check) {pairs : List (Kind × Kind)} :
    ∀ {s : Store}, s.Sound → Kind.Lone s.kinds →
    (∀ pair ∈ pairs, pair.1.Proper s.nextKind ∧ pair.2.Proper s.nextKind ∧
      ((s.substituteKind pair.1).Ground ∨ (s.substituteKind pair.2).Ground)) →
    Ends (pairs.allM fun (a, b) => check a b) s fun ok s' => Calm s s' ∧
      (ok = true → ∀ pair ∈ pairs, s'.substituteKind pair.1 = s'.substituteKind pair.2) := by
  induction pairs with
  | nil =>
    intro s hs hlone _
    exact Ends.pure ⟨hs.calm hlone, fun _ pair hpair => (List.not_mem_nil hpair).elim⟩
  | cons pair rest ih =>
    intro s hs hlone hpairs
    obtain ⟨hleft, hright, hground⟩ := hpairs pair List.mem_cons_self
    refine Ends.bind ((hcheck _ _ hs hlone hleft hright hground).mono ?_)
    rintro ok s₁ ⟨hcalm, hsame⟩
    cases ok with
    | false => exact Ends.pure ⟨hcalm, fun hok => by cases hok⟩
    | true =>
      refine (ih hcalm.sound hcalm.lone fun other hother => ?_).mono ?_
      · obtain ⟨hleft, hright, hground⟩ := hpairs other (List.mem_cons_of_mem _ hother)
        refine ⟨hleft.mono hcalm.kinds, hright.mono hcalm.kinds, hground.imp ?_ ?_⟩
        · exact fun hground => by rwa [hcalm.ground hleft hground]
        · exact fun hground => by rwa [hcalm.ground hright hground]
      · rintro ok s₂ ⟨hcalm', hrest⟩
        refine ⟨hcalm.trans hs hcalm', fun hok other hother => ?_⟩
        rcases List.mem_cons.1 hother with rfl | hother
        · rw [← hcalm'.absorbs _ (hleft.mono hcalm.kinds), hsame rfl,
            hcalm'.absorbs _ (hright.mono hcalm.kinds)]
        · exact hrest hok other hother

theorem freshKinds_calm {α : Type} (items : List α) : ∀ {s : Store}, s.Sound →
    Kind.Lone s.kinds → Ends (items.mapM fun _ => freshKind) s fun fresh s' => Calm s s' ∧
      fresh.length = items.length := by
  induction items with
  | nil =>
    intro s hs hlone
    exact Ends.pure ⟨hs.calm hlone, rfl⟩
  | cons item rest ih =>
    intro s hs hlone
    rw [List.mapM_cons]
    refine Ends.bind ((freshKind_calm hs hlone).mono ?_)
    rintro kind s₁ ⟨hcalm, -⟩
    refine Ends.bind ((ih hcalm.sound hcalm.lone).mono ?_)
    rintro fresh s₂ ⟨hcalm', hlength⟩
    exact Ends.pure ⟨hcalm.trans hs hcalm', by simp [hlength]⟩

/-- Kinds that are the same pair by pair. -/
theorem map_eq_of_zip {f : Kind → Kind} {left right : List Kind}
    (hlength : left.length = right.length)
    (h : ∀ pair ∈ left.zip right, f pair.1 = f pair.2) : left.map f = right.map f := by
  induction left generalizing right with
  | nil =>
    rw [List.eq_nil_of_length_eq_zero hlength.symm]
  | cons kind rest ih =>
    cases right with
    | nil => cases hlength
    | cons kind' rest' =>
      rw [List.map_cons, List.map_cons, h (kind, kind') List.mem_cons_self]
      rw [ih (Nat.succ.inj hlength) fun pair hpair => h pair (List.mem_cons_of_mem _ hpair)]

/-- Solving a variable by a ground kind. -/
theorem instantiateKindWith_calm (hcheck : GroundCheck check) (side : Side) {id : Nat} {kind : Kind}
    (hs : s.Sound) (hlone : Kind.Lone s.kinds) (hid : id < s.nextKind)
    (hfinal : s.kinds.Final (.unsolved id)) (hground : kind.Ground) :
    Ends (instantiateKindWith check side id kind) s fun ok s' => Calm s s' ∧
      (ok = true → s'.substituteKind (.unsolved id) = kind) := by
  cases kind with
  | type =>
    refine Ends.bind (Ends.modify (Ends.pure ?_))
    obtain ⟨hcalm, hsolved⟩ := hs.calm_solveKind hlone hid hfinal (Kind.proper_type _) .type rfl
    exact ⟨hcalm, fun _ => hsolved.trans (Kind.ground_type.substitute _)⟩
  | unsolved other => exact (Kind.not_ground_unsolved other hground).elim
  | higher args result =>
    obtain ⟨hargs, hresult⟩ := Kind.ground_higher.1 hground
    refine withScope_calm rfl hs ?_
    have hpushed := hs.pushed .instantiateKind
    refine Ends.bind ((Ends.and (freshKinds_calm args hpushed hlone)
      (freshKinds_ends args hpushed)).mono ?_)
    rintro freshArgs s₁ ⟨⟨hcalm₁, hlength⟩, hgrows₁, hfresh⟩
    refine Ends.bind ((freshKind_calm hcalm₁.sound hcalm₁.lone).mono ?_)
    rintro _ s₂ ⟨hcalm₂, hgrows₂, rfl, hnext⟩
    have hcalm := hcalm₁.trans hpushed hcalm₂
    have hgrows := hgrows₁.trans hgrows₂
    have hkinds₁ : s.nextKind ≤ s₁.nextKind := hgrows₁.kinds
    obtain ⟨hsolution, hfreshProper⟩ := fresh_solution hgrows hpushed hid hkinds₁
      (by omega : s₁.nextKind < s₂.nextKind) fun arg harg => by
        obtain ⟨v, rfl, hle, hlt⟩ := hfresh arg harg
        exact ⟨v, rfl, hle, by omega⟩
    refine Ends.bind (Ends.modify ?_)
    obtain ⟨hcalm₃, hsolved⟩ := hcalm₂.sound.calm_solveKind hcalm₂.lone
      (Nat.lt_of_lt_of_le hid hcalm.kinds) (hgrows.finalKind hfinal) hfreshProper hsolution rfl
    obtain ⟨hargsProper, hresultProper⟩ := Kind.proper_higher.1 hfreshProper
    generalize s₂.solveKind id (.higher freshArgs (.unsolved s₁.nextKind)) = s₃ at hcalm₃ hsolved ⊢
    -- Each fresh variable becomes the part it stands for.
    refine Ends.bind (((hcheck.relate side.flip).allM hcalm₃.sound hcalm₃.lone ?_).mono ?_)
    · intro pair hpair
      obtain ⟨hleft, hright⟩ := List.of_mem_zip hpair
      refine ⟨(hargsProper _ hleft).mono hcalm₃.kinds, (hargs _ hright).proper _, .inr ?_⟩
      have heq : s₃.substituteKind pair.2 = pair.2 := (hargs _ hright).substitute _
      rw [heq]
      exact hargs _ hright
    · rintro ok s₄ ⟨hcalm₄, hparts⟩
      have hdone₄ := (hcalm.trans hpushed hcalm₃).trans hpushed hcalm₄
      cases ok with
      | false => exact Ends.pure ⟨hdone₄.toSteady, fun _ _ hok => by cases hok⟩
      | true =>
        have hresultSelf : s₄.substituteKind result = result := hresult.substitute _
        refine ((hcheck.relate side) _ _ hcalm₄.sound hcalm₄.lone
          (hresultProper.mono (Nat.le_trans hcalm₃.kinds hcalm₄.kinds)) (hresult.proper _)
          (.inr (by rwa [hresultSelf]))).mono ?_
        rintro ok s₅ ⟨hcalm₅, hlast⟩
        refine ⟨(hdone₄.trans hpushed hcalm₅).toSteady, fun s₆ hpopped hok => ?_⟩
        have hfreshArgs : freshArgs.map s₅.substituteKind = args.map s₅.substituteKind := by
          refine map_eq_of_zip hlength fun pair hpair => ?_
          obtain ⟨hleft, hright⟩ := List.of_mem_zip hpair
          rw [← hcalm₅.absorbs _ ((hargsProper _ hleft).mono
            (Nat.le_trans hcalm₃.kinds hcalm₄.kinds)), hparts rfl pair hpair,
            hcalm₅.absorbs _ ((hargs _ hright).proper _)]
        have hid₃ : Kind.Proper s₃.nextKind (.unsolved id) :=
          Kind.proper_unsolved.2 (Nat.lt_of_lt_of_le hid (Nat.le_trans hcalm.kinds hcalm₃.kinds))
        have hafter := hcalm₄.trans hcalm₃.sound hcalm₅
        calc s₆.substituteKind (.unsolved id)
          _ = s₅.substituteKind (.unsolved id) := hpopped _ (Kind.proper_unsolved.2 hid)
          _ = s₅.substituteKind (.higher freshArgs (.unsolved s₁.nextKind)) := by
            rw [← hafter.absorbs _ hid₃, hsolved, hafter.absorbs _ (hfreshProper.mono hcalm₃.kinds)]
          _ = s₅.substituteKind (.higher args result) := by
            rw [substituteKind_higher, substituteKind_higher, hfreshArgs, hlast hok]
          _ = .higher args result := hground.substitute _

/-- Higher kinds are compared part by part. -/
theorem checkHigher_calm (hcheck : GroundCheck check) {args args' : List Kind}
    {result result' : Kind} (hs : s.Sound) (hlone : Kind.Lone s.kinds)
    (hsub : (Kind.higher args result).Proper s.nextKind)
    (hsup : (Kind.higher args' result').Proper s.nextKind)
    (hground : (Kind.higher args result).Ground ∨ (Kind.higher args' result').Ground) :
    Ends (if args.length = args'.length then
        withScope .checkSubKind do
          let matched ← (args.zip args').allM fun (arg, arg') => check arg' arg
          if matched then check result result' else pure false
      else pure false) s fun ok s' => Calm s s' ∧ (ok = true →
        s'.substituteKind (.higher args result) = s'.substituteKind (.higher args' result')) := by
  obtain ⟨hargs, hresult⟩ := Kind.proper_higher.1 hsub
  obtain ⟨hargs', hresult'⟩ := Kind.proper_higher.1 hsup
  have hself : ∀ (s : Store) {kind : Kind}, kind.Ground → (s.substituteKind kind).Ground :=
    fun s _ hkind => by
      have heq := hkind.substitute s.kinds
      rwa [Store.substituteKind, heq]
  split
  · rename_i hlength
    refine withScope_calm rfl hs ?_
    have hpushed := hs.pushed .checkSubKind
    refine Ends.bind (((hcheck.relate .sup).allM hpushed hlone ?_).mono ?_)
    · intro pair hpair
      obtain ⟨hleft, hright⟩ := List.of_mem_zip hpair
      refine ⟨hargs _ hleft, hargs' _ hright, hground.imp ?_ ?_⟩
      · exact fun hkind => hself _ ((Kind.ground_higher.1 hkind).1 _ hleft)
      · exact fun hkind => hself _ ((Kind.ground_higher.1 hkind).1 _ hright)
    · rintro ok s₁ ⟨hcalm₁, hparts⟩
      cases ok with
      | false => exact Ends.pure ⟨hcalm₁.toSteady, fun _ _ hok => by cases hok⟩
      | true =>
        refine (hcheck result result' hcalm₁.sound hcalm₁.lone (hresult.mono hcalm₁.kinds)
          (hresult'.mono hcalm₁.kinds) (hground.imp ?_ ?_)).mono ?_
        · exact fun hkind => hself _ (Kind.ground_higher.1 hkind).2
        · exact fun hkind => hself _ (Kind.ground_higher.1 hkind).2
        rintro ok s₂ ⟨hcalm₂, hlast⟩
        refine ⟨(hcalm₁.trans hpushed hcalm₂).toSteady, fun s₃ hpopped hok => ?_⟩
        rw [hpopped _ hsub, hpopped _ hsup, substituteKind_higher, substituteKind_higher, hlast hok]
        refine congrArg (Kind.higher · _) (map_eq_of_zip hlength fun pair hpair => ?_)
        obtain ⟨hleft, hright⟩ := List.of_mem_zip hpair
        have hpart := hparts rfl pair hpair
        calc s₂.substituteKind pair.1
          _ = s₂.substituteKind (s₁.substituteKind pair.1) :=
            (hcalm₂.absorbs _ ((hargs _ hleft).mono hcalm₁.kinds)).symm
          _ = s₂.substituteKind (s₁.substituteKind pair.2) := by rw [hpart]
          _ = s₂.substituteKind pair.2 := hcalm₂.absorbs _ ((hargs' _ hright).mono hcalm₁.kinds)
  · exact Ends.pure ⟨hs.calm hlone, fun hok => by cases hok⟩

/-- The check to any depth makes a kind the ground one. -/
theorem checkSubKindWithin_calm (fuel : Nat) : GroundCheck (checkSubKindWithin fuel) := by
  induction fuel with
  | zero =>
    intro s sub sup hs hlone _ _ _
    exact Ends.pure ⟨hs.calm hlone, fun hok => by cases hok⟩
  | succ fuel ih =>
    intro s sub sup hs hlone hsub hsup hground
    refine Ends.bind (Ends.bind (Ends.get (Ends.pure ?_)))
    refine Ends.bind (Ends.bind (Ends.get (Ends.pure ?_)))
    -- It is enough to compare the substituted kinds.
    suffices h : ∀ run : Solve Bool, Ends run s (fun ok s' => Calm s s' ∧ (ok = true →
        s'.substituteKind (s.substituteKind sub) = s'.substituteKind (s.substituteKind sup))) →
        Ends run s fun ok s' => Calm s s' ∧
          (ok = true → s'.substituteKind sub = s'.substituteKind sup) by
      refine h _ ?_
      have hsub' : (s.substituteKind sub).Proper s.nextKind := hs.substitute_proper hsub
      have hsup' : (s.substituteKind sup).Proper s.nextKind := hs.substitute_proper hsup
      have hsubFinal : ∀ id ∈ (s.substituteKind sub).unknowns, s.kinds.Final (.unsolved id) :=
        fun id hid => Kind.final_of_mem_substitute hs.kinds.wellFounded hid
      have hsupFinal : ∀ id ∈ (s.substituteKind sup).unknowns, s.kinds.Final (.unsolved id) :=
        fun id hid => Kind.final_of_mem_substitute hs.kinds.wellFounded hid
      clear h
      generalize s.substituteKind sub = sub at hsub' hsubFinal hground ⊢
      generalize s.substituteKind sup = sup at hsup' hsupFinal hground ⊢
      have hfails : Ends (pure false : Solve Bool) s fun ok s' => Calm s s' ∧
          (ok = true → s'.substituteKind sub = s'.substituteKind sup) :=
        Ends.pure ⟨hs.calm hlone, fun hok => by cases hok⟩
      have hflipped : ∀ id, sup = .unsolved id → Ends (if sub.occurs id then pure false
          else instantiateKindWith (checkSubKindWithin fuel) .sup id sub) s fun ok s' =>
            Calm s s' ∧ (ok = true → s'.substituteKind sub = s'.substituteKind sup) := by
        rintro id rfl
        have hsubGround := hground.resolve_right (Kind.not_ground_unsolved id)
        split
        · exact hfails
        · refine (instantiateKindWith_calm ih .sup hs hlone (Kind.proper_unsolved.1 hsup')
            (hsupFinal id (by simp)) hsubGround).mono fun ok s' hs' => ⟨hs'.1, fun hok => ?_⟩
          rw [hs'.2 hok]
          exact hsubGround.substitute _
      cases sub with
      | unsolved id =>
        have hsupGround := hground.resolve_left (Kind.not_ground_unsolved id)
        dsimp only
        split
        · rename_i heq
          exact (Kind.not_ground_unsolved id (heq ▸ hsupGround)).elim
        · split
          · exact hfails
          · refine (instantiateKindWith_calm ih .sub hs hlone (Kind.proper_unsolved.1 hsub')
              (hsubFinal id (by simp)) hsupGround).mono fun ok s' hs' => ⟨hs'.1, fun hok => ?_⟩
            rw [hs'.2 hok]
            exact (hsupGround.substitute _).symm
      | type =>
        cases sup with
        | type => exact Ends.pure ⟨hs.calm hlone, fun _ => rfl⟩
        | unsolved id => exact hflipped id rfl
        | higher args' result' => exact hfails
      | higher args result =>
        cases sup with
        | type => exact hfails
        | unsolved id => exact hflipped id rfl
        | higher args' result' => exact checkHigher_calm ih hs hlone hsub' hsup' hground
    intro run hrun
    refine hrun.mono fun ok s' hs' => ⟨hs'.1, fun hok => ?_⟩
    rw [← hs'.1.absorbs sub hsub, hs'.2 hok, hs'.1.absorbs sup hsup]

/-- A successful check against a ground kind makes the kind that ground one. -/
theorem checkSubKind_calm {sub sup : Kind} (hs : s.Sound) (hlone : Kind.Lone s.kinds)
    (hsub : sub.Proper s.nextKind) (hsup : sup.Ground) :
    Ends (checkSubKind sub sup) s fun ok s' => Calm s s' ∧
      (ok = true → s'.substituteKind sub = sup) := by
  have hself : ∀ s : Store, s.substituteKind sup = sup := fun s => hsup.substitute s.kinds
  refine Ends.bind (Ends.bind (Ends.get (Ends.pure ?_)))
  refine (checkSubKindWithin_calm _ sub sup hs hlone hsub (hsup.proper _)
    (.inr (by rwa [hself]))).mono fun ok s' hs' => ⟨hs'.1, fun hok => ?_⟩
  rw [hs'.2 hok, hself]

end Solve

end PolyFront
