import PolyFront.Proofs.Faultless.Run
import PolyFront.Proofs.Unification.Merging
import PolyFront.Proofs.Unification.Runs

/-!
# What variables stand for

The expansion of a variable is its substitution.  A store is tidy when the frames register every
variable that is in use: all others stand for themselves, and the expansions of registered
variables mention registered ones only.  Creating variables changes no expansion, solving one
replaces it in all of them, and popping a frame changes none as long as the expansions of the
variables that stay mention no variable that is dropped.
-/

namespace PolyFront

namespace Stack

variable {α : Type}

/-- A frame registers the kind variable. -/
def HasKind (stack : Stack α) (id : Nat) : Prop := ∃ frame ∈ stack.frames, id ∈ frame.unsolvedKinds

instance (stack : Stack α) (id : Nat) : Decidable (stack.HasKind id) :=
  inferInstanceAs (Decidable (∃ frame ∈ stack.frames, id ∈ frame.unsolvedKinds))

theorem hasKind_push {stack : Stack α} {frame : Frame α} {id : Nat} :
    (stack.push frame).HasKind id ↔ id ∈ frame.unsolvedKinds ∨ stack.HasKind id := by
  simp [HasKind, push]

/-- A variable of an inner frame never represents a variable of an outer one. -/
theorem pickKind_push {stack : Stack α} {frame : Frame α} {inner outer : Nat}
    (hinner : ¬stack.HasKind inner) (houter : stack.HasKind outer) :
    PolyFront.pickKind (stack.push frame).outermostFirst (.unsolved inner) (.unsolved outer) =
        .unsolved outer ∧
      PolyFront.pickKind (stack.push frame).outermostFirst (.unsolved outer) (.unsolved inner) =
        .unsolved outer := by
  have hframes : (stack.push frame).outermostFirst = stack.frames.reverse ++ [frame] := by
    rw [outermostFirst, push, List.reverse_cons]
  have hlow : stack.frames.reverse.findIdx (fun frame => frame.unsolvedKinds.contains outer) <
      stack.frames.reverse.length := by
    obtain ⟨found, hfound, hmem⟩ := houter
    refine List.findIdx_lt_length_of_exists ⟨found, List.mem_reverse.2 hfound, ?_⟩
    exact List.contains_iff_mem.2 hmem
  have hhigh : stack.frames.reverse.findIdx (fun frame => frame.unsolvedKinds.contains inner) =
      stack.frames.reverse.length := by
    refine List.findIdx_eq_length.2 fun other hother => ?_
    rw [← Bool.not_eq_true, List.contains_iff_mem]
    exact fun hmem => hinner ⟨other, List.mem_reverse.1 hother, hmem⟩
  have hless : (stack.frames.reverse ++ [frame]).findIdx
        (fun frame => frame.unsolvedKinds.contains outer) <
      (stack.frames.reverse ++ [frame]).findIdx
        fun frame => frame.unsolvedKinds.contains inner := by
    rw [List.findIdx_append, List.findIdx_append, if_pos hlow, hhigh,
      if_neg (Nat.lt_irrefl _)]
    omega
  rw [hframes]
  refine ⟨?_, ?_⟩
  · simp only [PolyFront.pickKind]
    rw [if_neg]
    simp only [Bool.or_eq_true, decide_eq_true_eq, Bool.and_eq_true, beq_iff_eq]
    omega
  · simp only [PolyFront.pickKind]
    rw [if_pos]
    simp only [Bool.or_eq_true, decide_eq_true_eq]
    exact .inl hless

end Stack

namespace Store

variable {s s' s'' : Store}

/-- What a variable stands for. -/
def expansion (s : Store) (id : Nat) : Kind := s.substituteKind (.unsolved id)

theorem substituteKind_eq_bind (s : Store) (kind : Kind) :
    s.substituteKind kind = kind.bind s.expansion :=
  Kind.substitute_eq_bind s.kinds kind

/-- An expansion mentions only variables that stand for themselves. -/
theorem Sound.expansion_of_mem (h : s.Sound) {kind : Kind} {v : Nat}
    (hv : v ∈ (kind.bind s.expansion).unknowns) : s.expansion v = .unsolved v := by
  rw [← substituteKind_eq_bind] at hv
  exact (Kind.final_iff_substitute h.kinds.wellFounded).1
    (Kind.final_of_mem_substitute h.kinds.wellFounded hv)

theorem Sound.final_iff_expansion (h : s.Sound) {id : Nat} :
    s.kinds.Final (.unsolved id) ↔ s.expansion id = .unsolved id :=
  Kind.final_iff_substitute h.kinds.wellFounded

/-- A frame registers the variable. -/
def Registered (s : Store) (id : Nat) : Prop := s.stack.HasKind id

instance (s : Store) (id : Nat) : Decidable (s.Registered id) :=
  inferInstanceAs (Decidable (s.stack.HasKind id))

/-- The kind mentions only variables that a frame registers. -/
def Live (s : Store) (kind : Kind) : Prop := ∀ id ∈ kind.unknowns, s.Registered id

instance (s : Store) (kind : Kind) : Decidable (s.Live kind) :=
  inferInstanceAs (Decidable (∀ id ∈ kind.unknowns, s.Registered id))

/-- Every variable in use is registered. -/
structure Tidy (s : Store) : Prop where
  sound : s.Sound
  created : ∀ id, s.Registered id → id < s.nextKind
  free : ∀ id, ¬s.Registered id → s.expansion id = .unsolved id
  closed : ∀ id, s.Registered id → s.Live (s.expansion id)

theorem Live.proper (h : s.Tidy) {kind : Kind} (hkind : s.Live kind) : kind.Proper s.nextKind :=
  fun id hid => h.created id (hkind id hid)

theorem Live.bind {kind : Kind} (hkind : s.Live kind) {f : Nat → Kind}
    (hf : ∀ id, s.Registered id → s.Live (f id)) : s.Live (kind.bind f) := by
  intro v hv
  obtain ⟨id, hid, hv⟩ := Kind.mem_unknowns_bind.1 hv
  exact hf id (hkind id hid) v hv

theorem live_higher {args : List Kind} {result : Kind} :
    s.Live (.higher args result) ↔ (∀ arg ∈ args, s.Live arg) ∧ s.Live result := by
  simp only [Live, Kind.unknowns_higher, List.mem_append, List.mem_flatMap]
  constructor
  · intro h
    exact ⟨fun arg harg id hid => h id (.inl ⟨arg, harg, hid⟩), fun id hid => h id (.inr hid)⟩
  · rintro ⟨hargs, hresult⟩ id (⟨arg, harg, hid⟩ | hid)
    · exact hargs arg harg id hid
    · exact hresult id hid

theorem live_single {id : Nat} {kind : Kind} (hkind : s.Live kind) (other : Nat)
    (hother : s.Registered other) : s.Live (Kind.single id kind other) := by
  by_cases heq : other = id
  · rw [heq, Kind.single_self]
    exact hkind
  · rw [Kind.single_of_ne heq]
    intro v hv
    obtain rfl : v = other := by simpa using hv
    exact hother

/-! ## Solving -/

/-- Variables are replaced in all expansions. -/
structure Rewrites (τ : Nat → Kind) (s s' : Store) : Prop where
  tidy : s'.Tidy
  stack : s'.stack = s.stack
  created : s.nextKind ≤ s'.nextKind
  expansion : ∀ id, s'.expansion id = (s.expansion id).bind τ

theorem Rewrites.trans {τ τ' : Nat → Kind} (h : Rewrites τ s s') (h' : Rewrites τ' s' s'') :
    Rewrites (fun id => (τ id).bind τ') s s'' where
  tidy := h'.tidy
  stack := h'.stack.trans h.stack
  created := Nat.le_trans h.created h'.created
  expansion id := by rw [h'.expansion, h.expansion, Kind.bind_bind]

theorem Tidy.rewrites (h : s.Tidy) {τ : Nat → Kind} (hsound : s'.Sound)
    (hstack : s'.stack = s.stack) (hcreated : s.nextKind ≤ s'.nextKind)
    (hexpansion : ∀ id, s'.expansion id = (s.expansion id).bind τ)
    (hlive : ∀ id, s.Registered id → s.Live (τ id))
    (hfree : ∀ id, ¬s.Registered id → τ id = .unsolved id) : Rewrites τ s s' := by
  have hregistered : ∀ id, s'.Registered id ↔ s.Registered id := by
    intro id
    rw [Registered, Registered, hstack]
  refine ⟨⟨hsound, fun id hid => ?_, fun id hid => ?_, fun id hid v hv => ?_⟩, hstack, hcreated,
    hexpansion⟩
  · exact Nat.lt_of_lt_of_le (h.created id ((hregistered id).1 hid)) hcreated
  · rw [hregistered] at hid
    rw [hexpansion, h.free id hid, Kind.bind_unsolved, hfree id hid]
  · rw [hexpansion] at hv
    exact (hregistered v).2 ((h.closed id ((hregistered id).1 hid)).bind hlive v hv)

theorem Tidy.rewrites_single (h : s.Tidy) {id : Nat} {kind : Kind} (hid : s.Registered id)
    (hkind : s.Live kind) (hsound : s'.Sound) (hstack : s'.stack = s.stack)
    (hcreated : s.nextKind ≤ s'.nextKind)
    (hexpansion : ∀ v, s'.expansion v = (s.expansion v).bind (Kind.single id kind)) :
    Rewrites (Kind.single id kind) s s' := by
  refine h.rewrites hsound hstack hcreated hexpansion (live_single hkind) fun other hother => ?_
  refine Kind.single_of_ne ?_ kind
  rintro rfl
  exact hother hid

/-- A variable that stands for itself still does when another one is replaced. -/
theorem Rewrites.expansion_of_ne {id : Nat} {kind : Kind} (h : Rewrites (Kind.single id kind) s s')
    {v : Nat} (hv : s.expansion v = .unsolved v) (hne : v ≠ id) : s'.expansion v = .unsolved v := by
  rw [h.expansion, hv, Kind.bind_unsolved, Kind.single_of_ne hne]

/-- Solving a variable that stands for itself replaces it by the kind, or another variable by
it. -/
theorem Tidy.solveKind (h : s.Tidy) {id : Nat} {kind : Kind} (hid : s.Registered id)
    (hfinal : s.expansion id = .unsolved id) (hkind : s.Live kind)
    (hsolution : Kind.Solution s.kinds id kind) :
    (s.pickKind (.unsolved id) kind = kind →
      Rewrites (Kind.single id kind) s (s.solveKind id kind)) ∧
    ∀ other, kind = .unsolved other → s.pickKind (.unsolved id) kind = .unsolved id →
      Rewrites (Kind.single other (.unsolved id)) s (s.solveKind id kind) := by
  have hfinal' := h.sound.final_iff_expansion.2 hfinal
  have hproper := hkind.proper h
  have hpick := Kind.picks_pickKind (α := Located Attributes) s.stack.outermostFirst
  have hsolved := (h.sound.solveKind (h.created id hid) hfinal' hproper hsolution).sound
  have hunion := h.sound.kinds.solve hpick (h.created id hid) hfinal' hproper hsolution
  have hclosed : ∀ v, (s.solveKind id kind).expansion v =
      Kind.substitute (s.kinds.union (.unsolved id) kind s.pickKind) (.unsolved v) := fun v =>
    Kind.substitute_closed hunion.wellFounded (.unsolved v)
  obtain ⟨hthis, hother⟩ := h.sound.kinds.substitute_union hpick (h.created id hid) hfinal' hproper
    hsolution
  refine ⟨fun hpicked => ?_, fun other hvariable hpicked => ?_⟩
  · exact h.rewrites_single hid hkind hsolved rfl (Nat.le_refl _) fun v =>
      (hclosed v).trans (hthis hpicked v)
  · have hlive : s.Live (.unsolved id) := by
      intro v hv
      obtain rfl : v = id := by simpa using hv
      exact hid
    refine h.rewrites_single (hkind other ?_) hlive hsolved rfl (Nat.le_refl _) fun v =>
      (hclosed v).trans (hother other hvariable hpicked v)
    rw [hvariable]
    simp

/-! ## Frames -/

/-- One frame was pushed on a stack, which registers the given variables. -/
def Opened (s : Store) (outer : Stack (Located Attributes)) (tag : ScopeTag) (ids : List Nat) :
    Prop :=
  ∃ frame, s.stack = outer.push frame ∧ frame.tag = tag ∧ ∀ id, id ∈ frame.unsolvedKinds ↔ id ∈ ids

variable {outer : Stack (Located Attributes)} {tag : ScopeTag} {ids : List Nat}

theorem Opened.registered_iff (h : s.Opened outer tag ids) {id : Nat} :
    s.Registered id ↔ id ∈ ids ∨ outer.HasKind id := by
  obtain ⟨frame, hstack, -, hids⟩ := h
  rw [Registered, hstack, Stack.hasKind_push, hids]

theorem Opened.of_stack (h : s.Opened outer tag ids) (hstack : s'.stack = s.stack) :
    s'.Opened outer tag ids := by
  obtain ⟨frame, hframe, htag, hids⟩ := h
  exact ⟨frame, hstack.trans hframe, htag, hids⟩

theorem opened_pushed (s : Store) (kind : ScopeKind) :
    (s.pushed kind).Opened s.stack kind.tag [] :=
  ⟨Frame.empty kind, rfl, rfl, fun _ => Iff.rfl⟩

theorem Tidy.pushed (h : s.Tidy) (kind : ScopeKind) : (s.pushed kind).Tidy := by
  have hregistered : ∀ id, (s.pushed kind).Registered id ↔ s.Registered id := by
    intro id
    rw [(opened_pushed s kind).registered_iff]
    simp [Registered]
  refine ⟨h.sound.pushed kind, fun id hid => ?_, fun id hid => ?_, fun id hid v hv => ?_⟩
  · exact h.created id ((hregistered id).1 hid)
  · exact h.free id fun hmem => hid ((hregistered id).2 hmem)
  · exact (hregistered v).2 (h.closed id ((hregistered id).1 hid) v hv)

/-- Variables of the innermost frame are created. -/
structure Creates (outer : Stack (Located Attributes)) (tag : ScopeTag) (ids fresh : List Nat)
    (s s' : Store) : Prop where
  grows : Grows s s'
  tidy : s'.Tidy
  opened : s'.Opened outer tag (ids ++ fresh)
  next : s'.nextKind = s.nextKind + fresh.length
  expansion : ∀ id, s'.expansion id = s.expansion id

theorem Creates.trans {fresh fresh' : List Nat} (h : Creates outer tag ids fresh s s')
    (h' : Creates outer tag (ids ++ fresh) fresh' s' s'') :
    Creates outer tag ids (fresh ++ fresh') s s'' where
  grows := h.grows.trans h'.grows
  tidy := h'.tidy
  opened := by
    rw [← List.append_assoc]
    exact h'.opened
  next := by rw [h'.next, h.next, List.length_append, Nat.add_assoc]
  expansion id := (h'.expansion id).trans (h.expansion id)

theorem Tidy.creates_nil (h : s.Tidy) (hopened : s.Opened outer tag ids) :
    Creates outer tag ids [] s s where
  grows := h.sound.grows_of_eq rfl rfl rfl rfl
  tidy := h
  opened := by
    rw [List.append_nil]
    exact hopened
  next := rfl
  expansion _ := rfl

theorem freshKind_eq {frame : Frame (Located Attributes)} (hstack : s.stack = outer.push frame) :
    Solve.freshKind s = .ok (.unsolved s.nextKind) { s with
      stack := outer.push (frame.addKinds [s.nextKind])
      kinds := s.kinds.add (.unsolved s.nextKind)
      nextKind := s.nextKind + 1 } := by
  cases s
  cases hstack
  rfl

theorem Tidy.freshKind (h : s.Tidy) (hopened : s.Opened outer tag ids) :
    ∃ s', Solve.freshKind s = .ok (.unsolved s.nextKind) s' ∧
      Creates outer tag ids [s.nextKind] s s' := by
  obtain ⟨frame, hstack, htag, hids⟩ := id hopened
  have hgrows := h.sound.addKind (outer.push (frame.addKinds [s.nextKind]))
  refine ⟨_, freshKind_eq hstack, ?_⟩
  generalize hs' : Store.mk (outer.push (frame.addKinds [s.nextKind]))
    (s.kinds.add (.unsolved s.nextKind)) s.types (s.nextKind + 1) s.nextType = s' at hgrows ⊢
  have hopened' : s'.Opened outer tag (ids ++ [s.nextKind]) := by
    refine ⟨frame.addKinds [s.nextKind], ?_, htag, fun id => ?_⟩
    · rw [← hs']
    · simp [Frame.addKinds, List.mem_insert_iff, hids, or_comm]
  have hexpansion : ∀ id, s'.expansion id = s.expansion id := fun id =>
    Kind.substitute_of_find_eq h.sound.kinds.wellFounded hgrows.sound.kinds.wellFounded
      (fun other => hgrows.findKind (.unsolved other)) (.unsolved id)
  have hnew : s.expansion s.nextKind = .unsolved s.nextKind :=
    h.sound.final_iff_expansion.1 (h.sound.kind_final (Nat.le_refl _))
  have hregistered : ∀ id, s'.Registered id ↔ s.Registered id ∨ id = s.nextKind := by
    intro id
    rw [hopened'.registered_iff, hopened.registered_iff, List.mem_append, List.mem_singleton]
    exact or_right_comm
  have hnext : s'.nextKind = s.nextKind + 1 := by rw [← hs']
  refine ⟨hgrows, ⟨hgrows.sound, fun id hid => ?_, fun id hid => ?_, fun id hid v hv => ?_⟩,
    hopened', hnext, hexpansion⟩
  · rw [hnext]
    rcases (hregistered id).1 hid with hid | rfl
    · exact Nat.lt_succ_of_lt (h.created id hid)
    · exact Nat.lt_succ_self _
  · rw [hexpansion]
    exact h.free id fun hmem => hid ((hregistered id).2 (.inl hmem))
  · rw [hexpansion] at hv
    rcases (hregistered id).1 hid with hid | rfl
    · exact (hregistered v).2 (.inl (h.closed id hid v hv))
    · rw [hnew] at hv
      obtain rfl : v = s.nextKind := by simpa using hv
      exact hid

/-- Variables for all items of a list. -/
theorem Tidy.freshKinds {α : Type} (items : List α) : ∀ {s : Store} {ids : List Nat}, s.Tidy →
    s.Opened outer tag ids → ∃ s', (items.mapM fun _ => Solve.freshKind) s =
      .ok ((List.range' s.nextKind items.length).map .unsolved) s' ∧
      Creates outer tag ids (List.range' s.nextKind items.length) s s' := by
  induction items with
  | nil => exact fun h hopened => ⟨_, rfl, h.creates_nil hopened⟩
  | cons item rest ih =>
    intro s ids h hopened
    obtain ⟨s₁, hfirst, hcreates⟩ := h.freshKind hopened
    obtain ⟨s₂, hrest, hcreates'⟩ := ih hcreates.tidy hcreates.opened
    rw [hcreates.next, List.length_singleton] at hrest hcreates'
    refine ⟨s₂, ?_, hcreates.trans hcreates'⟩
    rw [List.mapM_cons]
    change EStateM.bind Solve.freshKind _ s = _
    rw [EStateM.bind, hfirst]
    change EStateM.bind (rest.mapM fun _ => Solve.freshKind) _ s₁ = _
    rw [EStateM.bind, hrest]
    rfl

/-- The innermost frame is popped, which drops its variables. -/
structure Drops (s s' : Store) : Prop where
  tidy : s'.Tidy
  created : s.nextKind ≤ s'.nextKind
  kept : ∀ id, s'.Registered id → s'.expansion id = s.expansion id

theorem popScope_eq {frame : Frame (Located Attributes)} (hstack : s.stack = outer.push frame)
    (hframe : frame.tag = tag) (htag : tag.dropsVariables = true) : Solve.popScope tag s =
      .ok frame (forget { s.closeSolutions with stack := outer } frame) := by
  have hpop : Stack.pop tag s.stack = .ok frame outer := by
    rw [hstack]
    exact Stack.pop_eq_ok rfl hframe
  have hclosed : Solve.onStack (Stack.pop tag) s.closeSolutions = _ :=
    Run.within_ok hpop
  rw [Solve.popScope, if_pos htag]
  exact (Run.ok_bind rfl).trans ((Run.ok_bind hclosed).trans rfl)

/-- Popping a frame changes no expansion when those of the variables that stay mention no variable
that is dropped. -/
theorem Tidy.popScope (h : s.Tidy) (hopened : s.Opened outer tag ids)
    (htag : tag.dropsVariables = true) (hinner : ∀ id ∈ ids, ¬outer.HasKind id)
    (houter : ∀ id, outer.HasKind id → ∀ v ∈ (s.expansion id).unknowns, outer.HasKind v) :
    ∃ frame s', Solve.popScope tag s = .ok frame s' ∧ s'.stack = outer ∧ Drops s s' := by
  obtain ⟨frame, hstack, hframe, hids⟩ := id hopened
  have hrun := popScope_eq hstack hframe htag
  generalize hs' : forget { s.closeSolutions with stack := outer } frame = s' at hrun
  have hstack' : s'.stack = outer := by rw [← hs', forget]
  have hsettles := Solve.popScope_ends h.sound tag frame s' hrun
  have hdrops := (Solve.popScope_drops h.sound htag frame s' hrun).1
  have hkinds := h.sound.kinds.mono hsettles.kinds
  have hregistered : ∀ {id}, s'.Registered id ↔ outer.HasKind id := by
    intro id
    rw [Registered, hstack']
  -- A variable keeps its expansion when neither it nor its expansion is dropped.
  have hkept : ∀ {id}, id ∉ ids → ¬(s.expansion id).IsDropped frame.unsolvedKinds →
      s'.expansion id = s.expansion id := by
    intro id hid hshown
    rw [← hids] at hid
    have hfound := Kind.find_closed h.sound.kinds.wellFounded id
    have hrep : ¬Partition.Among (frame.unsolvedKinds.map .unsolved)
        ((Kind.closed s.kinds).find (.unsolved id)) := by
      rw [hfound, Kind.among_iff_isDropped]
      exact hshown
    have hsame := hdrops.stays (Kind.not_among_unsolved hid) hrep
    exact (Kind.substitute_dropped hkinds hsettles.sound.kinds hdrops hid).trans
      (hsame.trans hfound)
  have hstays : ∀ {id}, outer.HasKind id → s'.expansion id = s.expansion id := by
    intro id hid
    refine hkept (fun hmem => hinner id hmem hid) ?_
    rintro ⟨v, hv, heq⟩
    refine hinner v ((hids v).1 hv) (houter id hid v ?_)
    rw [heq]
    simp
  have hdropped : ∀ {id}, id ∈ ids → s'.expansion id = .unsolved id := by
    intro id hid
    refine hsettles.sound.final_iff_expansion.1 (Kind.final_iff.2 (Partition.find_of_absent ?_))
    have habsent : ((Kind.closed s.kinds).removeAll s'.pickKind
        (frame.unsolvedKinds.map .unsolved)).classOf? (.unsolved id) = none :=
      Partition.classOf?_removeAll h.sound.kinds.closed.sound.distinct
        (.inl (Kind.among_iff_isDropped.2 ⟨id, (hids id).2 hid, rfl⟩))
    rw [Partition.removeAll, List.foldl_map] at habsent
    rw [← hs']
    rw [← hs'] at habsent
    exact habsent
  refine ⟨frame, s', hrun, hstack', ⟨hsettles.sound, fun id hid => ?_, fun id hid => ?_,
    fun id hid v hv => ?_⟩, hsettles.kinds, fun id hid => hstays (hregistered.1 hid)⟩
  · have hid' := hopened.registered_iff.2 (.inr (hregistered.1 hid))
    exact Nat.lt_of_lt_of_le (h.created id hid') hsettles.kinds
  · rw [hregistered] at hid
    by_cases hmem : id ∈ ids
    · exact hdropped hmem
    · have hself : s.expansion id = .unsolved id :=
        h.free id fun hreg => (hopened.registered_iff.1 hreg).elim hmem hid
      rw [← hself]
      refine hkept hmem ?_
      rintro ⟨v, hv, heq⟩
      rw [hself] at heq
      cases heq
      exact hmem ((hids id).1 hv)
  · rw [hstays (hregistered.1 hid)] at hv
    exact hregistered.2 (houter id (hregistered.1 hid) v hv)

end Store

end PolyFront
