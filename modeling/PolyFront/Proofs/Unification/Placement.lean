import PolyFront.Proofs.Unification.Histories

/-!
# Variables that stay in place

A frame can be popped without changing what is solved when no expansion of an outer variable
mentions one of its variables.  This holds as long as every expansion is a variable or mentions
only variables that are anchored: those that are older than some mark, and those that a pending
variable stands for.  Checking two such kinds keeps it so, since a class is represented by its
oldest variable.  Pending variables are the parts of a kind that is being built; once they are
solved they need not be anchored any more.
-/

namespace PolyFront

namespace Stack

variable {α : Type} {mark : Nat} {stack : Stack α}

/-- As far as they are not older than the mark, the variables of an outer frame are older than
those of an inner one. -/
def Ordered (mark : Nat) (stack : Stack α) : Prop :=
  stack.frames.Pairwise fun inner outer =>
    ∀ v ∈ outer.unsolvedKinds, ∀ w ∈ inner.unsolvedKinds, v < mark ∨ v ≤ w

theorem ordered_push {frame : Frame α} : (stack.push frame).Ordered mark ↔
    (∀ v, stack.HasKind v → ∀ w ∈ frame.unsolvedKinds, v < mark ∨ v ≤ w) ∧
      stack.Ordered mark := by
  rw [Ordered, push, List.pairwise_cons]
  refine and_congr_left' ⟨?_, ?_⟩
  · rintro h v ⟨outer, houter, hv⟩ w hw
    exact h outer houter v hv w hw
  · exact fun h outer houter v hv w hw => h v ⟨outer, houter, hv⟩ w hw

/-- The variable of an outer frame is the older one. -/
theorem Ordered.le_of_depth (h : stack.Ordered mark) {v w : Nat} (hw : stack.HasKind w)
    (hdepth : stack.outermostFirst.findIdx (fun frame => frame.unsolvedKinds.contains v) <
      stack.outermostFirst.findIdx fun frame => frame.unsolvedKinds.contains w) :
    v < mark ∨ v ≤ w := by
  obtain ⟨found, hfound, hmem⟩ := hw
  have hlength : stack.outermostFirst.findIdx (fun frame => frame.unsolvedKinds.contains w) <
      stack.outermostFirst.length :=
    List.findIdx_lt_length_of_exists
      ⟨found, List.mem_reverse.2 hfound, List.contains_iff_mem.2 hmem⟩
  have hpairs := List.pairwise_iff_getElem.1 (List.pairwise_reverse.2 h)
  refine hpairs _ _ (Nat.lt_trans hdepth hlength) hlength hdepth v ?_ w ?_
  · exact List.contains_iff_mem.1 (List.findIdx_getElem (w := Nat.lt_trans hdepth hlength))
  · exact List.contains_iff_mem.1 (List.findIdx_getElem (w := hlength))

/-- A class is represented by its oldest variable. -/
theorem Ordered.pickKind_le (h : stack.Ordered mark) {v w : Nat} (hv : stack.HasKind v)
    (hw : stack.HasKind w) :
    (PolyFront.pickKind stack.outermostFirst (.unsolved v) (.unsolved w) = .unsolved v →
      v < mark ∨ v ≤ w) ∧
    (PolyFront.pickKind stack.outermostFirst (.unsolved v) (.unsolved w) = .unsolved w →
      w < mark ∨ w ≤ v) := by
  simp only [PolyFront.pickKind]
  split
  · rename_i hpick
    rw [Bool.or_eq_true, decide_eq_true_eq, Bool.and_eq_true, decide_eq_true_eq] at hpick
    refine ⟨fun _ => ?_, fun heq => .inr (Nat.le_of_eq (Kind.unsolved.inj heq).symm)⟩
    rcases hpick with hless | ⟨-, hle⟩
    · exact h.le_of_depth hw hless
    · exact .inr hle
  · rename_i hpick
    refine ⟨fun heq => .inr (Nat.le_of_eq (Kind.unsolved.inj heq).symm), fun _ => ?_⟩
    simp only [Bool.or_eq_true, decide_eq_true_eq, Bool.and_eq_true, beq_iff_eq, not_or,
      not_and] at hpick
    obtain ⟨hnotLess, hnotEqual⟩ := hpick
    rcases Nat.lt_or_eq_of_le (Nat.le_of_not_lt hnotLess) with hless | heq
    · exact h.le_of_depth hv hless
    · exact .inr (Nat.le_of_not_le (hnotEqual heq.symm))

end Stack

namespace Store

variable {s s' s'' : Store} {mark : Nat} {pending : List Nat} {kind : Kind}

/-! ## Places -/

/-- The variable is older than the mark, or a pending one stands for it. -/
def Anchored (s : Store) (mark : Nat) (pending : List Nat) (v : Nat) : Prop :=
  v < mark ∨ ∃ id ∈ pending, s.expansion id = .unsolved v

/-- The kind stands for one that mentions anchored variables only. -/
def Held (s : Store) (mark : Nat) (pending : List Nat) (kind : Kind) : Prop :=
  ∀ v ∈ (kind.bind s.expansion).unknowns, s.Anchored mark pending v

/-- The kind stands for a variable, or it is held. -/
def Flat (s : Store) (mark : Nat) (pending : List Nat) (kind : Kind) : Prop :=
  (∃ v, kind.bind s.expansion = .unsolved v) ∨ s.Held mark pending kind

/-- Every variable stands for a flat kind, and if that is another variable, then for one that is
older. -/
structure Placed (mark : Nat) (pending : List Nat) (s : Store) : Prop where
  tidy : s.Tidy
  ordered : s.stack.Ordered mark
  marked : mark ≤ s.nextKind
  registered : ∀ id ∈ pending, s.Registered id
  oldest : ∀ id v, s.expansion id = .unsolved v → v < mark ∨ v ≤ id
  flat : ∀ id, s.Flat mark pending (.unsolved id)

theorem Anchored.append {v : Nat} (h : s.Anchored mark pending v) (more : List Nat) :
    s.Anchored mark (more ++ pending) v :=
  h.imp_right fun ⟨id, hid, heq⟩ => ⟨id, List.mem_append_right _ hid, heq⟩

theorem Held.append (h : s.Held mark pending kind) (more : List Nat) :
    s.Held mark (more ++ pending) kind :=
  fun v hv => (h v hv).append more

theorem Flat.append (h : s.Flat mark pending kind) (more : List Nat) :
    s.Flat mark (more ++ pending) kind :=
  h.imp_right fun hheld => hheld.append more

theorem held_of_ground (hground : kind.Ground) : s.Held mark pending kind := by
  intro v hv
  obtain ⟨id, hid, -⟩ := Kind.mem_unknowns_bind.1 hv
  rw [hground] at hid
  cases hid

theorem held_higher {args : List Kind} {result : Kind} :
    s.Held mark pending (.higher args result) ↔
      (∀ arg ∈ args, s.Held mark pending arg) ∧ s.Held mark pending result := by
  simp only [Held, Kind.bind_higher, Kind.unknowns_higher, List.mem_append, List.mem_flatMap,
    List.mem_map]
  constructor
  · intro h
    exact ⟨fun arg harg v hv => h v (.inl ⟨_, ⟨arg, harg, rfl⟩, hv⟩), fun v hv => h v (.inr hv)⟩
  · rintro ⟨hargs, hresult⟩ v (⟨_, ⟨arg, harg, rfl⟩, hv⟩ | hv)
    · exact hargs arg harg v hv
    · exact hresult v hv

/-- A flat kind that is no variable is held. -/
theorem Flat.held (h : s.Flat mark pending kind)
    (hsolid : ∀ v, kind.bind s.expansion ≠ .unsolved v) : s.Held mark pending kind :=
  h.resolve_left fun ⟨v, hv⟩ => hsolid v hv

/-- What a pending variable stands for is held. -/
theorem Placed.held_pending (h : s.Placed mark pending) {id : Nat} (hid : id ∈ pending) :
    s.Held mark pending (.unsolved id) := by
  rcases h.flat id with ⟨v, hv⟩ | hheld
  · intro w hw
    rw [hv] at hw
    obtain rfl : w = v := by simpa using hw
    exact .inr ⟨id, hid, by rwa [Kind.bind_unsolved] at hv⟩
  · exact hheld

/-- What a variable that is older than the mark stands for is held. -/
theorem Placed.held_older (h : s.Placed mark pending) {id : Nat} (hid : id < mark) :
    s.Held mark pending (.unsolved id) := by
  rcases h.flat id with ⟨v, hv⟩ | hheld
  · intro w hw
    rw [hv] at hw
    obtain rfl : w = v := by simpa using hw
    rw [Kind.bind_unsolved] at hv
    rcases h.oldest id w hv with hlt | hle
    · exact .inl hlt
    · exact .inl (Nat.lt_of_le_of_lt hle hid)
  · exact hheld

/-- A kind that mentions only variables that are older than the mark. -/
theorem Placed.held_of_proper (h : s.Placed mark pending) (hkind : kind.Proper mark) :
    s.Held mark pending kind := by
  intro v hv
  obtain ⟨id, hid, hv⟩ := Kind.mem_unknowns_bind.1 hv
  exact h.held_older (hkind id hid) v hv

/-! ## Later stores -/

/-- The later solutions absorb the earlier ones. -/
def Absorbs (s s' : Store) : Prop := ∀ id, (s.expansion id).bind s'.expansion = s'.expansion id

theorem Absorbs.bind (h : Absorbs s s') (kind : Kind) :
    (kind.bind s.expansion).bind s'.expansion = kind.bind s'.expansion := by
  rw [Kind.bind_bind]
  exact Kind.bind_congr fun id _ => h id

theorem Absorbs.trans (h : Absorbs s s') (h' : Absorbs s' s'') : Absorbs s s'' := by
  intro id
  rw [← h'.bind (s.expansion id), h, h']

/-- A kind that stands for a variable did so before. -/
theorem Absorbs.of_unsolved (h : Absorbs s s') {v : Nat}
    (hv : kind.bind s'.expansion = .unsolved v) :
    ∃ w, kind.bind s.expansion = .unsolved w ∧ s'.expansion w = .unsolved v := by
  rw [← h.bind] at hv
  cases hkind : kind.bind s.expansion with
  | unsolved w =>
    rw [hkind, Kind.bind_unsolved] at hv
    exact ⟨w, rfl, hv⟩
  | type => rw [hkind, Kind.bind_type] at hv; cases hv
  | higher args result => rw [hkind, Kind.bind_higher] at hv; cases hv

/-- What stands for a variable did so before. -/
theorem Absorbs.of_expansion (h : Absorbs s s') {id v : Nat} (hv : s'.expansion id = .unsolved v) :
    ∃ w, s.expansion id = .unsolved w ∧ s'.expansion w = .unsolved v := by
  rw [← Kind.bind_unsolved s'.expansion id] at hv
  obtain ⟨w, hw, hlater⟩ := h.of_unsolved hv
  exact ⟨w, (Kind.bind_unsolved _ id).symm.trans hw, hlater⟩

/-- What an anchored variable stands for later is anchored. -/
theorem Anchored.absorbed {v w : Nat} (hv : s.Anchored mark pending v) (h : Absorbs s s')
    (holdest : ∀ id v, s'.expansion id = .unsolved v → v < mark ∨ v ≤ id)
    (hw : s'.expansion v = .unsolved w) : s'.Anchored mark pending w := by
  rcases hv with hlt | ⟨id, hid, heq⟩
  · rcases holdest v w hw with hlt' | hle
    · exact .inl hlt'
    · exact .inl (Nat.lt_of_le_of_lt hle hlt)
  · refine .inr ⟨id, hid, ?_⟩
    rw [← h id, heq, Kind.bind_unsolved, hw]

theorem Held.absorbed (hheld : s.Held mark pending kind) (h : Absorbs s s')
    (hs' : s'.Placed mark pending) : s'.Held mark pending kind := by
  intro w hw
  rw [← h.bind] at hw
  obtain ⟨v, hv, hw⟩ := Kind.mem_unknowns_bind.1 hw
  rcases hs'.flat v with ⟨w', hw'⟩ | hheld'
  · rw [Kind.bind_unsolved] at hw'
    rw [hw'] at hw
    obtain rfl : w = w' := by simpa using hw
    exact (hheld v hv).absorbed h hs'.oldest hw'
  · exact hheld' w hw

theorem Flat.absorbed (hflat : s.Flat mark pending kind) (h : Absorbs s s')
    (hs' : s'.Placed mark pending) : s'.Flat mark pending kind := by
  rcases hflat with ⟨v, hv⟩ | hheld
  · have hlater : kind.bind s'.expansion = Kind.bind s'.expansion (.unsolved v) := by
      rw [← h.bind, hv]
    rw [Flat, Held, hlater]
    exact hs'.flat v
  · exact .inr (hheld.absorbed h hs')

/-- Pending variables that were solved need not be pending any more. -/
theorem Placed.settle {more : List Nat} (h : s.Placed mark (more ++ pending))
    (hmore : ∀ id ∈ more, ∀ v, s.expansion id = .unsolved v → s.Anchored mark pending v) :
    s.Placed mark pending where
  tidy := h.tidy
  ordered := h.ordered
  marked := h.marked
  registered id hid := h.registered id (List.mem_append_right _ hid)
  oldest := h.oldest
  flat id := (h.flat id).imp_right fun hheld v hv => by
    rcases hheld v hv with hlt | ⟨q, hq, heq⟩
    · exact .inl hlt
    · rcases List.mem_append.1 hq with hq | hq
      · exact hmore q hq v heq
      · exact .inr ⟨q, hq, heq⟩

/-- A variable that stands for itself is replaced by a flat kind of such variables. -/
theorem Placed.rewrites (h : s.Placed mark pending) {id : Nat}
    (hrewrites : Rewrites (Kind.single id kind) s s')
    (hkind : ∀ v ∈ kind.unknowns, v ≠ id ∧ s.expansion v = .unsolved v)
    (holder : ∀ v, kind = .unsolved v → v < mark ∨ v ≤ id) (hflat : s.Flat mark pending kind) :
    s'.Placed mark pending := by
  have hself : kind.bind s.expansion = kind := Kind.bind_self fun v hv => (hkind v hv).2
  rw [Flat, Held, hself] at hflat
  have hkept : ∀ {v}, v ≠ id → s.Anchored mark pending v → s'.Anchored mark pending v := by
    rintro v hne (hlt | ⟨q, hq, heq⟩)
    · exact .inl hlt
    · refine .inr ⟨q, hq, ?_⟩
      rw [hrewrites.expansion, heq, Kind.bind_unsolved, Kind.single_of_ne hne]
  have hreplaced : s.Anchored mark pending id → ∀ v ∈ kind.unknowns,
      s'.Anchored mark pending v := by
    intro hid v hv
    rcases hflat with ⟨w, rfl⟩ | hheld
    · obtain rfl : v = w := by simpa using hv
      rcases hid with hlt | ⟨q, hq, heq⟩
      · rcases holder v rfl with hlt' | hle
        · exact .inl hlt'
        · exact .inl (Nat.lt_of_le_of_lt hle hlt)
      · refine .inr ⟨q, hq, ?_⟩
        rw [hrewrites.expansion, heq, Kind.bind_unsolved, Kind.single_self]
    · exact hkept (hkind v hv).1 (hheld v hv)
  refine ⟨hrewrites.tidy, ?_, Nat.le_trans h.marked hrewrites.created, fun q hq => ?_,
    fun v w hw => ?_, fun v => ?_⟩
  · rw [hrewrites.stack]
    exact h.ordered
  · rw [Registered, hrewrites.stack]
    exact h.registered q hq
  · rw [hrewrites.expansion] at hw
    cases hv : s.expansion v with
    | type => rw [hv, Kind.bind_type] at hw; cases hw
    | higher args result => rw [hv, Kind.bind_higher] at hw; cases hw
    | unsolved t =>
      rw [hv, Kind.bind_unsolved] at hw
      have hold := h.oldest v t hv
      by_cases ht : t = id
      · rw [ht, Kind.single_self] at hw
        have hnew := holder w hw
        omega
      · rw [Kind.single_of_ne ht, Kind.unsolved.injEq] at hw
        rwa [← hw]
  · rw [Flat, Held, Kind.bind_unsolved, hrewrites.expansion]
    rcases h.flat v with ⟨t, ht⟩ | hheld
    · rw [Kind.bind_unsolved] at ht
      rw [ht, Kind.bind_unsolved]
      by_cases hid : t = id
      · rw [hid, Kind.single_self]
        refine hflat.imp_right fun hheld w hw => hkept (hkind w hw).1 (hheld w hw)
      · exact .inl ⟨t, Kind.single_of_ne hid kind⟩
    · refine .inr fun w hw => ?_
      obtain ⟨t, ht, hw⟩ := Kind.mem_unknowns_bind.1 hw
      by_cases hid : t = id
      · rw [hid, Kind.single_self] at hw
        exact hreplaced (hid ▸ hheld t ht) w hw
      · rw [Kind.single_of_ne hid] at hw
        obtain rfl : w = t := by simpa using hw
        exact hkept hid (hheld w ht)

/-- Solving a variable by a flat kind, or another variable by it. -/
theorem Placed.solves (h : s.Placed mark pending) {id : Nat} (hid : s.Registered id)
    (hfinal : s.expansion id = .unsolved id) (hlive : s.Live kind)
    (hkind : ∀ v ∈ kind.unknowns, v ≠ id ∧ s.expansion v = .unsolved v)
    (hflat : s.Flat mark pending kind) (hsolves : Solve.Solves id kind s s') :
    s'.Placed mark pending := by
  by_cases hpick : s.pickKind (.unsolved id) kind = kind
  · refine h.rewrites (hsolves.replaced hpick) hkind ?_ hflat
    rintro v rfl
    exact (h.ordered.pickKind_le hid (hlive v (by simp))).2 hpick
  · have hpicks := Kind.picks_pickKind (α := Located Attributes) s.stack.outermostFirst
    cases kind with
    | type => exact (hpick (hpicks.solved rfl rfl)).elim
    | higher args result => exact (hpick (hpicks.solved rfl rfl)).elim
    | unsolved other =>
      have hleft := (hpicks.chosen (a := .unsolved id) (b := .unsolved other) rfl
        rfl).resolve_right hpick
      obtain ⟨hne, -⟩ := hkind other (by simp)
      refine h.rewrites (hsolves.represents other rfl hleft) (fun v hv => ?_) (fun v hv => ?_)
        (h.flat id)
      · obtain rfl : v = id := by simpa using hv
        exact ⟨hne.symm, hfinal⟩
      · obtain rfl := Kind.unsolved.inj hv
        exact (h.ordered.pickKind_le hid (hlive other (by simp))).1 hleft

/-! ## Frames -/

/-- The innermost frame was pushed on the given stack and registers only variables that are not
older than some moment. -/
def Inside (s : Store) (outer : Stack (Located Attributes)) (tag : ScopeTag) (since : Nat) : Prop :=
  ∃ ids, s.Opened outer tag ids ∧ ∀ id ∈ ids, since ≤ id

variable {outer : Stack (Located Attributes)} {tag : ScopeTag} {since : Nat}

theorem Inside.of_stack (h : s.Inside outer tag since) (hstack : s'.stack = s.stack) :
    s'.Inside outer tag since := by
  obtain ⟨ids, hopened, hids⟩ := h
  exact ⟨ids, hopened.of_stack hstack, hids⟩

theorem inside_pushed (s : Store) (kind : ScopeKind) :
    (s.pushed kind).Inside s.stack kind.tag s.nextKind :=
  ⟨[], opened_pushed s kind, fun _ hid => (List.not_mem_nil hid).elim⟩

theorem Placed.pushed (h : s.Placed mark pending) (kind : ScopeKind) :
    (s.pushed kind).Placed mark pending where
  tidy := h.tidy.pushed kind
  ordered := Stack.ordered_push.2 ⟨fun _ _ _ hw => (List.not_mem_nil hw).elim, h.ordered⟩
  marked := h.marked
  registered id hid := (opened_pushed s kind).registered_iff.2 (.inr (h.registered id hid))
  oldest := h.oldest
  flat := h.flat

/-- A frame is popped that registers no variable which the variables outside stand for. -/
theorem Placed.popScope (h : s.Placed mark pending) (hinside : s.Inside outer tag since)
    (htag : tag.dropsVariables = true) (houter : ∀ id, outer.HasKind id → id < since)
    (hmark : mark ≤ since) (hpending : ∀ id ∈ pending, outer.HasKind id) :
    ∃ frame s', Solve.popScope tag s = .ok frame s' ∧ s'.stack = outer ∧ Drops s s' ∧
      s'.Placed mark pending := by
  obtain ⟨ids, hopened, hids⟩ := hinside
  have hold : ∀ {id v}, id < since → s.expansion id = .unsolved v → v < since := by
    intro id v hid hv
    rcases h.oldest id v hv with hlt | hle <;> omega
  have hclosed : ∀ id, outer.HasKind id → ∀ v ∈ (s.expansion id).unknowns, outer.HasKind v := by
    intro id hid v hv
    have hregistered := h.tidy.closed id (hopened.registered_iff.2 (.inr hid)) v hv
    refine (hopened.registered_iff.1 hregistered).resolve_left fun hmem => ?_
    refine Nat.not_lt.2 (hids v hmem) ?_
    rcases h.flat id with ⟨w, hw⟩ | hheld
    · rw [Kind.bind_unsolved] at hw
      rw [hw] at hv
      obtain rfl : v = w := by simpa using hv
      exact hold (houter id hid) hw
    · rcases hheld v hv with hlt | ⟨q, hq, heq⟩
      · exact Nat.lt_of_lt_of_le hlt hmark
      · exact hold (houter q (hpending q hq)) heq
  obtain ⟨frame, s', hrun, hstack, hdrops⟩ := h.tidy.popScope hopened htag
    (fun id hid hmem => Nat.not_lt.2 (hids id hid) (houter id hmem)) hclosed
  have hregistered : ∀ {id}, s'.Registered id ↔ outer.HasKind id := by
    intro id
    rw [Registered, hstack]
  have hsame : ∀ {id}, outer.HasKind id → s'.expansion id = s.expansion id := fun hid =>
    hdrops.kept _ (hregistered.2 hid)
  refine ⟨frame, s', hrun, hstack, hdrops, hdrops.tidy, ?_, Nat.le_trans h.marked hdrops.created,
    fun id hid => hregistered.2 (hpending id hid), fun id v hv => ?_, fun id => ?_⟩
  · rw [hstack]
    obtain ⟨top, htop, -⟩ := hopened
    have hordered := h.ordered
    rw [htop, Stack.ordered_push] at hordered
    exact hordered.2
  · by_cases hid : outer.HasKind id
    · rw [hsame hid] at hv
      exact h.oldest id v hv
    · rw [hdrops.tidy.free id fun hmem => hid (hregistered.1 hmem), Kind.unsolved.injEq] at hv
      exact .inr (Nat.le_of_eq hv.symm)
  · by_cases hid : outer.HasKind id
    · rw [Flat, Held, Kind.bind_unsolved, hsame hid]
      refine (h.flat id).imp_right fun hheld v hv => (hheld v hv).imp_right ?_
      rintro ⟨q, hq, heq⟩
      exact ⟨q, hq, (hsame (hpending q hq)).trans heq⟩
    · exact .inl ⟨id, hdrops.tidy.free id fun hmem => hid (hregistered.1 hmem)⟩

end Store

namespace Solve

open Run Store

variable {s : Store} {mark : Nat} {pending : List Nat} {known : List Kind}

/-! ## Checks -/

/-- A variable that does not occur in a flat kind is solved by it. -/
theorem solveVariable_placed {limit depth id : Nat} {kind : Kind} (side : Side)
    (h : s.Placed mark pending) (hid : Substituted known s depth limit limit (.unsolved id))
    (hkind : Substituted known s depth limit limit kind) (hoccurs : kind.occurs id = false)
    (hflat : s.Flat mark pending kind) :
    Ends (instantiateKindWith (checkSubKindWithin limit) side id kind) s fun _ s' =>
      s'.Placed mark pending := by
  have hregistered := hid.live id (by simp)
  have hfinal := hid.final id (by simp)
  have hmentions : ∀ v ∈ kind.unknowns, v ≠ id ∧ s.expansion v = .unsolved v := by
    intro v hv
    refine ⟨?_, hkind.final v hv⟩
    rintro rfl
    rw [Kind.occurs_iff.2 hv] at hoccurs
    cases hoccurs
  refine (solvesWithin limit limit side h.tidy hregistered hfinal hkind.live hmentions
    hkind.shallow hkind.shallow').ends.mono ?_
  rintro solved s' ⟨-, hsolves⟩
  exact h.solves hregistered hfinal hkind.live hmentions hflat hsolves

/-- A check of flat kinds which stand deep enough keeps variables in place. -/
def KeepsPlaces (mark : Nat) (pending : List Nat) (known : List Kind) (depth : Nat)
    (check : Kind → Kind → Solve Bool) : Prop :=
  ∀ {s : Store} (a b : Kind), s.Placed mark pending → Generated known s → s.Live a → s.Live b →
    Stands known s depth a → Stands known s depth b → s.Flat mark pending a →
    s.Flat mark pending b →
    Ends (check a b) s fun matched s' => matched = true → s'.Placed mark pending

/-- Held kinds are checked one after the other. -/
theorem KeepsPlaces.allM {limit depth : Nat}
    (hcheck : KeepsPlaces mark pending known depth (checkSubKindWithin limit))
    (hdepth : known.length < limit + depth) : ∀ (pairs : List (Kind × Kind)) {s : Store},
    s.Placed mark pending → Generated known s → (∀ pair ∈ pairs, (s.Live pair.1 ∧ s.Live pair.2) ∧
      (Stands known s depth pair.1 ∧ Stands known s depth pair.2) ∧
      s.Held mark pending pair.1 ∧ s.Held mark pending pair.2) →
    Ends (pairs.allM fun (a, b) => checkSubKindWithin limit b a) s fun matched s' =>
      matched = true → s'.Placed mark pending ∧ Refines s s' ∧ Generated known s' := by
  intro pairs
  induction pairs with
  | nil => exact fun h hgenerated _ => Ends.pure fun _ => ⟨h, h.tidy.refines, hgenerated⟩
  | cons pair rest ih =>
    intro s h hgenerated hpairs
    obtain ⟨⟨hlive, hlive'⟩, ⟨hstands, hstands'⟩, hheld, hheld'⟩ :=
      hpairs pair List.mem_cons_self
    refine Ends.bind (((hcheck pair.2 pair.1 h hgenerated hlive' hlive hstands' hstands
      (.inr hheld') (.inr hheld)).and (checkSubKindWithin_meets limit limit depth hdepth hdepth
      pair.2 pair.1 h.tidy hgenerated hlive' hlive hstands' hstands).ends).mono ?_)
    rintro matched s₁ ⟨hplaced, hunifies⟩
    cases matched with
    | false => exact Ends.pure fun hfalse => Bool.noConfusion hfalse
    | true =>
      have hrefines := hunifies.refines
      have h₁ := hplaced rfl
      refine (ih h₁ hunifies.generated fun other hother => ?_).mono fun matched s₂ hrest htrue => ?_
      · obtain ⟨⟨hlive, hlive'⟩, ⟨hstands, hstands'⟩, hheld, hheld'⟩ :=
          hpairs other (List.mem_cons_of_mem _ hother)
        exact ⟨⟨hrefines.live hlive, hrefines.live hlive'⟩,
          ⟨hstands.refines hrefines, hstands'.refines hrefines⟩,
          hheld.absorbed hrefines.absorbs h₁, hheld'.absorbed hrefines.absorbs h₁⟩
      · obtain ⟨h₂, hrefines', hgenerated'⟩ := hrest htrue
        exact ⟨h₂, hrefines.trans hrefines', hgenerated'⟩

/-- Held higher kinds are checked part by part. -/
theorem KeepsPlaces.higher {limit depth : Nat}
    (hcheck : KeepsPlaces mark pending known depth (checkSubKindWithin limit))
    (hdepth : known.length < limit + depth) (h : s.Placed mark pending)
    (hgenerated : Generated known s) {args args' : List Kind} {result result' : Kind}
    (hlive : s.Live (.higher args result)) (hlive' : s.Live (.higher args' result'))
    (hparts : ∀ part, Kind.At 1 part (.higher args result) → Stands known s depth part)
    (hparts' : ∀ part, Kind.At 1 part (.higher args' result') → Stands known s depth part)
    (hheld : s.Held mark pending (.higher args result))
    (hheld' : s.Held mark pending (.higher args' result')) :
    Ends (withScope .checkSubKind do
        let matched ← (args.zip args').allM fun (arg, arg') => checkSubKindWithin limit arg' arg
        if matched then checkSubKindWithin limit result result' else pure false) s
      fun matched s' => matched = true → s'.Placed mark pending := by
  obtain ⟨hargs, hresult⟩ := live_higher.1 hlive
  obtain ⟨hargs', hresult'⟩ := live_higher.1 hlive'
  obtain ⟨hargsHeld, hresultHeld⟩ := held_higher.1 hheld
  obtain ⟨hargsHeld', hresultHeld'⟩ := held_higher.1 hheld'
  have hpushed := h.pushed .checkSubKind
  have hlivePushed : ∀ {kind : Kind}, s.Live kind → (s.pushed .checkSubKind).Live kind :=
    fun hkind id hid => (opened_pushed s .checkSubKind).registered_iff.2 (.inr (hkind id hid))
  have hbody : Ends (do
      let matched ← (args.zip args').allM fun (arg, arg') => checkSubKindWithin limit arg' arg
      if matched then checkSubKindWithin limit result result' else pure false)
      (s.pushed .checkSubKind) fun matched s₁ => matched = true → s₁.Placed mark pending ∧
        Refines (s.pushed .checkSubKind) s₁ := by
    refine Ends.bind ((hcheck.allM hdepth (args.zip args') hpushed hgenerated
      fun pair hpair => ?_).mono ?_)
    · obtain ⟨hleft, hright⟩ := List.of_mem_zip hpair
      exact ⟨⟨hlivePushed (hargs _ hleft), hlivePushed (hargs' _ hright)⟩,
        ⟨hparts _ (.arg hleft (.root _)), hparts' _ (.arg hright (.root _))⟩,
        hargsHeld _ hleft, hargsHeld' _ hright⟩
    · intro matched s₁ hfirst
      cases matched with
      | false => exact Ends.pure fun hfalse => Bool.noConfusion hfalse
      | true =>
        obtain ⟨h₁, hrefines, hgenerated₁⟩ := hfirst rfl
        have hlive₁ := hrefines.live (hlivePushed hresult)
        have hlive₁' := hrefines.live (hlivePushed hresult')
        have hstands₁ := Stands.refines (s := s.pushed .checkSubKind)
          (hparts _ (.result (.root _))) hrefines
        have hstands₁' := Stands.refines (s := s.pushed .checkSubKind)
          (hparts' _ (.result (.root _))) hrefines
        have hheld₁ := Held.absorbed (s := s.pushed .checkSubKind) hresultHeld hrefines.absorbs h₁
        have hheld₁' := Held.absorbed (s := s.pushed .checkSubKind) hresultHeld' hrefines.absorbs h₁
        refine ((hcheck result result' h₁ hgenerated₁ hlive₁ hlive₁' hstands₁ hstands₁'
          (.inr hheld₁) (.inr hheld₁')).and (checkSubKindWithin_meets limit limit depth hdepth
          hdepth result result' h₁.tidy hgenerated₁ hlive₁ hlive₁' hstands₁
          hstands₁').ends).mono ?_
        rintro matched s₂ ⟨hplaced, hunifies⟩ htrue
        exact ⟨hplaced htrue, hrefines.trans hunifies.refines⟩
  refine Ends.bind (Ends.modify (Ends.bind (hbody.mono fun matched s₁ hdone => ?_)))
  cases matched with
  | false => exact Ends.bind fun _ _ _ => Ends.pure fun hfalse => Bool.noConfusion hfalse
  | true =>
    obtain ⟨h₁, hrefines⟩ := hdone rfl
    obtain ⟨frame, s₂, hpop, -, -, h₂⟩ := h₁.popScope
      ((inside_pushed s .checkSubKind).of_stack hrefines.stack) rfl h.tidy.created h.marked
      h.registered
    refine Ends.bind fun frame' s₂' hpop' => Ends.pure fun _ => ?_
    rw [hpop] at hpop'
    cases hpop'
    exact h₂

/-- A check keeps variables in place when its depth is larger than the number of kinds that are
known, less the depth in which its kinds stand. -/
theorem checkSubKindWithin_placed (limit : Nat) : ∀ depth, known.length < limit + depth →
    KeepsPlaces mark pending known depth (checkSubKindWithin limit) := by
  induction limit with
  | zero => exact fun _ _ _ _ _ _ _ _ _ _ _ _ _ => Ends.pure fun hfalse => Bool.noConfusion hfalse
  | succ limit ih =>
    intro depth hdepth s a b h hgenerated hlive hlive' hstands hstands' hflat hflat'
    refine Ends.bind (Ends.bind (Ends.get (Ends.pure ?_)))
    refine Ends.bind (Ends.bind (Ends.get (Ends.pure ?_)))
    have hself : ∀ kind : Kind, (s.substituteKind kind).bind s.expansion =
        kind.bind s.expansion := by
      intro kind
      rw [substituteKind_eq_bind]
      exact h.tidy.sound.bind_expansion kind
    have ha : Substituted known s depth limit limit (s.substituteKind a) :=
      substituted h.tidy hgenerated (by omega) (by omega) hlive hstands
    have hb : Substituted known s depth limit limit (s.substituteKind b) :=
      substituted h.tidy hgenerated (by omega) (by omega) hlive' hstands'
    rw [Flat, Held, ← hself] at hflat hflat'
    generalize s.substituteKind a = a at ha hflat ⊢
    generalize s.substituteKind b = b at hb hflat' ⊢
    have hflipped : ∀ id, b = .unsolved id →
        Ends (if a.occurs id then pure false
          else instantiateKindWith (checkSubKindWithin limit) .sup id a) s
          fun matched s' => matched = true → s'.Placed mark pending := by
      rintro id rfl
      cases hoccurs : a.occurs id with
      | true => exact Ends.pure fun hfalse => Bool.noConfusion hfalse
      | false => exact (solveVariable_placed .sup h hb ha hoccurs hflat).mono fun _ _ h' _ => h'
    cases a with
    | unsolved id =>
      dsimp only
      split
      · exact Ends.pure fun _ => h
      · cases hoccurs : b.occurs id with
        | true => exact Ends.pure fun hfalse => Bool.noConfusion hfalse
        | false => exact (solveVariable_placed .sub h ha hb hoccurs hflat').mono fun _ _ h' _ => h'
    | type =>
      cases b with
      | type => exact Ends.pure fun _ => h
      | unsolved id => exact hflipped id rfl
      | higher args' result' => exact Ends.pure fun hfalse => Bool.noConfusion hfalse
    | higher args result =>
      cases b with
      | type => exact Ends.pure fun hfalse => Bool.noConfusion hfalse
      | unsolved id => exact hflipped id rfl
      | higher args' result' =>
        dsimp only
        split
        · refine KeepsPlaces.higher (ih (depth + 1) (by omega))
              (by omega) h hgenerated ha.live hb.live
            (ha.stands 1) (hb.stands 1) (Flat.held hflat fun v hv => ?_)
            (Flat.held hflat' fun v hv => ?_)
          · rw [Kind.bind_higher] at hv
            cases hv
          · rw [Kind.bind_higher] at hv
            cases hv
        · exact Ends.pure fun hfalse => Bool.noConfusion hfalse

/-- A check of flat kinds makes them equal, if it succeeds, and keeps variables in place. -/
theorem checkSubKind_placed (h : s.Placed mark pending) {a b : Kind} (ha : s.Live a) (hb : s.Live b)
    (hflat : s.Flat mark pending a) (hflat' : s.Flat mark pending b) :
    ∃ matched s', checkSubKind a b s = .ok matched s' ∧ Refines s s' ∧
      (matched = true → s'.Placed mark pending ∧
        a.bind s'.expansion = b.bind s'.expansion) := by
  obtain ⟨matched, s', hrun, hlimits, hunifies⟩ := checkSubKind_uncut h.tidy ha hb
  refine ⟨matched, s', hrun, hunifies.refines, fun hmatched => ⟨?_, ?_⟩⟩
  · exact checkSubKindWithin_placed _ 0 (Nat.lt_succ_self _) a b h
      (h.tidy.sound.generated _) ha hb (s.stands_of_mem (by simp)) (s.stands_of_mem (by simp))
      hflat hflat' matched s' (hlimits _ (Nat.lt_succ_self _)) hmatched
  · exact hunifies.sound hmatched _ List.mem_cons_self

end Solve

namespace Store

variable {s s' s'' : Store} {mark : Nat} {pending more : List Nat}
  {outer : Stack (Located Attributes)} {tag : ScopeTag} {since : Nat}

/-! ## Steps -/

/-- Work in the innermost frame that keeps variables in place.  Its solutions absorb the earlier
ones. -/
structure Leads (mark : Nat) (pending : List Nat) (s s' : Store) : Prop where
  placed : s'.Placed mark pending
  created : s.nextKind ≤ s'.nextKind
  registered : ∀ id, s.Registered id → s'.Registered id
  absorbs : Absorbs s s'
  inside : ∀ {outer tag since}, since ≤ s.nextKind → s.Inside outer tag since →
    s'.Inside outer tag since

/-- Work that binds no type. -/
structure LeadsCalmly (mark : Nat) (pending : List Nat) (s s' : Store) : Prop
    extends Leads mark pending s s' where
  bound : ∀ key, s'.kindBound key = s.kindBound key

theorem Placed.leads (h : s.Placed mark pending) : LeadsCalmly mark pending s s where
  placed := h
  created := Nat.le_refl _
  registered _ hid := hid
  absorbs id := h.tidy.sound.bind_expansion (.unsolved id)
  inside _ hinside := hinside
  bound _ := rfl

theorem Leads.trans {pending' : List Nat} (h : Leads mark pending s s')
    (h' : Leads mark pending' s' s'') : Leads mark pending' s s'' where
  placed := h'.placed
  created := Nat.le_trans h.created h'.created
  registered id hid := h'.registered id (h.registered id hid)
  absorbs := h.absorbs.trans h'.absorbs
  inside hsince hinside := h'.inside (Nat.le_trans hsince h.created) (h.inside hsince hinside)

theorem LeadsCalmly.trans {pending' : List Nat} (h : LeadsCalmly mark pending s s')
    (h' : LeadsCalmly mark pending' s' s'') : LeadsCalmly mark pending' s s'' :=
  ⟨h.toLeads.trans h'.toLeads, fun key => (h'.bound key).trans (h.bound key)⟩

theorem Leads.live (h : Leads mark pending s s') {kind : Kind} (hkind : s.Live kind) :
    s'.Live kind :=
  fun id hid => h.registered id (hkind id hid)

/-- The same work with other pending variables. -/
theorem LeadsCalmly.replace {pending' : List Nat} (h : LeadsCalmly mark pending s s')
    (hplaced : s'.Placed mark pending') : LeadsCalmly mark pending' s s' where
  placed := hplaced
  created := h.created
  registered := h.registered
  absorbs := h.absorbs
  inside := h.inside
  bound := h.bound

/-- Solutions were found. -/
theorem Refines.leads (h : Refines s s') (hplaced : s'.Placed mark pending) :
    LeadsCalmly mark pending s s' where
  placed := hplaced
  created := h.created
  registered id hid := by rwa [Registered, h.stack]
  absorbs := h.absorbs
  inside _ hinside := hinside.of_stack h.stack
  bound key := by rw [kindBound, h.stack, kindBound]

/-- More variables are pending. -/
theorem Placed.pend (h : s.Placed mark pending) (hmore : ∀ id ∈ more, s.Registered id) :
    s.Placed mark (more ++ pending) where
  tidy := h.tidy
  ordered := h.ordered
  marked := h.marked
  registered id hid := (List.mem_append.1 hid).elim (hmore id) (h.registered id)
  oldest := h.oldest
  flat id := (h.flat id).append more

/-- The stack is changed, but not the variables that it registers. -/
theorem Placed.withStack (h : s.Placed mark pending) {stack : Stack (Located Attributes)}
    (hregistered : ∀ id, stack.HasKind id ↔ s.stack.HasKind id) (hordered : stack.Ordered mark) :
    Placed mark pending { s with stack := stack } where
  tidy := ⟨(h.tidy.sound.withStack stack).sound,
    fun id hid => h.tidy.created id ((hregistered id).1 hid),
    fun id hid => h.tidy.free id fun hmem => hid ((hregistered id).2 hmem),
    fun id hid v hv => (hregistered v).2 (h.tidy.closed id ((hregistered id).1 hid) v hv)⟩
  ordered := hordered
  marked := h.marked
  registered id hid := (hregistered id).2 (h.registered id hid)
  oldest := h.oldest
  flat := h.flat

end Store

namespace Solve

open Run Store

variable {s s' : Store} {mark : Nat} {pending : List Nat}
  {outer : Stack (Located Attributes)} {tag : ScopeTag} {since : Nat}

/-- A variable is created in the innermost frame. -/
theorem freshKind_placed (h : s.Placed mark pending) (hinside : s.Inside outer tag since) :
    ∃ s', freshKind s = .ok (.unsolved s.nextKind) s' ∧ LeadsCalmly mark pending s s' ∧
      s'.nextKind = s.nextKind + 1 ∧ s'.Registered s.nextKind ∧
      s'.expansion = s.expansion := by
  obtain ⟨ids, hopened, -⟩ := hinside
  obtain ⟨frame, hstack, -, hframe⟩ := id hopened
  obtain ⟨s', hrun, hcreates⟩ := h.tidy.freshKind hopened
  have hexpansion : s'.expansion = s.expansion := funext hcreates.expansion
  have hregistered : ∀ {id}, s.Registered id → s'.Registered id := by
    intro id hid
    rw [hopened.registered_iff] at hid
    rw [hcreates.opened.registered_iff]
    exact hid.imp_left (List.mem_append_left _)
  have hplaced : s'.Placed mark pending := by
    refine ⟨hcreates.tidy, ?_, Nat.le_trans h.marked hcreates.grows.kinds,
      fun id hid => hregistered (h.registered id hid), ?_, fun id => ?_⟩
    · obtain ⟨frame', hstack', -, hframe'⟩ := hcreates.opened
      have hordered := h.ordered
      rw [hstack, Stack.ordered_push] at hordered
      rw [hstack', Stack.ordered_push]
      refine ⟨fun v hv w hw => ?_, hordered.2⟩
      rw [hframe', List.mem_append, List.mem_singleton] at hw
      rcases hw with hw | rfl
      · exact hordered.1 v hv w ((hframe w).2 hw)
      · exact .inr (Nat.le_of_lt (h.tidy.created v (hopened.registered_iff.2 (.inr hv))))
    · rw [hexpansion]
      exact h.oldest
    · simp only [Flat, Held, Anchored, hexpansion]
      exact h.flat id
  refine ⟨s', hrun, ⟨⟨hplaced, hcreates.grows.kinds, fun _ => hregistered, fun id => ?_, ?_⟩, ?_⟩,
    hcreates.next, ?_, hexpansion⟩
  · rw [hexpansion]
    exact h.tidy.sound.bind_expansion (.unsolved id)
  · rintro outer tag since hsince ⟨ids', hopened', hids'⟩
    obtain ⟨s'', hrun', hcreates'⟩ := h.tidy.freshKind hopened'
    rw [hrun] at hrun'
    cases hrun'
    refine ⟨ids' ++ [s.nextKind], hcreates'.opened, fun id hid => ?_⟩
    rw [List.mem_append, List.mem_singleton] at hid
    rcases hid with hid | rfl
    · exact hids' id hid
    · exact hsince
  · intro key
    have hrun' := freshKind_eq hstack
    rw [hrun] at hrun'
    injection hrun' with _ hs'
    rw [hs', kindBound, kindBound, hstack]
    exact congrArg (Option.bind · _) (Stack.type?_congr rfl rfl key)
  · exact hcreates.opened.registered_iff.2 (.inl (List.mem_append_right _ List.mem_cons_self))

/-- A variable is solved by a held kind whose parts are variables. -/
theorem instantiateKind_placed (h : s.Placed mark pending) {id : Nat} {args : List Kind}
    {result : Kind} (hid : s.Registered id) (hfinal : s.expansion id = .unsolved id)
    (hlive : s.Live (.higher args result))
    (hmentions : ∀ v ∈ (Kind.higher args result).unknowns, v ≠ id ∧ s.expansion v = .unsolved v)
    (hheld : s.Held mark pending (.higher args result))
    (hshallow : (Kind.higher args result).Shallow 1) :
    ∃ s', instantiateKind .sub id (.higher args result) s = .ok true s' ∧
      LeadsCalmly mark pending s s' ∧ s'.expansion id = .higher args result ∧
      ∀ v ∈ (Kind.higher args result).unknowns, s'.expansion v = .unsolved v := by
  have hdeep : ∀ limit, 1 ≤ limit → (Kind.higher args result).Shallow limit :=
    fun limit hlimit depth part hat => Nat.le_trans (hshallow depth part hat) hlimit
  have hrun : ∀ limit, 1 ≤ limit → ∃ s', instantiateKindWith (checkSubKindWithin limit) .sub id
      (.higher args result) s = .ok true s' ∧ Solves id (.higher args result) s s' := by
    intro limit hlimit
    obtain ⟨solved, s', hok, -, rfl, hsolves⟩ := solvesWithin limit limit .sub h.tidy hid hfinal
      hlive hmentions (hdeep limit hlimit) (hdeep limit hlimit)
    exact ⟨s', hok, hsolves⟩
  have hpositive : ∀ nodes : Nat, 1 ≤ (nodes + 2) * (nodes + 2) := fun nodes =>
    Nat.mul_pos (Nat.succ_pos _) (Nat.succ_pos _)
  obtain ⟨s', hok, hsolves⟩ := hrun _ (hpositive
    (total Kind.weight (s.kinds.elements ++ s.kinds.representatives ++ [.higher args result])))
  have hrewrites := hsolves.replaced
    ((Kind.picks_pickKind (α := Located Attributes) s.stack.outermostFirst).solved rfl rfl)
  have hplaced := h.solves hid hfinal hlive hmentions (.inr hheld) hsolves
  refine ⟨s', hok, (hrewrites.refines h.tidy).leads hplaced, ?_, fun v hv => ?_⟩
  · rw [hrewrites.expansion, hfinal, Kind.bind_unsolved, Kind.single_self]
  · exact hrewrites.expansion_of_ne (hmentions v hv).2 (hmentions v hv).1

/-- A type is bound in the innermost frame. -/
theorem putType_placed (h : s.Placed mark pending) (key : String) (here : Located Attributes) :
    Ends (putType key here) s fun _ s' => Leads mark pending s s' ∧
      s'.nextKind = s.nextKind ∧ ∀ other, s'.kindBound other =
        if other = key then here.info.classifier.kind? else s.kindBound other := by
  refine Ends.within (Stack.updateTop_ends fun frame rest hframes => ?_)
  have hstack : s.stack = Stack.push { s.stack with frames := rest } frame := by
    rw [Stack.push, ← hframes]
  have hregistered : ∀ id, (Stack.push { s.stack with frames := rest }
      (frame.putType key here)).HasKind id ↔ s.stack.HasKind id := by
    intro id
    rw [hstack, Stack.hasKind_push, Stack.hasKind_push]
    rfl
  have hordered : (Stack.push { s.stack with frames := rest } (frame.putType key here)).Ordered
      mark := by
    have hbefore := h.ordered
    rw [hstack, Stack.ordered_push] at hbefore
    exact Stack.ordered_push.2 ⟨hbefore.1, hbefore.2⟩
  refine ⟨⟨h.withStack hregistered hordered, Nat.le_refl _,
    fun id hid => (hregistered id).2 hid, fun id => h.tidy.sound.bind_expansion (.unsolved id), ?_⟩,
    rfl, fun other => ?_⟩
  · rintro outer tag since - ⟨ids, ⟨frame', hframe', htag, hids'⟩, hids⟩
    obtain ⟨rfl, rfl⟩ : frame' = frame ∧ outer = { s.stack with frames := rest } := by
      cases outer
      rw [hframe', Stack.push] at hframes
      obtain ⟨rfl, rfl⟩ := List.cons.inj hframes
      rw [hframe']
      exact ⟨rfl, rfl⟩
    exact ⟨ids, ⟨frame'.putType key here, rfl, htag, hids'⟩, hids⟩
  · have hfound : ∀ frames : List (Frame (Located Attributes)),
        (Stack.mk frames s.stack.builtIns).type? other =
          (frames.findSome? fun frame => frame.type? other).or
            (s.stack.builtIns.bind fun frame => frame.type? other) := fun _ => rfl
    have hold : s.stack.type? other = ((frame :: rest).findSome? fun frame => frame.type? other).or
        (s.stack.builtIns.bind fun frame => frame.type? other) := by
      rw [Stack.type?, Stack.lookup, hframes]
    rw [kindBound, kindBound, hold]
    dsimp only
    rw [hfound, List.findSome?_cons, List.findSome?_cons, Frame.putType, Frame.type?,
      Table.get?_insert]
    by_cases hkey : other = key
    · simp [hkey]
    · simp [hkey, Frame.type?]

/-- The work in a frame that is popped in the end. -/
theorem popScope_placed {kind : ScopeKind} (hs : s.Placed mark pending)
    (h : Leads mark pending (s.pushed kind) s') (htag : kind.tag.dropsVariables = true) :
    ∃ frame s'', popScope kind.tag s' = .ok frame s'' ∧ LeadsCalmly mark pending s s'' ∧
      ∀ id, s.Registered id → s''.expansion id = s'.expansion id := by
  obtain ⟨frame, s'', hrun, hstack, hdrops, hplaced⟩ := h.placed.popScope
    (h.inside (Nat.le_refl _) (inside_pushed s kind)) htag hs.tidy.created hs.marked hs.registered
  have hkept : ∀ id, s.Registered id → s''.expansion id = s'.expansion id := by
    intro id hid
    refine hdrops.kept id ?_
    rwa [Registered, hstack]
  refine ⟨frame, s'', hrun, ⟨⟨hplaced, Nat.le_trans h.created hdrops.created, fun id hid => ?_,
    fun id => ?_, fun _ hinside => hinside.of_stack hstack⟩, fun key => ?_⟩, hkept⟩
  · rwa [Registered, hstack]
  · by_cases hid : s.Registered id
    · rw [hkept id hid, ← h.absorbs id]
      refine Kind.bind_congr fun v hv => hkept v ?_
      exact hs.tidy.closed id hid v hv
    · rw [hs.tidy.free id hid, Kind.bind_unsolved]
  · rw [kindBound, hstack, kindBound]

end Solve

end PolyFront
