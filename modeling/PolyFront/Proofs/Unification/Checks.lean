import PolyFront.Proofs.Unification.Assignments

/-!
# Checking kinds is unification

While checks mention only registered variables, every step of a check replaces one variable in all
expansions by a kind to which every unifier gives the same value.  So a check succeeds exactly when
there is a unifier, and the solutions that it records are most general.  Its recursion follows
paths through substituted kinds, which are bounded.
-/

namespace PolyFront

namespace Store

variable {s s' s'' : Store} {known : List Kind} {pairs pairs' : List (Kind × Kind)}
  {matched : Bool}

/-- A run that unifies pairs of kinds as far as it succeeds, and succeeds when they have a
unifier. -/
structure Unifies (known : List Kind) (pairs : List (Kind × Kind)) (s : Store) (matched : Bool)
    (s' : Store) : Prop where
  refines : Refines s s'
  generated : Generated known s'
  sound : matched = true →
    ∀ pair ∈ pairs, pair.1.bind s'.expansion = pair.2.bind s'.expansion
  complete : ∀ assignment, s.Satisfied assignment →
    (∀ pair ∈ pairs, pair.1.bind assignment = pair.2.bind assignment) →
    matched = true ∧ s'.Satisfied assignment

theorem Unifies.append (h : Unifies known pairs s true s')
    (h' : Unifies known pairs' s' matched s'') :
    Unifies known (pairs ++ pairs') s matched s'' where
  refines := h.refines.trans h'.refines
  generated := h'.generated
  sound hmatched pair hpair := by
    rcases List.mem_append.1 hpair with hpair | hpair
    · rw [← h'.refines.bind, h.sound rfl pair hpair, h'.refines.bind]
    · exact h'.sound hmatched pair hpair
  complete assignment hsatisfied hpairs := by
    obtain ⟨-, hsatisfied'⟩ := h.complete assignment hsatisfied fun pair hpair =>
      hpairs pair (List.mem_append_left _ hpair)
    exact h'.complete assignment hsatisfied' fun pair hpair =>
      hpairs pair (List.mem_append_right _ hpair)

theorem Unifies.fail (h : Unifies known pairs s false s') (pairs' : List (Kind × Kind)) :
    Unifies known (pairs ++ pairs') s false s' where
  refines := h.refines
  generated := h.generated
  sound hmatched := Bool.noConfusion hmatched
  complete assignment hsatisfied hpairs := by
    obtain ⟨hfalse, -⟩ := h.complete assignment hsatisfied fun pair hpair =>
      hpairs pair (List.mem_append_left _ hpair)
    cases hfalse

/-- Other pairs that are made equal by the same assignments. -/
theorem Unifies.congr (h : Unifies known pairs s matched s')
    (hsound : (∀ pair ∈ pairs, pair.1.bind s'.expansion = pair.2.bind s'.expansion) →
      ∀ pair ∈ pairs', pair.1.bind s'.expansion = pair.2.bind s'.expansion)
    (hcomplete : ∀ assignment, s.Satisfied assignment →
      (∀ pair ∈ pairs', pair.1.bind assignment = pair.2.bind assignment) →
      ∀ pair ∈ pairs, pair.1.bind assignment = pair.2.bind assignment) :
    Unifies known pairs' s matched s' where
  refines := h.refines
  generated := h.generated
  sound hmatched := hsound (h.sound hmatched)
  complete assignment hsatisfied hpairs :=
    h.complete assignment hsatisfied (hcomplete assignment hsatisfied hpairs)

theorem Unifies.swap {a b : Kind} (h : Unifies known [(a, b)] s matched s') :
    Unifies known [(b, a)] s matched s' := by
  refine h.congr (fun hpairs => ?_) fun assignment _ hpairs => ?_
  · simpa using (hpairs _ List.mem_cons_self).symm
  · simpa using (hpairs _ List.mem_cons_self).symm

theorem Unifies.of_substituted {a b : Kind} (hs : s.Sound)
    (h : Unifies known [(s.substituteKind a, s.substituteKind b)] s matched s') :
    Unifies known [(a, b)] s matched s' := by
  refine h.congr (fun hpairs => ?_) fun assignment hsatisfied hpairs => ?_
  · have heq := hpairs _ List.mem_cons_self
    rw [substituteKind_eq_bind, substituteKind_eq_bind, h.refines.bind, h.refines.bind] at heq
    simpa using heq
  · have heq := hpairs _ List.mem_cons_self
    rw [← hsatisfied.bind_substituteKind hs, ← hsatisfied.bind_substituteKind hs b] at heq
    simpa using heq

/-- Nothing is done for pairs that are equal already. -/
theorem Tidy.unifies_self (hs : s.Tidy) (h : Generated known s)
    (hpairs : ∀ pair ∈ pairs, pair.1 = pair.2) : Unifies known pairs s true s where
  refines := hs.refines
  generated := h
  sound _ pair hpair := by rw [hpairs pair hpair]
  complete _ hsatisfied _ := ⟨rfl, hsatisfied⟩

/-- Nothing is done for kinds that no assignment makes equal. -/
theorem Tidy.unifies_never (hs : s.Tidy) (h : Generated known s) {a b : Kind}
    (hnever : ∀ assignment, a.bind assignment ≠ b.bind assignment) :
    Unifies known [(a, b)] s false s where
  refines := hs.refines
  generated := h
  sound hmatched := Bool.noConfusion hmatched
  complete assignment _ hpairs := (hnever assignment (hpairs _ List.mem_cons_self)).elim

/-- A variable is replaced by a kind. -/
theorem Tidy.unifies_single (hs : s.Tidy) (h : Generated known s) {id : Nat} {kind : Kind}
    (hrewrites : Rewrites (Kind.single id kind) s s') (hfinal : s.expansion id = .unsolved id)
    (hkind : ∀ v ∈ kind.unknowns, v ≠ id ∧ s.expansion v = .unsolved v)
    (hparts : ∀ below part, Kind.At below part kind → part.isUnsolved = false →
      ∃ origin ∈ known, part = origin.bind s.expansion) :
    Unifies known [(.unsolved id, kind)] s true s' where
  refines := hrewrites.refines hs
  generated := h.rewrites hrewrites (fun hmem => (hkind id hmem).1 rfl) hparts
  sound _ pair hpair := by
    obtain rfl := List.mem_singleton.1 hpair
    dsimp only
    rw [Kind.bind_unsolved, hrewrites.expansion, hfinal, Kind.bind_unsolved, Kind.single_self]
    refine (Kind.bind_self fun v hv => ?_).symm
    exact hrewrites.expansion_of_ne (hkind v hv).2 (hkind v hv).1
  complete assignment hsatisfied hpairs := by
    have heq := hpairs _ List.mem_cons_self
    rw [Kind.bind_unsolved] at heq
    refine ⟨rfl, hrewrites.tidy.sound.satisfied_iff.2 fun v => ?_⟩
    rw [hrewrites.expansion, Kind.bind_single_bind heq]
    exact hs.sound.satisfied_iff.1 hsatisfied v

theorem eq_of_mem_zip {f : Kind → Kind} {left right : List Kind}
    (h : left.map f = right.map f) {pair : Kind × Kind} (hpair : pair ∈ left.zip right) :
    f pair.1 = f pair.2 := by
  induction left generalizing right with
  | nil => cases hpair
  | cons kind rest ih =>
    cases right with
    | nil => cases hpair
    | cons kind' rest' =>
      rw [List.map_cons, List.map_cons, List.cons.injEq] at h
      rcases List.mem_cons.1 hpair with rfl | hpair
      · exact h.1
      · exact ih h.2 hpair

/-- The parts of higher kinds of the same length are unified pair by pair. -/
theorem Unifies.higher {args args' : List Kind} {result result' : Kind}
    (hlength : args.length = args'.length)
    (h : Unifies known (args.zip args' ++ [(result, result')]) s matched s') :
    Unifies known [(.higher args result, .higher args' result')] s matched s' := by
  refine h.congr (fun hpairs => ?_) fun assignment _ hpairs pair hpair => ?_
  · rintro pair hpair
    obtain rfl := List.mem_singleton.1 hpair
    have hargs : args.map (Kind.bind s'.expansion) = args'.map (Kind.bind s'.expansion) :=
      Solve.map_eq_of_zip hlength fun pair hpair => hpairs pair (List.mem_append_left _ hpair)
    have hresult := hpairs (result, result') (List.mem_append_right _ List.mem_cons_self)
    dsimp only at hresult ⊢
    rw [Kind.bind_higher, Kind.bind_higher, hargs, hresult]
  · have heq := hpairs _ List.mem_cons_self
    rw [Kind.bind_higher, Kind.bind_higher, Kind.higher.injEq] at heq
    rcases List.mem_append.1 hpair with hpair | hpair
    · exact eq_of_mem_zip heq.1 hpair
    · obtain rfl := List.mem_singleton.1 hpair
      exact heq.2

/-- Work in a frame that registers no variable. -/
theorem Unifies.of_pushed {kind : ScopeKind}
    (h : Unifies known pairs (s.pushed kind) matched s') (hstack : s''.stack = s.stack)
    (hdrops : Drops s' s'') : Unifies known pairs s matched s'' := by
  have hopened := (opened_pushed s kind).of_stack h.refines.stack
  have hexpansion : s''.expansion = s'.expansion := by
    funext id
    by_cases hid : s''.Registered id
    · exact hdrops.kept id hid
    · have hid' : ¬s'.Registered id := by
        rw [hopened.registered_iff]
        rw [Registered, hstack] at hid
        simpa using hid
      rw [hdrops.tidy.free id hid, h.refines.tidy.free id hid']
  refine ⟨⟨hdrops.tidy, hstack, ?_, fun id => ?_⟩, ?_, fun hmatched => ?_,
    fun assignment hsatisfied hpairs => ?_⟩
  · exact Nat.le_trans h.refines.created hdrops.created
  · rw [hexpansion]
    exact h.refines.absorbs id
  · rw [Generated, hexpansion]
    exact h.generated
  · rw [hexpansion]
    exact h.sound hmatched
  · obtain ⟨hmatched, hsatisfied'⟩ := h.complete assignment hsatisfied hpairs
    refine ⟨hmatched, hdrops.tidy.sound.satisfied_iff.2 ?_⟩
    rw [hexpansion]
    exact h.refines.tidy.sound.satisfied_iff.1 hsatisfied'

end Store

namespace Solve

open Run Store

variable {s : Store} {known : List Kind} {limit limit' : Nat}

/-- Solving a variable unifies it with the kind. -/
theorem solveVariable_meets (side : Side) (hs : s.Tidy) (hgenerated : Generated known s) {id : Nat}
    {kind : Kind} (hid : s.Registered id) (hfinal : s.expansion id = .unsolved id)
    (hlive : s.Live kind) (hkind : ∀ v ∈ kind.unknowns, v ≠ id ∧ s.expansion v = .unsolved v)
    (hparts : ∀ below part, Kind.At below part kind → part.isUnsolved = false →
      ∃ origin ∈ known, part = origin.bind s.expansion)
    (hshallow : kind.Shallow limit) (hshallow' : kind.Shallow limit') :
    Meets (instantiateKindWith (checkSubKindWithin limit) side id kind)
      (instantiateKindWith (checkSubKindWithin limit') side id kind) s
      (Unifies known [(.unsolved id, kind)] s) := by
  refine (solvesWithin limit limit' side hs hid hfinal hlive hkind hshallow hshallow').mono ?_
  rintro solved s' ⟨rfl, hsolved⟩
  by_cases hpick : s.pickKind (.unsolved id) kind = kind
  · exact hs.unifies_single hgenerated (hsolved.replaced hpick) hfinal hkind hparts
  · have hpicks := Kind.picks_pickKind (α := Located Attributes) s.stack.outermostFirst
    cases kind with
    | type => exact (hpick (hpicks.solved rfl rfl)).elim
    | higher args result => exact (hpick (hpicks.solved rfl rfl)).elim
    | unsolved other =>
      have hleft := (hpicks.chosen (a := .unsolved id) (b := .unsolved other) rfl
        rfl).resolve_right hpick
      obtain ⟨hne, hother⟩ := hkind other (by simp)
      refine (hs.unifies_single hgenerated (hsolved.represents other rfl hleft) hother
        (fun v hv => ?_) fun below part hat hsolid => ?_).swap
      · obtain rfl : v = id := by simpa using hv
        exact ⟨hne.symm, hfinal⟩
      · cases hat
        cases hsolid

/-- A check that unifies kinds which stand deep enough. -/
def UnifiesWithin (known : List Kind) (depth : Nat) (check check' : Kind → Kind → Solve Bool) :
    Prop :=
  ∀ {s : Store} (a b : Kind), s.Tidy → Generated known s → s.Live a → s.Live b →
    Stands known s depth a → Stands known s depth b →
    Meets (check a b) (check' a b) s (Unifies known [(a, b)] s)

/-- Pairs are unified one after the other. -/
theorem UnifiesWithin.allM {depth : Nat} {check check' : Kind → Kind → Solve Bool}
    (hcheck : UnifiesWithin known depth check check') : ∀ {s : Store} (pairs : List (Kind × Kind)),
    s.Tidy → Generated known s → (∀ pair ∈ pairs, (s.Live pair.1 ∧ s.Live pair.2) ∧
      Stands known s depth pair.1 ∧ Stands known s depth pair.2) →
    Meets (pairs.allM fun (a, b) => check b a) (pairs.allM fun (a, b) => check' b a) s
      (Unifies known pairs s) := by
  intro s pairs
  induction pairs generalizing s with
  | nil =>
    intro hs hgenerated _
    exact Meets.pure (hs.unifies_self hgenerated fun _ hpair => (List.not_mem_nil hpair).elim)
  | cons pair rest ih =>
    intro hs hgenerated hpairs
    obtain ⟨⟨hlive, hlive'⟩, hstands, hstands'⟩ := hpairs pair List.mem_cons_self
    refine Meets.bind ((hcheck pair.2 pair.1 hs hgenerated hlive' hlive hstands'
      hstands).mono ?_)
    intro matched s₁ hunifies
    cases matched with
    | false => exact Meets.pure (hunifies.swap.fail rest)
    | true =>
      have hrefines := hunifies.refines
      refine (ih hrefines.tidy hunifies.generated fun other hother => ?_).mono
        fun matched s₂ hrest => hunifies.swap.append hrest
      obtain ⟨⟨hlive, hlive'⟩, hstands, hstands'⟩ := hpairs other (List.mem_cons_of_mem _ hother)
      exact ⟨⟨hrefines.live hlive, hrefines.live hlive'⟩, hstands.refines hrefines,
        hstands'.refines hrefines⟩

/-- Higher kinds are unified part by part. -/
theorem UnifiesWithin.higher {depth : Nat} {check check' : Kind → Kind → Solve Bool}
    (hcheck : UnifiesWithin known depth check check') (hs : s.Tidy) (hgenerated : Generated known s)
    {args args' : List Kind} {result result' : Kind} (hlive : s.Live (.higher args result))
    (hlive' : s.Live (.higher args' result'))
    (hparts : ∀ part, Kind.At 1 part (.higher args result) → Stands known s depth part)
    (hparts' : ∀ part, Kind.At 1 part (.higher args' result') → Stands known s depth part)
    (hlength : args.length = args'.length) :
    Meets (withScope .checkSubKind do
        let matched ← (args.zip args').allM fun (arg, arg') => check arg' arg
        if matched then check result result' else pure false)
      (withScope .checkSubKind do
        let matched ← (args.zip args').allM fun (arg, arg') => check' arg' arg
        if matched then check' result result' else pure false) s
      (Unifies known [(.higher args result, .higher args' result')] s) := by
  obtain ⟨hargs, hresult⟩ := live_higher.1 hlive
  obtain ⟨hargs', hresult'⟩ := live_higher.1 hlive'
  refine withScope_meets rfl ?_
  have hpushed := hs.pushed .checkSubKind
  have hregistered : ∀ {id}, (s.pushed .checkSubKind).Registered id ↔ s.Registered id := by
    intro id
    rw [(opened_pushed s .checkSubKind).registered_iff]
    simp [Registered]
  have hlivePushed : ∀ {kind : Kind}, s.Live kind → (s.pushed .checkSubKind).Live kind :=
    fun hkind id hid => hregistered.2 (hkind id hid)
  -- What holds in the inner frame holds once it is popped.
  have hdone : ∀ {matched s₁}, Unifies known (args.zip args' ++ [(result, result')])
      (s.pushed .checkSubKind) matched s₁ → s₁.Tidy ∧
      (∃ ids, s₁.Opened s.stack ScopeKind.checkSubKind.tag ids ∧ ∀ id ∈ ids, ¬s.Registered id) ∧
      (∀ id, s.Registered id → s.Live (s₁.expansion id)) ∧
      ∀ s₂, s₂.stack = s.stack → Drops s₁ s₂ →
        Unifies known [(.higher args result, .higher args' result')] s matched s₂ := by
    intro matched s₁ hunifies
    have hopened := (opened_pushed s .checkSubKind).of_stack hunifies.refines.stack
    have hsame : ∀ {id}, s₁.Registered id ↔ s.Registered id := by
      intro id
      rw [Registered, hunifies.refines.stack]
      exact hregistered
    refine ⟨hunifies.refines.tidy, ⟨[], hopened, fun _ hid => (List.not_mem_nil hid).elim⟩,
      fun id hid v hv => ?_, fun s₂ hstack hdrops => ?_⟩
    · exact hsame.1 (hunifies.refines.tidy.closed id (hsame.2 hid) v hv)
    · exact (hunifies.higher hlength).of_pushed hstack hdrops
  refine Meets.bind ((hcheck.allM (args.zip args') hpushed hgenerated fun pair hpair => ?_).mono ?_)
  · obtain ⟨hleft, hright⟩ := List.of_mem_zip hpair
    exact ⟨⟨hlivePushed (hargs _ hleft), hlivePushed (hargs' _ hright)⟩,
      hparts _ (.arg hleft (.root _)), hparts' _ (.arg hright (.root _))⟩
  · intro matched s₁ hunifies
    cases matched with
    | false => exact Meets.pure (hdone (hunifies.fail _))
    | true =>
      have hrefines := hunifies.refines
      refine (hcheck result result' hrefines.tidy hunifies.generated
        (hrefines.live (hlivePushed hresult)) (hrefines.live (hlivePushed hresult'))
        (Stands.refines (s := s.pushed .checkSubKind) (hparts _ (.result (.root _))) hrefines)
        (Stands.refines (s := s.pushed .checkSubKind) (hparts' _ (.result (.root _)))
          hrefines)).mono ?_
      exact fun matched s₂ hlast => hdone (hunifies.append hlast)

/-- What holds of a substituted kind that stands in a known one. -/
structure Substituted (known : List Kind) (s : Store) (depth limit limit' : Nat) (kind : Kind) :
    Prop where
  live : s.Live kind
  final : ∀ v ∈ kind.unknowns, s.expansion v = .unsolved v
  origin : ∀ below part, Kind.At below part kind → part.isUnsolved = false →
    ∃ origin ∈ known, part = origin.bind s.expansion
  stands : ∀ below part, Kind.At below part kind → Stands known s (depth + below) part
  shallow : kind.Shallow limit
  shallow' : kind.Shallow limit'

theorem substituted {depth : Nat} (hs : s.Tidy) (hgenerated : Generated known s)
    (hlimit : known.length < limit + 1 + depth) (hlimit' : known.length < limit' + 1 + depth)
    {kind : Kind} (hlive : s.Live kind) (hstands : Stands known s depth kind) :
    Substituted known s depth limit limit' (s.substituteKind kind) := by
  have hbound : ∀ below part, Kind.At below part (s.substituteKind kind) →
      depth + below ≤ known.length := fun below part hat => by
    rw [substituteKind_eq_bind] at hat
    exact hgenerated.depth_le hstands hat
  refine ⟨?_, fun v hv => ?_, fun below part hat => ?_, fun below part hat => ?_,
    fun below part hat => ?_, fun below part hat => ?_⟩
  · rw [substituteKind_eq_bind]
    exact hlive.bind hs.closed
  · rw [substituteKind_eq_bind] at hv
    exact hs.sound.expansion_of_mem hv
  · rw [substituteKind_eq_bind] at hat
    exact hgenerated.origin hstands hat
  · exact hstands.part hs.sound hat
  · have hle := hbound below part hat
    omega
  · have hle := hbound below part hat
    omega

/-- A variable that does not occur in a substituted kind is unified with it. -/
theorem Substituted.solve_meets {depth : Nat} {id : Nat} {kind : Kind} (side : Side) (hs : s.Tidy)
    (hgenerated : Generated known s)
    (hid : Substituted known s depth limit limit' (.unsolved id))
    (hkind : Substituted known s depth limit limit' kind) (hoccurs : kind.occurs id = false) :
    Meets (instantiateKindWith (checkSubKindWithin limit) side id kind)
      (instantiateKindWith (checkSubKindWithin limit') side id kind) s
      (Unifies known [(.unsolved id, kind)] s) := by
  refine solveVariable_meets side hs hgenerated (hid.live id (by simp)) (hid.final id (by simp))
    hkind.live (fun v hv => ⟨?_, hkind.final v hv⟩) hkind.origin hkind.shallow hkind.shallow'
  rintro rfl
  rw [Kind.occurs_iff.2 hv] at hoccurs
  cases hoccurs

/-- A check unifies kinds when its depth is larger than the number of kinds that are known, less
the depth in which these kinds stand. -/
theorem checkSubKindWithin_meets (limit : Nat) : ∀ limit' depth, known.length < limit + depth →
    known.length < limit' + depth → UnifiesWithin known depth (checkSubKindWithin limit)
      (checkSubKindWithin limit') := by
  induction limit with
  | zero =>
    intro limit' depth hlimit _ s a b hs hgenerated _ _ hstands _
    have hle := hgenerated.depth_le hstands (.root _)
    omega
  | succ limit ih =>
    intro limit' depth hlimit hlimit' s a b hs hgenerated hlive hlive' hstands hstands'
    cases limit' with
    | zero =>
      have hle := hgenerated.depth_le hstands (.root _)
      omega
    | succ limit' =>
      refine Meets.bind (Meets.bind (Meets.get (Meets.pure ?_)))
      refine Meets.bind (Meets.bind (Meets.get (Meets.pure ?_)))
      have hdone : ∀ matched s',
          Unifies known [(s.substituteKind a, s.substituteKind b)] s matched s' →
          Unifies known [(a, b)] s matched s' := fun _ _ hunifies =>
        hunifies.of_substituted hs.sound
      refine Meets.mono ?_ hdone
      clear hdone
      have ha : Substituted known s depth limit limit' (s.substituteKind a) :=
        substituted hs hgenerated hlimit hlimit' hlive hstands
      have hb : Substituted known s depth limit limit' (s.substituteKind b) :=
        substituted hs hgenerated hlimit hlimit' hlive' hstands'
      generalize s.substituteKind a = a at ha ⊢
      generalize s.substituteKind b = b at hb ⊢
      have hnever : ∀ {id : Nat} {kind : Kind}, kind ≠ .unsolved id → kind.occurs id = true →
          ∀ assignment, (Kind.unsolved id).bind assignment ≠ kind.bind assignment := by
        intro id kind hne hoccurs assignment
        rw [Kind.bind_unsolved]
        exact Kind.bind_ne_of_mem (Kind.occurs_iff.1 hoccurs) hne assignment
      have hflipped : ∀ id, b = .unsolved id → a ≠ .unsolved id →
          Meets (if a.occurs id then pure false
            else instantiateKindWith (checkSubKindWithin limit) .sup id a)
          (if a.occurs id then pure false
            else instantiateKindWith (checkSubKindWithin limit') .sup id a) s
          (Unifies known [(a, b)] s) := by
        rintro id rfl hne
        cases hoccurs : a.occurs id with
        | true => exact Meets.pure (hs.unifies_never hgenerated (hnever hne hoccurs)).swap
        | false =>
          exact (hb.solve_meets .sup hs hgenerated ha hoccurs).mono fun _ _ hunifies =>
            hunifies.swap
      cases a with
      | unsolved id =>
        dsimp only
        by_cases heq : b = .unsolved id
        · rw [if_pos heq, if_pos heq]
          refine Meets.pure (hs.unifies_self hgenerated fun pair hpair => ?_)
          rw [List.mem_singleton.1 hpair]
          exact heq.symm
        · rw [if_neg heq, if_neg heq]
          cases hoccurs : b.occurs id with
          | true => exact Meets.pure (hs.unifies_never hgenerated (hnever heq hoccurs))
          | false => exact ha.solve_meets .sub hs hgenerated hb hoccurs
      | type =>
        cases b with
        | type =>
          refine Meets.pure (hs.unifies_self hgenerated fun pair hpair => ?_)
          rw [List.mem_singleton.1 hpair]
        | unsolved id => exact hflipped id rfl (by simp)
        | higher args' result' =>
          exact Meets.pure (hs.unifies_never hgenerated fun assignment => by simp)
      | higher args result =>
        cases b with
        | type => exact Meets.pure (hs.unifies_never hgenerated fun assignment => by simp)
        | unsolved id => exact hflipped id rfl (by simp)
        | higher args' result' =>
          dsimp only
          by_cases hlength : args.length = args'.length
          · rw [if_pos hlength, if_pos hlength]
            exact UnifiesWithin.higher (ih limit' (depth + 1) (by omega) (by omega)) hs hgenerated
              ha.live hb.live (ha.stands 1) (hb.stands 1) hlength
          · rw [if_neg hlength, if_neg hlength]
            refine Meets.pure (hs.unifies_never hgenerated fun assignment heq => hlength ?_)
            rw [Kind.bind_higher, Kind.bind_higher, Kind.higher.injEq] at heq
            have hlengths := congrArg List.length heq.1
            rwa [List.length_map, List.length_map] at hlengths

end Solve

end PolyFront
