import PolyFront.Proofs.Unification.Expansions

/-!
# Solving a variable part by part

A variable is solved by a higher kind through fresh variables, one for each part, which are then
solved by the parts and dropped.  The parts mention variables of outer frames only, so a fresh
variable is always replaced by its part and never represents a variable of the part.  Therefore
nothing but the variable itself is replaced in the expansions that stay, and the recursion is as
deep as the kind.
-/

namespace PolyFront

namespace Solve

open Run Store

variable {s : Store} {limit limit' : Nat}

/-- Working in a frame that is popped in the end. -/
theorem withScope_meets {α : Type} {kind : ScopeKind} {body body' : Solve α}
    {post : α → Store → Prop} (hdrops : kind.tag.dropsVariables = true)
    (h : Meets body body' (s.pushed kind) fun a s₁ => s₁.Tidy ∧
      (∃ ids, s₁.Opened s.stack kind.tag ids ∧ ∀ id ∈ ids, ¬s.Registered id) ∧
      (∀ id, s.Registered id → s.Live (s₁.expansion id)) ∧
      ∀ s₂, s₂.stack = s.stack → Drops s₁ s₂ → post a s₂) :
    Meets (withScope kind body) (withScope kind body') s post := by
  refine Meets.bind (Meets.modify (Meets.bind (h.mono ?_)))
  rintro a s₁ ⟨htidy, ⟨ids, hopened, hinner⟩, houter, hpost⟩
  obtain ⟨frame, s₂, hpop, hstack, hdropped⟩ := htidy.popScope hopened hdrops hinner houter
  exact Meets.bind (Meets.of_ok hpop (Meets.pure (hpost s₂ hstack hdropped)))

/-- The variable is replaced by the kind, or another variable by it, whichever represents the
other. -/
structure Solves (id : Nat) (kind : Kind) (s s' : Store) : Prop where
  replaced : s.pickKind (.unsolved id) kind = kind → Rewrites (Kind.single id kind) s s'
  represents : ∀ other, kind = .unsolved other → s.pickKind (.unsolved id) kind = .unsolved id →
    Rewrites (Kind.single other (.unsolved id)) s s'

/-- A variable is solved by every kind of limited depth that mentions other variables only. -/
def SolvesWithin (limit limit' : Nat) : Prop :=
  ∀ {s : Store} (side : Side) {id : Nat} {kind : Kind}, s.Tidy → s.Registered id →
    s.expansion id = .unsolved id → s.Live kind →
    (∀ v ∈ kind.unknowns, v ≠ id ∧ s.expansion v = .unsolved v) →
    kind.Shallow limit → kind.Shallow limit' →
    Meets (instantiateKindWith (checkSubKindWithin limit) side id kind)
      (instantiateKindWith (checkSubKindWithin limit') side id kind) s
      fun solved s' => solved = true ∧ Solves id kind s s'

section Parts

variable {outer : Stack (Located Attributes)} {tag : ScopeTag} {ids : List Nat}

theorem substituteKind_of_final {kind : Kind}
    (h : ∀ v ∈ kind.unknowns, s.expansion v = .unsolved v) : s.substituteKind kind = kind := by
  rw [substituteKind_eq_bind]
  exact Kind.bind_self h

/-- A variable of the innermost frame is replaced by a kind that mentions variables of outer
frames only. -/
theorem solveInner_meets (hsolves : SolvesWithin limit limit') (side : Side) (hs : s.Tidy)
    (hopened : s.Opened outer tag ids) {inner : Nat} (hinner : inner ∈ ids)
    (hnot : ¬outer.HasKind inner) (hfinal : s.expansion inner = .unsolved inner) {kind : Kind}
    (hkind : ∀ v ∈ kind.unknowns, outer.HasKind v ∧ s.expansion v = .unsolved v)
    (hshallow : kind.Shallow limit) (hshallow' : kind.Shallow limit') :
    Meets (side.relate (checkSubKindWithin (limit + 1)) (.unsolved inner) kind)
      (side.relate (checkSubKindWithin (limit' + 1)) (.unsolved inner) kind) s
      fun matched s' => matched = true ∧ Rewrites (Kind.single inner kind) s s' := by
  have hregistered : s.Registered inner := hopened.registered_iff.2 (.inl hinner)
  have hlive : s.Live kind := fun v hv => hopened.registered_iff.2 (.inr (hkind v hv).1)
  have hne : ∀ v ∈ kind.unknowns, v ≠ inner := by
    rintro v hv rfl
    exact hnot (hkind v hv).1
  have hself : s.substituteKind (.unsolved inner) = .unsolved inner := hfinal
  have hself' : s.substituteKind kind = kind :=
    substituteKind_of_final fun v hv => (hkind v hv).2
  have hoccurs : kind.occurs inner = false := by
    rw [← Bool.not_eq_true, Kind.occurs_iff]
    exact fun hmem => hne inner hmem rfl
  -- A variable of an outer frame represents the inner one.
  have hpick : ∀ v, kind = .unsolved v →
      s.pickKind (.unsolved inner) (.unsolved v) = .unsolved v ∧
        s.pickKind (.unsolved v) (.unsolved inner) = .unsolved v := by
    rintro v rfl
    obtain ⟨frame, hstack, -, -⟩ := hopened
    rw [Store.pickKind, hstack]
    exact Stack.pickKind_push hnot (hkind v (by simp)).1
  have hsolve : ∀ side, Meets (instantiateKindWith (checkSubKindWithin limit) side inner kind)
      (instantiateKindWith (checkSubKindWithin limit') side inner kind) s
      fun matched s' => matched = true ∧ Rewrites (Kind.single inner kind) s s' := by
    intro side
    refine (hsolves side hs hregistered hfinal hlive
      (fun v hv => ⟨hne v hv, (hkind v hv).2⟩) hshallow hshallow').mono ?_
    rintro matched s' ⟨hmatched, hsolved⟩
    refine ⟨hmatched, hsolved.replaced ?_⟩
    cases kind with
    | unsolved v => exact (hpick v rfl).1
    | type => rfl
    | higher args result => rfl
  cases side with
  | sub =>
    refine Meets.bind (Meets.bind (Meets.get (Meets.pure ?_)))
    refine Meets.bind (Meets.bind (Meets.get (Meets.pure ?_)))
    rw [hself, hself']
    have hdiffers : kind ≠ .unsolved inner := by
      rintro rfl
      exact hne inner (by simp) rfl
    dsimp only
    rw [if_neg hdiffers, if_neg hdiffers, hoccurs]
    exact hsolve .sub
  | sup =>
    refine Meets.bind (Meets.bind (Meets.get (Meets.pure ?_)))
    refine Meets.bind (Meets.bind (Meets.get (Meets.pure ?_)))
    rw [hself, hself']
    cases kind with
    | type =>
      dsimp only
      rw [hoccurs]
      exact hsolve .sup
    | higher args result =>
      dsimp only
      rw [hoccurs]
      exact hsolve .sup
    | unsolved v =>
      have hdiffers : Kind.unsolved inner ≠ .unsolved v :=
        fun heq => hne v (by simp) (Kind.unsolved.inj heq).symm
      have hoccurs' : (Kind.unsolved inner).occurs v = false := by
        rw [← Bool.not_eq_true, Kind.occurs_iff]
        intro hmem
        exact hne v (by simp) (by simpa using hmem)
      dsimp only
      rw [if_neg hdiffers, if_neg hdiffers, hoccurs']
      refine (hsolves .sub hs (hlive v (by simp)) (hkind v (by simp)).2
        (fun w hw => ?_) (fun w hw => ?_) (Kind.shallow_unsolved _ _)
        (Kind.shallow_unsolved _ _)).mono ?_
      · obtain rfl : w = inner := by simpa using hw
        exact hregistered
      · obtain rfl : w = inner := by simpa using hw
        exact ⟨fun heq => hne v (by simp) heq.symm, hfinal⟩
      · rintro matched s' ⟨hmatched, hsolved⟩
        exact ⟨hmatched, hsolved.represents inner rfl (hpick v rfl).2⟩

/-- The variables of the innermost frame are replaced by one kind each. -/
theorem solveInners_meets (hsolves : SolvesWithin limit limit') (side : Side) :
    ∀ (kinds : List Kind) (first : Nat) {s : Store}, s.Tidy → s.Opened outer tag ids →
    (∀ inner ∈ List.range' first kinds.length, inner ∈ ids ∧ ¬outer.HasKind inner ∧
      s.expansion inner = .unsolved inner) →
    (∀ kind ∈ kinds, (∀ v ∈ kind.unknowns, outer.HasKind v ∧ s.expansion v = .unsolved v) ∧
      kind.Shallow limit ∧ kind.Shallow limit') →
    Meets ((((List.range' first kinds.length).map .unsolved).zip kinds).allM fun (fresh, kind) =>
        side.relate (checkSubKindWithin (limit + 1)) fresh kind)
      ((((List.range' first kinds.length).map .unsolved).zip kinds).allM fun (fresh, kind) =>
        side.relate (checkSubKindWithin (limit' + 1)) fresh kind) s
      fun matched s' => matched = true ∧ ∃ τ, Rewrites τ s s' ∧
        (List.range' first kinds.length).map τ = kinds ∧
        ∀ v, v ∉ List.range' first kinds.length → τ v = .unsolved v := by
  intro kinds
  induction kinds with
  | nil =>
    intro first s hs _ _ _
    refine Meets.pure ⟨rfl, .unsolved, ?_, rfl, fun _ _ => rfl⟩
    exact hs.rewrites hs.sound rfl (Nat.le_refl _) (fun id => (Kind.bind_self fun _ _ => rfl).symm)
      (fun id hid v hv => by
        obtain rfl : v = id := by simpa using hv
        exact hid) fun _ _ => rfl
  | cons kind rest ih =>
    intro first s hs hopened hinners hkinds
    rw [List.length_cons, List.range'_succ] at hinners ⊢
    rw [List.map_cons, List.zip_cons_cons]
    obtain ⟨hfirst, hnot, hfinal⟩ := hinners first List.mem_cons_self
    obtain ⟨hkind, hshallow, hshallow'⟩ := hkinds kind List.mem_cons_self
    refine Meets.bind ((solveInner_meets hsolves side hs hopened hfirst hnot hfinal hkind hshallow
      hshallow').mono ?_)
    rintro matched s₁ ⟨rfl, hrewrites⟩
    have hlater : ∀ {v}, v ∈ List.range' (first + 1) rest.length → v ≠ first := by
      intro v hv
      have hle := (List.mem_range'_1.1 hv).1
      omega
    refine (ih (first + 1) hrewrites.tidy (hopened.of_stack hrewrites.stack)
      (fun inner hinner => ?_) fun other hother => ?_).mono ?_
    · obtain ⟨hmem, hnot', hfinal'⟩ := hinners inner (List.mem_cons_of_mem _ hinner)
      exact ⟨hmem, hnot', hrewrites.expansion_of_ne hfinal' (hlater hinner)⟩
    · obtain ⟨hother, hlimits⟩ := hkinds other (List.mem_cons_of_mem _ hother)
      refine ⟨fun v hv => ⟨(hother v hv).1, hrewrites.expansion_of_ne (hother v hv).2 ?_⟩, hlimits⟩
      rintro rfl
      exact hnot (hother v hv).1
    · rintro matched s₂ ⟨rfl, τ, hrewrites', hmap, hother⟩
      refine ⟨rfl, _, hrewrites.trans hrewrites', ?_, fun v hv => ?_⟩
      · rw [List.map_cons, Kind.single_self]
        have hhead : kind.bind τ = kind := by
          refine Kind.bind_self fun v hv => hother v fun hmem => ?_
          exact (hinners v (List.mem_cons_of_mem _ hmem)).2.1 (hkind v hv).1
        have htail : (List.range' (first + 1) rest.length).map
            (fun v => (Kind.single first kind v).bind τ) =
            (List.range' (first + 1) rest.length).map τ := by
          refine List.map_congr_left fun v hv => ?_
          rw [Kind.single_of_ne (hlater hv), Kind.bind_unsolved]
        rw [hhead, htail, hmap]
      · rw [List.mem_cons, not_or] at hv
        rw [Kind.single_of_ne hv.1, Kind.bind_unsolved, hother v hv.2]

end Parts

/-- A variable that is replaced by a kind of fresh variables, which are replaced by the parts of a
kind, is replaced by that kind. -/
theorem single_bind_parts {id first last : Nat} {args : List Kind} {result : Kind}
    {τ : Nat → Kind} (hmap : (List.range' first args.length).map τ = args)
    (hother : ∀ v, v ∉ List.range' first args.length → τ v = .unsolved v)
    (hlast : last ∉ List.range' first args.length) (hargs : ∀ arg ∈ args, last ∉ arg.unknowns)
    {v : Nat} (hv : v ∉ List.range' first args.length) (hne : v ≠ last) :
    ((Kind.single id (.higher ((List.range' first args.length).map .unsolved) (.unsolved last))
      v).bind τ).bind (Kind.single last result) = Kind.single id (.higher args result) v := by
  by_cases hid : v = id
  · have hparts : ((List.range' first args.length).map Kind.unsolved).map (Kind.bind τ) = args := by
      rw [List.map_map, ← hmap, List.length_map, List.length_range']
      refine List.map_congr_left fun v _ => ?_
      rw [Function.comp_apply, Kind.bind_unsolved]
    have hkept : args.map (Kind.bind (Kind.single last result)) = args := by
      refine (List.map_congr_left fun arg harg => ?_).trans (List.map_id args)
      exact Kind.bind_single_of_not_mem (hargs arg harg) result
    rw [hid, Kind.single_self, Kind.single_self, Kind.bind_higher, Kind.bind_higher, hparts,
      hkept, Kind.bind_unsolved, hother last hlast, Kind.bind_unsolved, Kind.single_self]
  · rw [Kind.single_of_ne hid, Kind.single_of_ne hid, Kind.bind_unsolved, hother v hv,
      Kind.bind_unsolved, Kind.single_of_ne hne]

/-- A higher kind of fresh variables for the given arguments and a result. -/
def freshHigher (first : Nat) (args : List Kind) : Kind :=
  .higher ((List.range' first args.length).map .unsolved) (.unsolved (first + args.length))

/-- A frame was pushed, and a variable solved by a kind of fresh variables. -/
structure Splits (id : Nat) (args : List Kind) (s s' : Store) : Prop where
  tidy : s'.Tidy
  opened : s'.Opened s.stack .instantiateKind
    (List.range' s.nextKind args.length ++ [s.nextKind + args.length])
  created : s.nextKind ≤ s'.nextKind
  expansion : ∀ v, s'.expansion v =
    (s.expansion v).bind (Kind.single id (freshHigher s.nextKind args))

theorem splits (hs : s.Tidy) {id : Nat} (args : List Kind) (hid : s.Registered id)
    (hfinal : s.expansion id = .unsolved id) : ∃ s₁ s₂,
      (args.mapM fun _ => freshKind) (s.pushed .instantiateKind) =
        .ok ((List.range' s.nextKind args.length).map .unsolved) s₁ ∧
      freshKind s₁ = .ok (.unsolved (s.nextKind + args.length)) s₂ ∧
      Splits id args s (s₂.solveKind id (freshHigher s.nextKind args)) := by
  have hpushed := hs.pushed .instantiateKind
  obtain ⟨s₁, hfreshArgs, hcreates₁⟩ := hpushed.freshKinds args (opened_pushed s _)
  obtain ⟨s₂, hfreshResult, hcreates₂⟩ := hcreates₁.tidy.freshKind hcreates₁.opened
  have hnext : s₁.nextKind = s.nextKind + args.length := by
    rw [hcreates₁.next, List.length_range']
    rfl
  rw [hnext] at hfreshResult hcreates₂
  refine ⟨s₁, s₂, hfreshArgs, hfreshResult, ?_⟩
  have hcreates := hcreates₁.trans hcreates₂
  have hopened : s₂.Opened s.stack .instantiateKind
    (List.range' s.nextKind args.length ++ [s.nextKind + args.length]) := hcreates.opened
  have hnext₂ : s₂.nextKind = s.nextKind + args.length + 1 := by
    rw [hcreates₂.next, hnext]
    rfl
  have hexpansion : ∀ v, s₂.expansion v = s.expansion v := hcreates.expansion
  have hlive : s₂.Live (freshHigher s.nextKind args) := by
    refine live_higher.2 ⟨fun arg harg v hv => ?_, fun v hv => ?_⟩
    · obtain ⟨w, hw, rfl⟩ := List.mem_map.1 harg
      obtain rfl : v = w := by simpa using hv
      exact hopened.registered_iff.2 (.inl (List.mem_append_left _ hw))
    · obtain rfl : v = s.nextKind + args.length := by simpa using hv
      exact hopened.registered_iff.2 (.inl (List.mem_append_right _ (List.mem_singleton.2 rfl)))
  have hsolution : Kind.Solution s₂.kinds id (freshHigher s.nextKind args) := by
    refine (fresh_solution hcreates.grows hpushed.sound (hs.created id hid)
      (Nat.le_add_right _ _) (by omega : s.nextKind + args.length < s₂.nextKind)
      fun arg harg => ?_).1
    obtain ⟨v, hv, rfl⟩ := List.mem_map.1 harg
    obtain ⟨hle, hlt⟩ := List.mem_range'_1.1 hv
    exact ⟨v, rfl, hle, by omega⟩
  have hsolved := (hcreates.tidy.solveKind (hopened.registered_iff.2 (.inr hid))
    ((hexpansion id).trans hfinal) hlive hsolution).1 rfl
  refine ⟨hsolved.tidy, hopened.of_stack hsolved.stack, ?_, fun v => ?_⟩
  · have hle := hsolved.created
    omega
  · rw [hsolved.expansion, hexpansion]

/-- A variable is replaced by every higher kind as deep as the recursion. -/
theorem solveHigher_meets (hsolves : SolvesWithin limit limit') (side : Side) (hs : s.Tidy)
    {id : Nat} {args : List Kind} {result : Kind} (hid : s.Registered id)
    (hfinal : s.expansion id = .unsolved id) (hlive : s.Live (.higher args result))
    (hmentions : ∀ v ∈ (Kind.higher args result).unknowns,
      v ≠ id ∧ s.expansion v = .unsolved v)
    (hshallow : (Kind.higher args result).Shallow (limit + 1))
    (hshallow' : (Kind.higher args result).Shallow (limit' + 1)) :
    Meets (instantiateKindWith (checkSubKindWithin (limit + 1)) side id (.higher args result))
      (instantiateKindWith (checkSubKindWithin (limit' + 1)) side id (.higher args result)) s
      fun solved s' => solved = true ∧ Rewrites (Kind.single id (.higher args result)) s s' := by
  refine withScope_meets rfl ?_
  obtain ⟨s₁, s₂, hfreshArgs, hfreshResult, hsplits⟩ := splits hs args hid hfinal
  refine Meets.bind (Meets.of_ok hfreshArgs (Meets.bind (Meets.of_ok hfreshResult
    (Meets.bind (Meets.modify ?_)))))
  generalize hs₃ : s₂.solveKind id (freshHigher s.nextKind args) = s₃ at hsplits
  change Meets _ _ (s₂.solveKind id (freshHigher s.nextKind args)) _
  rw [hs₃]
  have hopened := hsplits.opened
  have hold : ∀ {v}, s.Registered v → v < s.nextKind := fun hv => hs.created _ hv
  have hnew : ∀ {v}, s.nextKind ≤ v → ¬s.Registered v := fun hle hmem =>
    Nat.not_lt_of_le hle (hold hmem)
  have hkept₃ : ∀ {v}, s.expansion v = .unsolved v → v ≠ id → s₃.expansion v = .unsolved v := by
    intro v hv hne
    rw [hsplits.expansion, hv, Kind.bind_unsolved, Kind.single_of_ne hne]
  have hnewFinal : ∀ {v}, s.nextKind ≤ v → s₃.expansion v = .unsolved v := by
    intro v hle
    refine hkept₃ (hs.free v (hnew hle)) ?_
    rintro rfl
    exact hnew hle hid
  have hpart : ∀ v ∈ (Kind.higher args result).unknowns,
      s.Registered v ∧ s₃.expansion v = .unsolved v := fun v hv =>
    ⟨hlive v hv, hkept₃ (hmentions v hv).2 (hmentions v hv).1⟩
  have hargPart : ∀ {arg v}, arg ∈ args → v ∈ arg.unknowns →
      v ∈ (Kind.higher args result).unknowns := by
    intro arg v harg hv
    rw [Kind.unknowns_higher, List.mem_append, List.mem_flatMap]
    exact .inl ⟨arg, harg, hv⟩
  have hresultPart : ∀ {v}, v ∈ result.unknowns → v ∈ (Kind.higher args result).unknowns := by
    intro v hv
    rw [Kind.unknowns_higher, List.mem_append]
    exact .inr hv
  -- The fresh variables are replaced by the parts.
  refine Meets.bind ((solveInners_meets hsolves side.flip args s.nextKind hsplits.tidy hopened
    (fun inner hinner => ?_) fun arg harg => ?_).mono ?_)
  · have hle := (List.mem_range'_1.1 hinner).1
    exact ⟨List.mem_append_left _ hinner, hnew hle, hnewFinal hle⟩
  · exact ⟨fun v hv => hpart v (hargPart harg hv), hshallow.arg arg harg, hshallow'.arg arg harg⟩
  rintro matched s₄ ⟨rfl, τ, hrewrites₄, hmap, hother⟩
  have hlast : s.nextKind + args.length ∉ List.range' s.nextKind args.length := fun hmem =>
    Nat.lt_irrefl _ (List.mem_range'_1.1 hmem).2
  have hnotRange : ∀ {v}, s.Registered v → v ∉ List.range' s.nextKind args.length := fun hv hmem =>
    Nat.not_lt_of_le (List.mem_range'_1.1 hmem).1 (hold hv)
  have hkept₄ : ∀ {v}, s₃.expansion v = .unsolved v →
      v ∉ List.range' s.nextKind args.length → s₄.expansion v = .unsolved v := by
    intro v hv hnot
    rw [hrewrites₄.expansion, hv, Kind.bind_unsolved, hother v hnot]
  have hle := Nat.le_add_right s.nextKind args.length
  refine (solveInner_meets hsolves side hrewrites₄.tidy (hopened.of_stack hrewrites₄.stack)
    (List.mem_append_right _ (List.mem_singleton.2 rfl)) (hnew hle)
    (hkept₄ (hnewFinal hle) hlast) (fun v hv => ?_) hshallow.result hshallow'.result).mono ?_
  · obtain ⟨hreg, hself⟩ := hpart v (hresultPart hv)
    exact ⟨hreg, hkept₄ hself (hnotRange hreg)⟩
  rintro matched s₅ ⟨rfl, hrewrites₅⟩
  have hrewrites := hrewrites₄.trans hrewrites₅
  have hexpansion : ∀ v, s.Registered v →
      s₅.expansion v = (s.expansion v).bind (Kind.single id (.higher args result)) := by
    intro v hv
    rw [hrewrites.expansion, hsplits.expansion, Kind.bind_bind]
    refine Kind.bind_congr fun w hw => ?_
    have hreg := hs.closed v hv w hw
    rw [← Kind.bind_bind]
    refine single_bind_parts hmap hother hlast (fun arg harg hmem => ?_) (hnotRange hreg) ?_
    · exact hnew hle (hlive _ (hargPart harg hmem))
    · rintro rfl
      exact hnew hle hreg
  refine ⟨hrewrites.tidy, ⟨_, hopened.of_stack hrewrites.stack, fun v hv => ?_⟩, fun v hv => ?_, ?_⟩
  · rw [List.mem_append, List.mem_range'_1, List.mem_singleton] at hv
    exact hnew (by omega)
  · rw [hexpansion v hv]
    exact (hs.closed v hv).bind (live_single hlive)
  · intro s₆ hstack hdrops
    refine ⟨rfl, hs.rewrites_single hid hlive hdrops.tidy.sound hstack ?_ fun v => ?_⟩
    · exact Nat.le_trans hsplits.created (Nat.le_trans hrewrites.created hdrops.created)
    · have hregistered : s₆.Registered v ↔ s.Registered v := by rw [Registered, hstack, Registered]
      by_cases hv : s.Registered v
      · rw [hdrops.kept v (hregistered.2 hv), hexpansion v hv]
      · rw [hdrops.tidy.free v fun hmem => hv (hregistered.1 hmem), hs.free v hv,
          Kind.bind_unsolved, Kind.single_of_ne]
        rintro rfl
        exact hv hid

/-- A variable is solved by `*` or another variable without any recursion. -/
theorem solveLeaf_meets (side : Side) (hs : s.Tidy) {id : Nat} {kind : Kind}
    (hid : s.Registered id) (hfinal : s.expansion id = .unsolved id) (hlive : s.Live kind)
    (hmentions : ∀ v ∈ kind.unknowns, v ≠ id ∧ s.expansion v = .unsolved v)
    (hleaf : kind.isHigher = false) :
    Meets (instantiateKindWith (checkSubKindWithin limit) side id kind)
      (instantiateKindWith (checkSubKindWithin limit') side id kind) s
      fun solved s' => solved = true ∧ Solves id kind s s' := by
  cases kind with
  | type =>
    obtain ⟨hreplaced, hrepresents⟩ := hs.solveKind hid hfinal hlive .type
    exact Meets.bind (Meets.modify (Meets.pure ⟨rfl, hreplaced, hrepresents⟩))
  | unsolved other =>
    obtain ⟨hne, hother⟩ := hmentions other (by simp)
    obtain ⟨hreplaced, hrepresents⟩ := hs.solveKind hid hfinal hlive
      (.unknown hne (hs.sound.final_iff_expansion.2 hother))
    exact Meets.bind (Meets.modify (Meets.pure ⟨rfl, hreplaced, hrepresents⟩))
  | higher args result => cases hleaf

/-- A variable is solved by every kind as deep as the recursion. -/
theorem solvesWithin (limit : Nat) : ∀ limit', SolvesWithin limit limit' := by
  induction limit with
  | zero =>
    intro limit' s side id kind hs hid hfinal hlive hmentions hshallow _
    refine solveLeaf_meets side hs hid hfinal hlive hmentions ?_
    cases kind with
    | higher args result => exact (Kind.not_shallow_zero _ _ hshallow).elim
    | _ => rfl
  | succ limit ih =>
    intro limit' s side id kind hs hid hfinal hlive hmentions hshallow hshallow'
    cases kind with
    | higher args result =>
      cases limit' with
      | zero => exact (Kind.not_shallow_zero _ _ hshallow').elim
      | succ limit' =>
        refine (solveHigher_meets (ih limit') side hs hid hfinal hlive hmentions hshallow
          hshallow').mono ?_
        rintro solved s' ⟨hsolved, hrewrites⟩
        refine ⟨hsolved, fun _ => hrewrites, fun other heq _ => ?_⟩
        cases heq
    | _ => exact solveLeaf_meets side hs hid hfinal hlive hmentions rfl

end Solve

end PolyFront
