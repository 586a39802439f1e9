import PolyFront.Checking.Subkind
import PolyFront.Proofs.Grounding.Created

/-!
# Comparing kinds

A check of kinds solves variables by kinds that are free, or merges variables that parameters stand
for.  Kinds that are found for written types are free; kinds in types are live.
-/

namespace PolyFront

open Run

namespace World

variable {w w' : World}

/-- Nothing but kinds was created. -/
structure Made (w : World) (s : Store) : Prop
    extends KindSteps [] w { w with store := s } where
  find : ∀ kind, s.kinds.find kind = w.store.kinds.find kind
  classes : ∀ kind, Kind.shape.unknown kind = false →
    s.kinds.classOf? kind = w.store.kinds.classOf? kind

theorem Kept.made (h : w.Kept) : Made w w.store :=
  ⟨h.kindSteps, fun _ => rfl, fun _ _ => rfl⟩

theorem Made.trans {s s' : Store} (h : Made w s) (h' : Made { w with store := s } s') :
    Made w s' :=
  ⟨h.toKindSteps.trans h'.toKindSteps, fun kind => (h'.find kind).trans (h.find kind),
    fun kind hkind => (h'.classes kind hkind).trans (h.classes kind hkind)⟩

theorem Kept.made_newKind (h : w.Kept) {frame : Frame (Located Attributes)}
    {rest : List (Frame (Located Attributes))} (hframes : w.store.stack.frames = frame :: rest) :
    Made w (w.store.newKind frame rest) := by
  refine ⟨h.addKind hframes, fun kind => ?_, fun kind hkind => ?_⟩
  · exact eq_of_beq (Partition.find_add_beq w.store.kinds _ kind)
  · have hne : (kind == .unsolved w.store.nextKind) = false := by
      rw [beq_eq_false_iff_ne]
      rintro rfl
      cases hkind
    show (w.store.kinds.add _).classOf? kind = _
    rw [Partition.classOf?_add, hne]
    exact Option.or_none

/-- A variable that was created since is no parameter. -/
theorem Kept.not_param (h : w.Kept) {id : Nat} (hid : w.store.nextKind ≤ id) : ¬w.params id :=
  fun hparam => Nat.not_lt.2 hid (h.lt_of_lasting (h.params id hparam))

theorem Made.free_fresh {s : Store} (h : Made w s) (hw : w.Kept) {id : Nat}
    (hid : w.store.nextKind ≤ id) : World.Free { w with store := s } (.unsolved id) :=
  h.kept.parted.others id (hw.not_param hid)

theorem Made.final {s : Store} (h : Made w s) {kind : Kind} (hfinal : w.store.kinds.Final kind) :
    s.kinds.Final kind := by
  rw [Partition.Final, h.find]
  exact hfinal

/-- A higher kind of fresh variables can solve a variable that was created before them. -/
theorem Made.solution {s : Store} (h : Made w s) (hw : w.Kept) {id : Nat}
    (hid : id < w.store.nextKind) (args : List Kind) (result : Nat)
    (hresult : w.store.nextKind ≤ result ∧ result < s.nextKind)
    (hargs : ∀ arg ∈ args, ∃ v, arg = .unsolved v ∧ w.store.nextKind ≤ v ∧ v < s.nextKind) :
    Kind.Solution s.kinds id (.higher args (.unsolved result)) ∧
      (Kind.higher args (.unsolved result)).Proper s.nextKind ∧
      World.Free { w with store := s } (.higher args (.unsolved result)) := by
  -- The fresh variables stand for themselves and are not the variable that is solved.
  have hmentions : ∀ v ∈ (Kind.higher args (.unsolved result)).unknowns,
      w.store.nextKind ≤ v ∧ v < s.nextKind := by
    intro v hv
    rw [Kind.unknowns_higher, List.mem_append, List.mem_flatMap] at hv
    rcases hv with ⟨arg, harg, hv⟩ | hv
    · obtain ⟨u, rfl, hu⟩ := hargs arg harg
      obtain rfl : v = u := by simpa using hv
      exact hu
    · obtain rfl : v = result := by simpa using hv
      exact hresult
  have habsent : s.kinds.classOf? (.higher args (.unsolved result)) = none := by
    rw [h.classes _ rfl, Partition.classOf?_eq_none_iff]
    intro c hc hhas
    obtain ⟨kind, hkind, heq⟩ := Class.has_iff.1 hhas
    obtain rfl := eq_of_beq heq
    have hlt := (hw.kinds.sound.good c hc).1 _ hkind result (by simp)
    exact Nat.not_lt.2 hresult.1 hlt
  refine ⟨.compound rfl habsent fun v hv => ?_, fun v hv => (hmentions v hv).2,
    Kind.free_iff_forall.2 fun v hv => h.free_fresh hw (hmentions v hv).1⟩
  have hle := (hmentions v hv).1
  exact ⟨by omega, h.final (hw.final_of_le hle)⟩

end World

namespace Solve

open World

variable {w : World}

theorem freshKind_newKind {s : Store} : Ends freshKind s fun kind s' =>
    ∃ frame rest, s.stack.frames = frame :: rest ∧ kind = .unsolved s.nextKind ∧
      s' = s.newKind frame rest := by
  refine Ends.bind (Ends.get (Ends.bind (Ends.modify (Ends.bind (Ends.bind (Ends.modify ?_))))))
  refine Ends.within (Stack.updateTop_ends fun frame rest hframes => Ends.pure ?_)
  exact ⟨frame, rest, hframes, rfl, rfl⟩

theorem freshKinds_made {α : Type} (items : List α) : ∀ {w : World}, w.Kept →
    Ends (items.mapM fun _ => freshKind) w.store fun fresh s' => Made w s' ∧
      ∀ kind ∈ fresh, ∃ id, kind = .unsolved id ∧ w.store.nextKind ≤ id ∧ id < s'.nextKind := by
  induction items with
  | nil =>
    intro w h
    exact Ends.pure ⟨h.made, fun _ hkind => (List.not_mem_nil hkind).elim⟩
  | cons item rest ih =>
    intro w h
    rw [List.mapM_cons]
    refine Ends.bind (freshKind_newKind.mono ?_)
    rintro _ _ ⟨frame, below, hframes, rfl, rfl⟩
    have hmade := h.made_newKind hframes
    refine Ends.bind ((ih hmade.kept).mono ?_)
    rintro fresh s₂ ⟨hmade', hfresh⟩
    have hle : w.store.nextKind + 1 ≤ s₂.nextKind := hmade'.toLater.kinds
    refine Ends.pure ⟨hmade.trans hmade', fun kind hkind => ?_⟩
    rcases List.mem_cons.1 hkind with rfl | hkind
    · exact ⟨w.store.nextKind, rfl, Nat.le_refl _, hle⟩
    · obtain ⟨id, rfl, hlow, hlt⟩ := hfresh kind hkind
      exact ⟨id, rfl, Nat.le_of_succ_le hlow, hlt⟩

/-- The work done inside of a frame in which kinds are solved. -/
theorem withScope_checks {α : Type} {kind : ScopeKind} (hdrops : kind.tag.dropsVariables = true)
    {body : Solve α} (h : w.Kept) (hbody : Ends body (w.pushed kind).store fun _ s' =>
      ∃ w', w'.store = s' ∧ KindSteps [] (w.pushed kind) w') :
    Ends (withScope kind body) w.store fun _ s' => ∃ w', w'.store = s' ∧ KindChecks w w' := by
  refine Ends.bind (Ends.modify (Ends.bind (hbody.mono ?_)))
  rintro a _ ⟨w₁, rfl, hsteps⟩
  refine Ends.bind ((popScope_left hdrops).mono ?_)
  rintro frame _ ⟨rest, hframes, -, rfl⟩
  obtain ⟨hpopped, -, hstack⟩ := hsteps.drop h hdrops hframes fun _ hother =>
    (List.not_mem_nil hother).elim
  exact Ends.pure ⟨_, rfl, hpopped.toSteps, hpopped.nextType, hpopped.reclosed, hstack⟩

/-- A check of kinds that are free. -/
def FreeCheck (check : Kind → Kind → Solve Bool) : Prop :=
  ∀ (w : World) (a b : Kind), w.Kept → a.Proper w.store.nextKind → b.Proper w.store.nextKind →
    w.Free a → w.Free b → Ends (check a b) w.store fun _ s' => ∃ w', w'.store = s' ∧ KindChecks w w'

theorem FreeCheck.relate {check : Kind → Kind → Solve Bool} (h : FreeCheck check) (side : Side) :
    FreeCheck (side.relate check) := by
  cases side with
  | sub => exact h
  | sup => exact fun w a b hw ha hb hfa hfb => h w b a hw hb ha hfb hfa

theorem FreeCheck.allM {check : Kind → Kind → Solve Bool} (h : FreeCheck check)
    {pairs : List (Kind × Kind)} (hw : w.Kept) (hpairs : ∀ pair ∈ pairs,
      (pair.1.Proper w.store.nextKind ∧ w.Free pair.1) ∧
        pair.2.Proper w.store.nextKind ∧ w.Free pair.2) :
    Ends (pairs.allM fun (a, b) => check a b) w.store fun _ s' =>
      ∃ w', w'.store = s' ∧ KindChecks w w' := by
  refine Ends.allM (fun s' => ∃ w', w'.store = s' ∧ KindChecks w w') ?_ ⟨w, rfl, hw.checks⟩
  rintro pair hpair _ ⟨w', rfl, hchecks⟩
  obtain ⟨⟨hleft, hleftFree⟩, hright, hrightFree⟩ := hpairs pair hpair
  have hlater := hchecks.toLater
  refine (h w' pair.1 pair.2 hchecks.kept (hleft.mono hlater.kinds) (hright.mono hlater.kinds)
    (hlater.free hleft hleftFree) (hlater.free hright hrightFree)).mono ?_
  rintro _ _ ⟨w'', rfl, hchecks'⟩
  exact ⟨w'', rfl, hchecks.trans hchecks'⟩

/-- Two kinds part by part. -/
theorem FreeCheck.parts {check check' : Kind → Kind → Solve Bool} (h : FreeCheck check)
    (h' : FreeCheck check') {pairs : List (Kind × Kind)} {a b : Kind} (hw : w.Kept)
    (hpairs : ∀ pair ∈ pairs, (pair.1.Proper w.store.nextKind ∧ w.Free pair.1) ∧
      pair.2.Proper w.store.nextKind ∧ w.Free pair.2)
    (ha : a.Proper w.store.nextKind ∧ w.Free a) (hb : b.Proper w.store.nextKind ∧ w.Free b) :
    Ends (do
      let matched ← pairs.allM fun (a, b) => check a b
      if matched then check' a b else pure false : Solve Bool) w.store fun _ s' =>
        ∃ w', w'.store = s' ∧ KindChecks w w' := by
  refine Ends.bind ((h.allM hw hpairs).mono ?_)
  rintro matched _ ⟨w', rfl, hchecks⟩
  have hlater := hchecks.toLater
  split
  · refine (h' w' a b hchecks.kept (ha.1.mono hlater.kinds) (hb.1.mono hlater.kinds)
      (hlater.free ha.1 ha.2) (hlater.free hb.1 hb.2)).mono ?_
    rintro _ _ ⟨w'', rfl, hchecks'⟩
    exact ⟨w'', rfl, hchecks.trans hchecks'⟩
  · exact Ends.pure ⟨w', rfl, hchecks⟩

/-- Solving a variable by a kind that mentions other variables only. -/
theorem instantiateKindWith_checks {check : Kind → Kind → Solve Bool} (hcheck : FreeCheck check)
    (side : Side) (h : w.Kept) {id : Nat} {kind : Kind} (hid : id < w.store.nextKind)
    (hfinal : w.store.kinds.Final (.unsolved id)) (hkind : kind.Proper w.store.nextKind)
    (hunknowns : ∀ other ∈ kind.unknowns, other ≠ id ∧ w.store.kinds.Final (.unsolved other))
    (hfree : Kind.shape.unknown kind = false ∧ w.Free kind ∨ ∃ other, kind = .unsolved other ∧
      (Kind.Revealed w.params w.shown w.store.kinds id ↔
        Kind.Revealed w.params w.shown w.store.kinds other)) :
    Ends (instantiateKindWith check side id kind) w.store fun _ s' =>
      ∃ w', w'.store = s' ∧ KindChecks w w' := by
  cases kind with
  | type =>
    exact Ends.bind (Ends.modify (Ends.pure ⟨_, rfl, h.solveKind hid hfinal hkind .type hfree⟩))
  | unsolved other =>
    obtain ⟨hne, hother⟩ := hunknowns other (by simp)
    exact Ends.bind (Ends.modify (Ends.pure
      ⟨_, rfl, h.solveKind hid hfinal hkind (.unknown hne hother) hfree⟩))
  | higher args result =>
    obtain ⟨hargs, hresult⟩ := Kind.proper_higher.1 hkind
    obtain ⟨hargsFree, hresultFree⟩ := Kind.free_higher.1
      (hfree.resolve_right fun ⟨_, heq, _⟩ => by cases heq).2
    refine withScope_checks rfl h ?_
    have hpushed := h.pushed .instantiateKind
    refine Ends.bind ((freshKinds_made args hpushed).mono ?_)
    rintro fresh s₁ ⟨hmade, hfresh⟩
    refine Ends.bind (freshKind_newKind.mono ?_)
    rintro _ _ ⟨frame, rest, hframes, rfl, rfl⟩
    have hmade' := hmade.trans (hmade.kept.made_newKind hframes)
    have hlater := (w.later_pushed .instantiateKind).trans hmade'.toLater
    have hmadeLe : w.store.nextKind ≤ s₁.nextKind := hmade.toLater.kinds
    obtain ⟨hsolution, hproper, hsolutionFree⟩ := hmade'.solution hpushed hid
      fresh s₁.nextKind ⟨hmadeLe, Nat.lt_succ_self _⟩ fun arg harg => by
        obtain ⟨v, rfl, hlow, hlt⟩ := hfresh arg harg
        exact ⟨v, rfl, hlow, Nat.lt_succ_of_lt hlt⟩
    have hsolved := hmade'.kept.solveKind (Nat.lt_of_lt_of_le hid hlater.kinds)
      (hmade'.final hfinal) hproper hsolution (.inl ⟨rfl, hsolutionFree⟩)
    have hsolvedLater := hsolved.toLater
    have hpart : ∀ {part : Kind}, part.Proper w.store.nextKind → w.Free part →
        part.Proper (Store.solveKind (s₁.newKind frame rest) id
          (.higher fresh (.unsolved s₁.nextKind))).nextKind ∧
        World.Free ⟨w.params, w.shown, Store.solveKind (s₁.newKind frame rest) id
          (.higher fresh (.unsolved s₁.nextKind))⟩ part := fun hpart hpartFree =>
      ⟨hpart.mono (hlater.trans hsolvedLater).kinds,
        (hlater.trans hsolvedLater).free hpart hpartFree⟩
    obtain ⟨hfreshFree, hfreshResultFree⟩ := Kind.free_higher.1
      (hsolvedLater.free hproper hsolutionFree)
    obtain ⟨hfreshProper, hfreshResultProper⟩ := Kind.proper_higher.1 hproper
    refine Ends.bind (Ends.modify ?_)
    refine ((hcheck.relate side.flip).parts (hcheck.relate side) hsolved.kept (fun pair hpair => ?_)
      ⟨hfreshResultProper, hfreshResultFree⟩ (hpart hresult hresultFree)).mono ?_
    · obtain ⟨hleft, hright⟩ := List.of_mem_zip hpair
      exact ⟨⟨hfreshProper _ hleft, hfreshFree _ hleft⟩,
        hpart (hargs _ hright) (hargsFree _ hright)⟩
    · rintro _ _ ⟨w', rfl, hchecks⟩
      exact ⟨w', rfl, hmade'.toKindSteps.trans (hsolved.trans hchecks).kindSteps⟩

/-- A variable is solved unless it occurs in its solution. -/
theorem instantiateKind_checks {check : Kind → Kind → Solve Bool} (hcheck : FreeCheck check)
    (side : Side) (h : w.Kept) {id : Nat} {kind : Kind} (hid : id < w.store.nextKind)
    (hfinal : w.store.kinds.Final (.unsolved id)) (hkind : kind.Proper w.store.nextKind)
    (hunknowns : ∀ other ∈ kind.unknowns, w.store.kinds.Final (.unsolved other))
    (hfree : Kind.shape.unknown kind = false ∧ w.Free kind ∨ ∃ other, kind = .unsolved other ∧
      (Kind.Revealed w.params w.shown w.store.kinds id ↔
        Kind.Revealed w.params w.shown w.store.kinds other)) :
    Ends (if kind.occurs id then pure false
      else instantiateKindWith check side id kind : Solve Bool) w.store fun _ s' =>
        ∃ w', w'.store = s' ∧ KindChecks w w' := by
  split
  · exact Ends.pure ⟨w, rfl, h.checks⟩
  · rename_i hoccurs
    refine instantiateKindWith_checks hcheck side h hid hfinal hkind (fun other hother => ⟨?_, ?_⟩)
      hfree
    · rintro rfl
      exact hoccurs (Kind.occurs_iff.2 hother)
    · exact hunknowns other hother

/-- The parts of two higher kinds that are free. -/
theorem checkHigher_checks {check : Kind → Kind → Solve Bool} (hcheck : FreeCheck check)
    (h : w.Kept) {args args' : List Kind} {result result' : Kind}
    (hsub : (Kind.higher args result).Proper w.store.nextKind)
    (hsup : (Kind.higher args' result').Proper w.store.nextKind)
    (hsubFree : w.Free (.higher args result)) (hsupFree : w.Free (.higher args' result')) :
    Ends (if args.length = args'.length then
        withScope .checkSubKind do
          let matched ← (args.zip args').allM fun (arg, arg') => check arg' arg
          if matched then check result result' else pure false
      else pure false) w.store fun _ s' => ∃ w', w'.store = s' ∧ KindChecks w w' := by
  obtain ⟨hargs, hresult⟩ := Kind.proper_higher.1 hsub
  obtain ⟨hargs', hresult'⟩ := Kind.proper_higher.1 hsup
  obtain ⟨hargsFree, hresultFree⟩ := Kind.free_higher.1 hsubFree
  obtain ⟨hargsFree', hresultFree'⟩ := Kind.free_higher.1 hsupFree
  split
  · refine withScope_checks rfl h ?_
    refine ((hcheck.relate .sup).parts hcheck (h.pushed _) (fun pair hpair => ?_)
      ⟨hresult, hresultFree⟩ ⟨hresult', hresultFree'⟩).mono ?_
    · obtain ⟨hleft, hright⟩ := List.of_mem_zip hpair
      exact ⟨⟨hargs _ hleft, hargsFree _ hleft⟩, hargs' _ hright, hargsFree' _ hright⟩
    · rintro _ _ ⟨w', rfl, hchecks⟩
      exact ⟨w', rfl, hchecks.kindSteps⟩
  · exact Ends.pure ⟨w, rfl, h.checks⟩

/-- The first step of a check of two kinds that are substituted.  Variables that are merged are
revealed alike, and what is no variable is free. -/
theorem checkSubKindWithin_succ {fuel : Nat} (hcheck : FreeCheck (checkSubKindWithin fuel))
    (h : w.Kept) {sub sup : Kind} (hsub : sub.Proper w.store.nextKind)
    (hsup : sup.Proper w.store.nextKind)
    (hboth : ∀ a b, sub.substitute w.store.kinds = .unsolved a →
      sup.substitute w.store.kinds = .unsolved b →
      (Kind.Revealed w.params w.shown w.store.kinds a ↔
        Kind.Revealed w.params w.shown w.store.kinds b))
    (hfree : ∀ kind, kind = sub ∨ kind = sup →
      Kind.shape.unknown (kind.substitute w.store.kinds) = false → w.Free kind) :
    Ends (checkSubKindWithin (fuel + 1) sub sup) w.store fun _ s' =>
      ∃ w', w'.store = s' ∧ KindChecks w w' := by
  refine Ends.bind (Ends.bind (Ends.get (Ends.pure ?_)))
  refine Ends.bind (Ends.bind (Ends.get (Ends.pure ?_)))
  have hproper : ∀ kind, kind = sub ∨ kind = sup →
      (w.store.substituteKind kind).Proper w.store.nextKind := by
    rintro kind (rfl | rfl)
    · exact h.kinds.substitute_proper hsub
    · exact h.kinds.substitute_proper hsup
  have hfinal : ∀ kind {id}, id ∈ (w.store.substituteKind kind).unknowns →
      w.store.kinds.Final (.unsolved id) := fun _ _ hid =>
    Kind.final_of_mem_substitute h.wellFounded hid
  have hsubFree : Kind.shape.unknown (w.store.substituteKind sub) = false →
      w.Free (w.store.substituteKind sub) := fun hsolid =>
    (Kind.free_substitute h.wellFounded).2 (hfree sub (.inl rfl) hsolid)
  have hsupFree : Kind.shape.unknown (w.store.substituteKind sup) = false →
      w.Free (w.store.substituteKind sup) := fun hsolid =>
    (Kind.free_substitute h.wellFounded).2 (hfree sup (.inr rfl) hsolid)
  have hsub' := hproper sub (.inl rfl)
  have hsup' := hproper sup (.inr rfl)
  have hsubFinal := @hfinal sub
  have hsupFinal := @hfinal sup
  change ∀ a b, w.store.substituteKind sub = .unsolved a →
    w.store.substituteKind sup = .unsolved b → _ at hboth
  clear hproper hfinal hfree
  generalize w.store.substituteKind sub = sub at *
  generalize w.store.substituteKind sup = sup at *
  have hstop : ∀ answer : Bool, Ends (pure answer : Solve Bool) w.store fun _ s' =>
      ∃ w', w'.store = s' ∧ KindChecks w w' := fun _ => Ends.pure ⟨w, rfl, h.checks⟩
  have hflipped : ∀ id, sup = .unsolved id → Kind.shape.unknown sub = false →
      Ends (if sub.occurs id then pure false
        else instantiateKindWith (checkSubKindWithin fuel) .sup id sub) w.store fun _ s' =>
          ∃ w', w'.store = s' ∧ KindChecks w w' := by
    rintro id rfl hsolid
    exact instantiateKind_checks hcheck .sup h (Kind.proper_unsolved.1 hsup') (hsupFinal (by simp))
      hsub' (fun _ hother => hsubFinal hother) (.inl ⟨hsolid, hsubFree hsolid⟩)
  cases sub with
  | unsolved id =>
    dsimp only
    split
    · exact hstop true
    · refine instantiateKind_checks hcheck .sub h (Kind.proper_unsolved.1 hsub')
        (hsubFinal (by simp)) hsup' (fun _ hother => hsupFinal hother) ?_
      rcases hsolid : Kind.shape.unknown sup with _ | _
      · exact .inl ⟨rfl, hsupFree hsolid⟩
      · obtain ⟨other, rfl⟩ := Kind.unknown_iff.1 hsolid
        exact .inr ⟨other, rfl, hboth id other rfl rfl⟩
  | type =>
    cases sup with
    | type => exact hstop true
    | unsolved id => exact hflipped id rfl rfl
    | higher args' result' => exact hstop false
  | higher args result =>
    cases sup with
    | type => exact hstop false
    | unsolved id => exact hflipped id rfl rfl
    | higher args' result' =>
      exact checkHigher_checks hcheck h hsub' hsup' (hsubFree rfl) (hsupFree rfl)

theorem checkSubKindWithin_checks (fuel : Nat) : FreeCheck (checkSubKindWithin fuel) := by
  induction fuel with
  | zero => exact fun w _ _ h _ _ _ _ => Ends.pure ⟨w, rfl, h.checks⟩
  | succ fuel ih =>
    intro w sub sup h hsub hsup hsubFree hsupFree
    refine checkSubKindWithin_succ ih h hsub hsup (fun a b ha hb => ?_) fun kind hkind _ => ?_
    · have hrevealed := hsubFree a (by rw [ha]; simp)
      have hrevealed' := hsupFree b (by rw [hb]; simp)
      exact ⟨fun _ => hrevealed', fun _ => hrevealed⟩
    · rcases hkind with rfl | rfl
      · exact hsubFree
      · exact hsupFree

/-- Kinds that are free are compared. -/
theorem checkSubKind_free (h : w.Kept) {sub sup : Kind} (hsub : sub.Proper w.store.nextKind)
    (hsup : sup.Proper w.store.nextKind) (hsubFree : w.Free sub) (hsupFree : w.Free sup) :
    Ends (checkSubKind sub sup) w.store fun _ s' => ∃ w', w'.store = s' ∧ KindChecks w w' :=
  Ends.bind (Ends.bind (Ends.get (Ends.pure
    (checkSubKindWithin_checks _ w sub sup h hsub hsup hsubFree hsupFree))))

/-- Kinds of types are compared, when nothing is shown. -/
theorem checkSubKind_live (h : w.Kept) (hshown : w.shown = []) {sub sup : Kind}
    (hsub : w.Live sub) (hsup : w.Live sup) :
    Ends (checkSubKind sub sup) w.store fun _ s' => ∃ w', w'.store = s' ∧ KindChecks w w' := by
  have hhidden : ∀ {kind v}, w.Live kind → kind.substitute w.store.kinds = .unsolved v →
      ¬Kind.Revealed w.params w.shown w.store.kinds v := by
    intro kind v hkind heq hrevealed
    obtain ⟨other, hother, -⟩ := hrevealed (hkind.live.stands heq)
    rw [hshown] at hother
    exact List.not_mem_nil hother
  have hfuel : ∀ fuel, Ends (checkSubKindWithin fuel sub sup) w.store fun _ s' =>
      ∃ w', w'.store = s' ∧ KindChecks w w' := by
    intro fuel
    cases fuel with
    | zero => exact Ends.pure ⟨w, rfl, h.checks⟩
    | succ fuel =>
      refine checkSubKindWithin_succ (checkSubKindWithin_checks fuel) h hsub.proper hsup.proper
        (fun a b ha hb => ?_) fun kind hkind hsolid => ?_
      · exact ⟨fun hr => (hhidden hsub ha hr).elim, fun hr => (hhidden hsup hb hr).elim⟩
      · have hlive : w.Live kind := by
          rcases hkind with rfl | rfl
          · exact hsub
          · exact hsup
        rcases hlive.live with ⟨v, heq, -⟩ | ⟨-, hfree⟩
        · rw [heq] at hsolid
          cases hsolid
        · exact hfree
  exact Ends.bind (Ends.bind (Ends.get (Ends.pure (hfuel _))))

end Solve

end PolyFront
