import PolyFront.Checking.Subkind
import PolyFront.Proofs.Solutions.Fresh

/-!
# Sub-kind checks keep solutions acyclic

Every check substitutes its kinds first, so that the variables it meets stand for themselves, and
looks for the variable in the kind before it solves it.  A higher kind is solved by fresh
variables, which nothing mentions yet.
-/

namespace PolyFront

namespace Solve

open Run Store

variable {s : Store}

theorem relate_ends {side : Side} {check : Kind → Kind → Solve Bool} {a b : Kind}
    {post : Bool → Store → Prop} (h : ∀ a b, Kind.Proper s.nextKind a → Kind.Proper s.nextKind b →
      Ends (check a b) s post) (ha : a.Proper s.nextKind) (hb : b.Proper s.nextKind) :
    Ends (side.relate check a b) s post := by
  cases side with
  | sub => exact h a b ha hb
  | sup => exact h b a hb ha

/-- Fresh kinds for the arguments of a kind. -/
theorem freshKinds_ends {α : Type} (items : List α) : ∀ {s : Store}, s.Sound →
    Ends (items.mapM fun _ => freshKind) s fun fresh s' => Grows s s' ∧
      ∀ kind ∈ fresh, ∃ id, kind = .unsolved id ∧ s.nextKind ≤ id ∧ id < s'.nextKind := by
  induction items with
  | nil =>
    intro s hs
    exact Ends.pure ⟨hs.grows_of_eq rfl rfl rfl rfl, fun kind hkind =>
        (List.not_mem_nil hkind).elim⟩
  | cons item rest ih =>
    intro s hs
    rw [List.mapM_cons]
    refine Ends.bind ((freshKind_ends hs).mono ?_)
    rintro kind s₁ ⟨hgrows, rfl, hnext⟩
    refine Ends.bind ((ih hgrows.sound).mono ?_)
    rintro fresh s₂ ⟨hgrows', hfresh⟩
    refine Ends.pure ⟨hgrows.trans hgrows', ?_⟩
    have hkinds := hgrows'.kinds
    intro kind hkind
    rcases List.mem_cons.1 hkind with rfl | hkind
    · exact ⟨s.nextKind, rfl, Nat.le_refl _, by omega⟩
    · obtain ⟨id, rfl, hle, hlt⟩ := hfresh kind hkind
      exact ⟨id, rfl, by omega, hlt⟩

/-- A higher kind of fresh variables can solve a variable that was created before them. -/
theorem fresh_solution {s s' : Store} (h : Grows s s') (hs : s.Sound) {id : Nat}
    (hid : id < s.nextKind) {args : List Kind} {result : Nat} (hle : s.nextKind ≤ result)
    (hlt : result < s'.nextKind) (hargs : ∀ arg ∈ args, ∃ v, arg = .unsolved v ∧ s.nextKind ≤ v ∧
      v < s'.nextKind) :
    Kind.Solution s'.kinds id (.higher args (.unsolved result)) ∧
      (Kind.higher args (.unsolved result)).Proper s'.nextKind := by
  -- The fresh variables stand for themselves and are not the variable that is solved.
  have hmentions : ∀ v ∈ (Kind.higher args (.unsolved result)).unknowns,
      s.nextKind ≤ v ∧ v < s'.nextKind := by
    intro v hv
    rw [Kind.unknowns_higher, List.mem_append, List.mem_flatMap] at hv
    rcases hv with ⟨arg, harg, hv⟩ | hv
    · obtain ⟨w, rfl, hwle, hwlt⟩ := hargs arg harg
      obtain rfl : v = w := by simpa using hv
      exact ⟨hwle, hwlt⟩
    · obtain rfl : v = result := by simpa using hv
      exact ⟨hle, hlt⟩
  refine ⟨.compound rfl (h.kind_absent hs rfl (by simp) hle) fun v hv => ?_,
    fun v hv => (hmentions v hv).2⟩
  obtain ⟨hvle, -⟩ := hmentions v hv
  exact ⟨by omega, h.finalKind (hs.kind_final hvle)⟩

/-- A check that keeps solutions acyclic, from any sound store. -/
def KindCheck (check : Kind → Kind → Solve Bool) : Prop :=
  ∀ {s : Store} (a b : Kind), s.Sound → a.Proper s.nextKind → b.Proper s.nextKind →
    Ends (check a b) s fun _ s' => Settles s s'

theorem KindCheck.allM {check : Kind → Kind → Solve Bool} (hcheck : KindCheck check)
    (side : Side) {pairs : List (Kind × Kind)} (hs : s.Sound)
    (hpairs : ∀ pair ∈ pairs, pair.1.Proper s.nextKind ∧ pair.2.Proper s.nextKind) :
    Ends (pairs.allM fun (a, b) => side.relate check a b) s fun _ s' => Settles s s' := by
  refine Ends.allM (fun s' => Settles s s') ?_ hs.refl
  intro pair hpair s' hs'
  obtain ⟨hleft, hright⟩ := hpairs pair hpair
  refine Ends.mono ?_ fun _ _ hs'' => Settles.trans hs' hs''
  exact relate_ends (fun a b ha hb => hcheck a b hs'.sound ha hb) (hleft.mono hs'.kinds)
    (hright.mono hs'.kinds)

/-- Solving a variable by a kind that mentions other variables only. -/
theorem instantiateKindWith_ends {check : Kind → Kind → Solve Bool} (hcheck : KindCheck check)
    (side : Side) {id : Nat} {kind : Kind} (hs : s.Sound) (hid : id < s.nextKind)
    (hfinal : s.kinds.Final (.unsolved id)) (hkind : kind.Proper s.nextKind)
    (hunknowns : ∀ other ∈ kind.unknowns, other ≠ id ∧ s.kinds.Final (.unsolved other)) :
    Ends (instantiateKindWith check side id kind) s fun _ s' => Settles s s' := by
  cases kind with
  | type =>
    refine Ends.bind (Ends.modify (Ends.pure ?_))
    exact hs.solveKind hid hfinal hkind .type
  | unsolved other =>
    refine Ends.bind (Ends.modify (Ends.pure ?_))
    obtain ⟨hne, hother⟩ := hunknowns other (by simp)
    exact hs.solveKind hid hfinal hkind (.unknown hne hother)
  | higher args result =>
    obtain ⟨hargs, hresult⟩ := Kind.proper_higher.1 hkind
    refine withScope_ends ?_
    have hpushed : Sound { s with stack := s.stack.push (Frame.empty .instantiateKind) } :=
      (hs.withStack _).sound
    refine Ends.bind ((freshKinds_ends args hpushed).mono ?_)
    rintro freshArgs s₁ ⟨hgrows₁, hfresh⟩
    refine Ends.bind ((freshKind_ends hgrows₁.sound).mono ?_)
    rintro _ s₂ ⟨hgrows₂, rfl, hnext⟩
    have hgrows := hgrows₁.trans hgrows₂
    have hkinds₁ : s.nextKind ≤ s₁.nextKind := hgrows₁.kinds
    have hsettled : Settles s s₂ :=
      (hs.withStack _).trans hgrows.settles
    obtain ⟨hsolution, hfreshProper⟩ := fresh_solution hgrows hpushed hid hkinds₁
      (by omega : s₁.nextKind < s₂.nextKind) fun arg harg => by
        obtain ⟨w, rfl, hle, hlt⟩ := hfresh arg harg
        exact ⟨w, rfl, hle, by omega⟩
    have hsolve := hgrows.sound.solveKind (Nat.lt_of_lt_of_le hid hsettled.kinds)
      (hgrows.finalKind hfinal) hfreshProper hsolution
    refine Ends.bind (Ends.modify ?_)
    have hsolved := hsettled.trans hsolve
    have hproper : ∀ pair ∈ freshArgs.zip args,
        pair.1.Proper (s₂.solveKind id (.higher freshArgs (.unsolved s₁.nextKind))).nextKind ∧
          pair.2.Proper (s₂.solveKind id (.higher freshArgs (.unsolved s₁.nextKind))).nextKind := by
      intro pair hpair
      obtain ⟨hleft, hright⟩ := List.of_mem_zip hpair
      obtain ⟨w, hw, -, hlt⟩ := hfresh pair.1 hleft
      refine ⟨?_, (hargs pair.2 hright).mono hsolved.kinds⟩
      rw [hw]
      have hle := hsolve.kinds
      exact Kind.proper_unsolved.2 (by omega)
    refine Ends.bind ((hcheck.allM side.flip hsolved.sound hproper).mono fun matched s₃ hs₃ => ?_)
    have hdone := hsolved.trans hs₃
    cases matched with
    | false => exact Ends.pure hdone
    | true =>
      refine Ends.mono (relate_ends (fun a b ha hb => hcheck a b hs₃.sound ha hb) ?_ ?_)
        fun _ _ hs₄ => hdone.trans hs₄
      · have hle := hsolve.kinds
        have hle' := hs₃.kinds
        exact Kind.proper_unsolved.2 (by omega)
      · exact hresult.mono hdone.kinds

/-- Higher kinds are compared part by part in a frame of their own. -/
theorem checkHigher_ends {check : Kind → Kind → Solve Bool} (hcheck : KindCheck check)
    {args args' : List Kind} {result result' : Kind} (hs : s.Sound)
    (hsub : (Kind.higher args result).Proper s.nextKind)
    (hsup : (Kind.higher args' result').Proper s.nextKind) :
    Ends (if args.length = args'.length then
        withScope .checkSubKind do
          let matched ← (args.zip args').allM fun (arg, arg') => check arg' arg
          if matched then check result result' else pure false
      else pure false) s fun _ s' => Settles s s' := by
  obtain ⟨hargs, hresult⟩ := Kind.proper_higher.1 hsub
  obtain ⟨hargs', hresult'⟩ := Kind.proper_higher.1 hsup
  split
  · refine withScope_ends ?_
    have hpushed : Sound { s with stack := s.stack.push (Frame.empty .checkSubKind) } :=
      (hs.withStack _).sound
    have hpairs : ∀ pair ∈ args.zip args',
        pair.1.Proper s.nextKind ∧ pair.2.Proper s.nextKind := by
      intro pair hpair
      obtain ⟨hleft, hright⟩ := List.of_mem_zip hpair
      exact ⟨hargs _ hleft, hargs' _ hright⟩
    refine Ends.bind ((hcheck.allM .sup hpushed hpairs).mono fun matched s₁ hs₁ => ?_)
    have hdone : Settles s s₁ := (hs.withStack _).trans hs₁
    cases matched with
    | false => exact Ends.pure hdone
    | true =>
      refine Ends.mono (hcheck result result' hs₁.sound ?_ ?_) fun _ _ hs₂ => hdone.trans hs₂
      · exact hresult.mono hdone.kinds
      · exact hresult'.mono hdone.kinds
  · exact Ends.pure hs.refl

/-- The check to any depth keeps solutions acyclic. -/
theorem checkSubKindWithin_ends (fuel : Nat) : KindCheck (checkSubKindWithin fuel) := by
  induction fuel with
  | zero =>
    intro s sub sup hs _ _
    exact Ends.pure hs.refl
  | succ fuel ih =>
    intro s sub sup hs hsub hsup
    refine Ends.bind (Ends.bind (Ends.get (Ends.pure ?_)))
    refine Ends.bind (Ends.bind (Ends.get (Ends.pure ?_)))
    have hsub' : (s.substituteKind sub).Proper s.nextKind := hs.kinds.substitute_proper hsub
    have hsup' : (s.substituteKind sup).Proper s.nextKind := hs.kinds.substitute_proper hsup
    have hsubFinal : ∀ id ∈ (s.substituteKind sub).unknowns, s.kinds.Final (.unsolved id) :=
      fun id hid => Kind.final_of_mem_substitute hs.kinds.wellFounded hid
    have hsupFinal : ∀ id ∈ (s.substituteKind sup).unknowns, s.kinds.Final (.unsolved id) :=
      fun id hid => Kind.final_of_mem_substitute hs.kinds.wellFounded hid
    generalize s.substituteKind sub = sub at hsub' hsubFinal ⊢
    generalize s.substituteKind sup = sup at hsup' hsupFinal ⊢
    -- A variable that the other kind does not mention is solved by it.
    have hinstantiate : ∀ (side : Side) (id : Nat) (kind : Kind), id < s.nextKind →
        s.kinds.Final (.unsolved id) → kind.Proper s.nextKind →
        (∀ other ∈ kind.unknowns, s.kinds.Final (.unsolved other)) → kind.occurs id = false →
        Ends (instantiateKindWith (checkSubKindWithin fuel) side id kind) s fun _ s' =>
          Settles s s' := by
      intro side id kind hid hfinal hkind hunknowns hoccurs
      refine instantiateKindWith_ends ih side hs hid hfinal hkind fun other hother => ⟨?_, ?_⟩
      · rintro rfl
        rw [Kind.occurs_iff.2 hother] at hoccurs
        cases hoccurs
      · exact hunknowns other hother
    have hflipped : ∀ id, sup = .unsolved id → Ends (if sub.occurs id then pure false
        else instantiateKindWith (checkSubKindWithin fuel) .sup id sub) s fun _ s' =>
          Settles s s' := by
      rintro id rfl
      split
      · exact Ends.pure hs.refl
      · rename_i hoccurs
        exact hinstantiate .sup id sub (Kind.proper_unsolved.1 hsup') (hsupFinal id (by simp))
          hsub' hsubFinal (by simpa using hoccurs)
    cases sub with
    | unsolved id =>
      dsimp only
      split
      · exact Ends.pure hs.refl
      · split
        · exact Ends.pure hs.refl
        · rename_i hoccurs
          exact hinstantiate .sub id sup (Kind.proper_unsolved.1 hsub') (hsubFinal id (by simp))
            hsup' hsupFinal (by simpa using hoccurs)
    | type =>
      cases sup with
      | type => exact Ends.pure hs.refl
      | unsolved id => exact hflipped id rfl
      | higher args' result' => exact Ends.pure hs.refl
    | higher args result =>
      cases sup with
      | type => exact Ends.pure hs.refl
      | unsolved id => exact hflipped id rfl
      | higher args' result' => exact checkHigher_ends ih hs hsub' hsup'

theorem checkSubKind_ends {sub sup : Kind} (hs : s.Sound) (hsub : sub.Proper s.nextKind)
    (hsup : sup.Proper s.nextKind) : Ends (checkSubKind sub sup) s fun _ s' => Settles s s' := by
  refine Ends.bind (Ends.bind (Ends.get (Ends.pure ?_)))
  exact checkSubKindWithin_ends _ sub sup hs hsub hsup

end Solve

end PolyFront
