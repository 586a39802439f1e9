import PolyFront.Checking.Values
import PolyFront.Proofs.Grounding.Datatypes

/-!
# Placeholders of declarations

A declaration is given an unknown type before it is checked, and the type that is found takes its
place.  Nobody looks whether the kind of the placeholder occurs in the kind of that type.  It does
not: a variable that is the kind of a type is one that a parameter stands for, and what is not shown
mentions no such variable.
-/

namespace PolyFront

open Run

namespace Kind

variable {kinds : Partition Kind} {kind : Kind} {id created : Nat} {pick : Kind → Kind → Kind}

/-- A kind that is represented by a variable is one. -/
theorem final_of_find (h : Acyclic created kinds) (hfind : kinds.find kind = .unsolved id) :
    kinds.Final (.unsolved id) ∧ kind.substitute kinds = .unsolved id := by
  cases hunknown : shape.unknown kind with
  | false =>
    have hsolid := solid_find h hunknown
    rw [hfind] at hsolid
    cases hsolid
  | true =>
    obtain ⟨v, rfl⟩ := unknown_iff.1 hunknown
    have hfinal : kinds.Final (.unsolved id) := by
      cases hclass : kinds.classOf? (.unsolved v) with
      | none =>
        rw [← hfind, Partition.find_of_absent hclass]
        exact final_iff.2 (Partition.find_of_absent hclass)
      | some c =>
        rw [Partition.find_of_classOf? hclass] at hfind
        have hself := substitute_representative h (Partition.mem_of_classOf? hclass).1
          (by rw [hfind]; rfl)
        rw [hfind] at hself
        exact (final_iff_substitute h.wellFounded).2 hself
    refine ⟨hfinal, ?_⟩
    rw [← substitute_find h.wellFounded, hfind, (final_iff_substitute h.wellFounded).1 hfinal]

/-- Merging a kind with itself adds it at most. -/
theorem union_self (hdistinct : Distinct kinds.elements) :
    kinds.union kind kind pick = (kinds.add kind).add kind := by
  obtain ⟨⟨l, hl⟩, r, hr⟩ := Partition.exists_classOf?_prepared kinds kind kind
  rcases Partition.union_cases pick hdistinct hl hr with ⟨-, heq⟩ | ⟨hne, -⟩
  · exact heq
  · exact (hne (Option.some.inj (hl.symm.trans hr))).elim

end Kind

theorem Ty.kind_mem_kinds (type : Ty) : type.kind ∈ type.kinds := by
  cases type <;> simp [Ty.kind, Ty.kinds]

namespace World

variable {w : World} {among : ScopeTag → Prop} {id : Nat} {kind bound : Kind}

/-! ## Kinds -/

/-- A variable is solved by a kind whose solution does not mention it. -/
theorem Kept.solveKind_solid (h : w.Kept) (hid : id < w.store.nextKind)
    (hfinal : w.store.kinds.Final (.unsolved id)) (hkind : kind.Proper w.store.nextKind)
    (hsolid : Kind.shape.unknown kind = false) (hfree : w.Free kind)
    (hnot : id ∉ ((w.store.kinds.find kind).substitute w.store.kinds).unknowns) :
    KindChecks w { w with store := w.store.solveKind id kind } := by
  have hpick := Kind.picks_pickKind (α := Located Attributes) w.store.stack.outermostFirst
  have hsingle := Kind.substitute_union_solid h.kinds hpick hid hfinal hkind hsolid hnot
  have hwinner :
      Kind.shape.unknown ((w.store.kinds.find kind).substitute w.store.kinds) = false := by
    have hfound := Kind.solid_find h.kinds hsolid
    cases heq : w.store.kinds.find kind with
    | unsolved v => rw [heq] at hfound; cases hfound
    | type => rw [Kind.substitute, Kind.bind_type]; rfl
    | higher args result => rw [Kind.substitute_higher]; rfl
  have hfoundFree : w.Free (w.store.kinds.find kind) := by
    cases hclass : w.store.kinds.classOf? kind with
    | none => rwa [Partition.find_of_absent hclass]
    | some c =>
      have hfound := Kind.solid_find h.kinds hsolid
      rw [Partition.find_of_classOf? hclass] at hfound ⊢
      exact h.parted.classes c (Partition.mem_of_classOf? hclass).1 hfound
  have hfrees : ∀ k, w.Free k → Kind.Free w.params w.shown
      (w.store.kinds.union (.unsolved id) kind w.store.pickKind) k := fun k hk =>
    Kind.Free.single hsingle (.inl ⟨hwinner, fun v hv => hfoundFree v hv⟩) hk
  have hset : KindChecks w { w with store := { w.store with
      kinds := w.store.kinds.union (.unsolved id) kind w.store.pickKind } } := by
    refine h.setKinds (h.kinds.union_solid hpick hid hfinal hkind hsolid hnot) hsingle
      (h.parted.union h.kinds.sound.distinct (pickKind_cases _) rfl (.inr hfree) hfrees) hfrees
      fun v hv => ?_
    rcases Kind.stands_single hsingle hv with hold | ⟨heq, -⟩
    · exact h.stands v hold
    · rw [heq] at hwinner
      cases hwinner
  exact hset.trans hset.kept.closeSolutions

/-- A variable is solved by itself, which solves nothing. -/
theorem Kept.solveKind_self (h : w.Kept) (hid : id < w.store.nextKind) :
    KindChecks w { w with store := w.store.solveKind id (.unsolved id) } := by
  have hproper := Kind.proper_unsolved.2 hid
  have hadd := h.kinds.add hproper
  have hsame : ∀ kind : Kind, kind.substitute (w.store.kinds.union (.unsolved id) (.unsolved id)
      w.store.pickKind) = kind.substitute w.store.kinds := fun kind => by
    rw [Kind.union_self h.kinds.sound.distinct, Kind.substitute_add hadd hid,
      Kind.substitute_add h.kinds hid]
  have hset : KindChecks w { w with store := { w.store with
      kinds := w.store.kinds.union (.unsolved id) (.unsolved id) w.store.pickKind } } := by
    refine h.setKinds (f := .unsolved) ?_
      (fun kind => (hsame kind).trans (Kind.bind_self fun _ _ => rfl).symm) ?_
      (fun kind => (Kind.Free.congr hsame).2) fun v hv => h.stands v ?_
    · rw [Kind.union_self h.kinds.sound.distinct]
      exact hadd.add hproper
    · rw [Kind.union_self h.kinds.sound.distinct]
      exact (h.parted.add h.kinds hid).add hadd hid
    · obtain ⟨param, hparam, heq⟩ := hv
      exact ⟨param, hparam, (hsame _).symm.trans heq⟩
  exact hset.trans hset.kept.closeSolutions

/-- The kind of one type is solved by the kind of another, when nothing is shown. -/
theorem Kept.solveKind_live (h : w.Kept) (hshown : w.shown = []) (hbound : w.Live bound)
    (hfind : w.store.kinds.find bound = .unsolved id) (hkind : w.Live kind)
    (hfinals : ∀ v ∈ kind.unknowns, w.store.kinds.Final (.unsolved v)) :
    KindChecks w { w with store := w.store.solveKind id kind } := by
  obtain ⟨hfinal, hid⟩ := Kind.final_of_find h.kinds hfind
  have hlt : id < w.store.nextKind := by
    have hproper := h.kinds.substitute_proper hbound.proper
    rw [hid] at hproper
    exact Kind.proper_unsolved.1 hproper
  have hhidden : ∀ {v}, Kind.Stands w.params w.store.kinds v →
      ¬Kind.Revealed w.params w.shown w.store.kinds v := by
    intro v hstands hrevealed
    obtain ⟨other, hother, -⟩ := hrevealed hstands
    rw [hshown] at hother
    exact List.not_mem_nil hother
  have hstands := hbound.live.stands hid
  cases hsolid : Kind.shape.unknown kind with
  | false =>
    have hfree : w.Free kind := by
      rcases hkind.live with ⟨v, heq, -⟩ | ⟨-, hfree⟩
      · cases kind with
        | unsolved v => cases hsolid
        | type => rw [Kind.substitute, Kind.bind_type] at heq; cases heq
        | higher args result => rw [Kind.substitute_higher] at heq; cases heq
      · exact hfree
    refine h.solveKind_solid hlt hfinal hkind.proper hsolid hfree fun hmem => ?_
    refine hhidden hstands ?_
    cases hclass : w.store.kinds.classOf? kind with
    | none =>
      rw [Partition.find_of_absent hclass] at hmem
      exact hfree id hmem
    | some c =>
      have hfound := Kind.solid_find h.kinds hsolid
      rw [Partition.find_of_classOf? hclass] at hfound hmem
      exact h.parted.classes c (Partition.mem_of_classOf? hclass).1 hfound id hmem
  | true =>
    obtain ⟨v, rfl⟩ := Kind.unknown_iff.1 hsolid
    by_cases hne : v = id
    · rw [hne]
      exact h.solveKind_self hlt
    · have hv := hfinals v (by simp)
      have hself := (Kind.final_iff_substitute h.wellFounded).1 hv
      refine h.solveKind hlt hfinal hkind.proper (.unknown hne hv) (.inr ⟨v, rfl, ?_⟩)
      exact iff_of_false (hhidden hstands) (hhidden (hkind.live.stands hself))

/-! ## Types -/

/-- A variable is solved by a type that does not mention it. -/
theorem Kept.solveType_steps (h : w.Kept) {type : Ty} (hfinal : Ty.IsFinal w.store.types id)
    (hvariable : w.Fits (.unsolved id kind)) (htype : w.Fits type)
    (hspread : Ty.Spread w.store.types type) (hnot : ¬Ty.Mentions id type) :
    Steps [] w { w with store := w.store.solveType id kind type } := by
  obtain ⟨hroom, hheld⟩ := h.reached htype hspread
  have hne : (type == .unsolved id kind) = false := by
    rw [← Bool.not_eq_true]
    intro heq
    obtain ⟨other, otherKind, rfl⟩ := Ty.unknown_iff.1 ((Ty.shape.unknown_congr heq).trans rfl)
    exact hnot (Ty.mentions_unsolved.2 (Ty.unsolved_beq.1 heq).symm)
  have hmerge := (Ty.merge_union h.types.sound (Ty.pickType_cases w.store.stack.outermostFirst)
    (Ty.unknown_pickType _) hvariable htype hfinal hne).1
  have hsound := h.types.sound.union_any (fun _ => rfl)
    (Ty.pickType_cases w.store.stack.outermostFirst) (fun _ _ => Ty.unknown_pickType _)
    hvariable htype
  exact h.close hsound (hmerge.recurring_of_shut h.types.spread hheld.loose hroom.toShut
    (hspread.not_reached hfinal hnot) fun hv => .inl (hheld.mentions hv))

/-- The type that was found takes the place of a placeholder. -/
theorem Kept.solvePlaceholder (h : w.Kept) (hshown : w.shown = []) {bound type : Ty}
    (hbound : w.Fits bound) {own : Kind} (hfind : w.store.types.find bound = .unsolved id own)
    (htype : w.Fits type) (hspread : Ty.Spread w.store.types type)
    (hfinal : Ty.IsFinal w.store.types id)
    (hfinals : ∀ v ∈ type.kind.unknowns, w.store.kinds.Final (.unsolved v))
    (hoccurs : ¬type.occurs id = true) :
    Steps [] w { w with store := match w.store.kinds.find own with
      | .unsolved kindId => (w.store.solveKind kindId type.kind).solveType id own type
      | _ => w.store.solveType id own type } := by
  have hvariable : w.Fits (.unsolved id own) := hfind ▸ h.types.sound.find_good hbound
  have hnot := htype.not_mentions hoccurs
  split
  · rename_i kindId hkind
    have hchecks := h.solveKind_live hshown (Ty.fits_unsolved.1 hvariable).2 hkind htype.kind
      hfinals
    obtain ⟨-, hspread₁, hfinal₁⟩ := hchecks.reclosed.keeps
      (h.types.mono fun _ _ => True.intro)
      (motive := fun types => Ty.Spread types type ∧ Ty.IsFinal types id) ⟨hspread, hfinal⟩
      fun kinds hlaid ⟨hspread, hfinal⟩ =>
        ⟨hspread.closed hlaid.spread hlaid.sound Ty.unknown_plain kinds,
          Ty.final_closed hlaid.sound Ty.unknown_plain hfinal kinds⟩
    exact hchecks.toSteps.trans (hchecks.kept.solveType_steps hfinal₁
      (hchecks.toLater.fits hvariable) (hchecks.toLater.fits htype) hspread₁ hnot)
  · exact h.solveType_steps hfinal hvariable htype hspread hnot

end World

/-! ## Values -/

namespace Check

open World

variable {among : ScopeTag → Prop} {w : World}

/-- A type that something is bound to fits. -/
theorem fits_of_found {w : World} (h : w.Kept) (slot : Slot) {type : Ty}
    (hbound : ((w.store.stack.lookup fun frame => frame.slot? slot).bind fun here =>
      here.info.classifier.type?) = some type) : w.Fits type := by
  obtain ⟨here, hfound, htype⟩ := Option.bind_eq_some_iff.1 hbound
  obtain ⟨tag, hgood, -⟩ := h.stack.lookup slot hfound
  have hfits := hgood.fits
  cases heq : here.info.classifier with
  | ofKind kind => rw [heq] at htype; cases htype
  | ofType other =>
    rw [heq] at htype hfits
    exact Option.some.inj htype ▸ hfits

/-- A kind that something is bound to is free, apart from functions. -/
theorem free_of_found {w : World} (h : w.Kept) (slot : Slot) {kind : Kind}
    (hbound : ((w.store.stack.lookup fun frame => frame.slot? slot).bind fun here =>
      here.info.classifier.kind?) = some kind)
    (hapart : ∀ frame ∈ w.store.stack.frames, frame.tag ≠ .binding) : FreeKind w kind := by
  obtain ⟨here, hfound, hkind⟩ := Option.bind_eq_some_iff.1 hbound
  obtain ⟨tag, hgood, htag⟩ := h.stack.lookup slot hfound
  have hclassifier : here.info.classifier = .ofKind kind := by
    cases heq : here.info.classifier with
    | ofKind other => rw [heq] at hkind; rw [Option.some.inj hkind]
    | ofType type => rw [heq] at hkind; cases hkind
  have hproper := hgood.fits
  rw [hclassifier] at hproper
  refine ⟨hproper, hgood.free ?_ kind hclassifier⟩
  rcases htag with rfl | ⟨frame, hframe, rfl⟩
  · exact nofun
  · exact hapart frame hframe

theorem settlePlaceholder_yields (key : String) {type : Ty} (htype : w.Fits type) :
    Check.Yields among w (settlePlaceholder key type) fun _ _ => True := by
  rintro w₁ ⟨uri, log, _⟩ hlater hcalm rfl
  refine Ends.bind (Ends.bind (Ends.get (Ends.pure ?_)))
  have hdone : Ends (pure PUnit.unit : Check PUnit) ⟨uri, log, w₁.store⟩ fun _ c' =>
      ∃ w₂, w₂.store = c'.store ∧ Steps [] w₁ w₂ ∧ True :=
    Ends.pure ⟨w₁, rfl, hcalm.toKept.steps, True.intro⟩
  split
  · exact hdone
  rename_i bound hbound
  have hboundFits := fits_of_found hcalm.toKept (.value key) hbound
  refine Ends.bind (lift_ends (Ends.bind (Ends.get (Ends.pure ?_))))
  refine Ends.bind (lift_ends (Ends.bind (Ends.get (Ends.pure ?_))))
  dsimp only at hbound ⊢
  split
  · rename_i id kind hsubstituted
    split
    · rename_i hoccurs
      obtain ⟨met, metKind, own, -, hfind⟩ := Ty.find_of_substitute hsubstituted
      have hsteps := hcalm.toKept.solvePlaceholder hcalm.hidden hboundFits hfind
        (hcalm.toKept.fits_substitute (hlater.fits htype))
        (hcalm.types.spread.spread_substitute hcalm.types.sound Ty.unknown_plain _ type)
        (Ty.isFinal_of_substitute hcalm.types.sound hsubstituted)
        (fun v hv => Ty.defaultable_of_substitute hcalm.wellFounded
          (List.mem_flatMap.2 ⟨_, Ty.kind_mem_kinds _, hv⟩))
        (by simpa [Store.substituteType] using hoccurs)
      refine Ends.modify ⟨_, ?_, hsteps, True.intro⟩
      dsimp only [Store.solveTypeOf]
      rw [hbound]
      dsimp only
      rw [hfind]
      rfl
    · exact hdone
  · exact hdone

end Check

end PolyFront
