import PolyFront.Proofs.Grounding.Subtypes

/-!
# Kinds that are shown

Kinds that are shown may be replaced by their substitutions, and need not be shown once they are
ground.  Defaulting solves variables by `*`, after which a kind is ground.
-/

namespace PolyFront

open Run

namespace Kind

variable {kinds : Partition Kind} {c : Class Kind}

theorem mem_classes_defaultVariables (ids : List Nat) : ∀ {kinds : Partition Kind},
    Distinct kinds.elements → c ∈ (defaultVariables kinds ids).classes →
    shape.unknown c.representative = false →
    (∃ d ∈ kinds.classes, c.representative = d.representative) ∨ c.representative = .type := by
  induction ids with
  | nil => exact fun _ hc _ => .inl ⟨c, hc, rfl⟩
  | cons id rest ih =>
    intro kinds hdistinct hc hsolid
    have hpick : ∀ a b, preferSolved a b = a ∨ preferSolved a b = b := by
      intro a b
      unfold preferSolved
      split
      · exact .inr rfl
      · exact .inl rfl
    rcases ih (Partition.distinct_union hdistinct _ _ _) hc hsolid with ⟨d, hd, heq⟩ | heq
    · rcases mem_classes_union hdistinct hpick hd with ⟨e, he, heq'⟩ | heq' | heq'
      · exact .inl ⟨e, he, heq.trans heq'⟩
      · rw [heq, heq'] at hsolid
        cases hsolid
      · exact .inr (heq.trans heq')
    · exact .inr heq

theorem ground_bind_starring {kind : Kind} : (kind.bind (starring kind.unknowns)).Ground := by
  rw [bind_starring_eq_starred (List.Subset.refl _)]
  exact kind.unknowns_starred

end Kind

namespace World

variable {w w' : World} {added added' : List Kind}

/-- Other kinds are shown. -/
theorem Steps.reshow (h : Steps added w w') (added' : List Kind)
    (hshown : ∀ other ∈ added, other ∈ added' ∨
      other.substitute w'.store.kinds ∈ added' ∨ (other.substitute w'.store.kinds).Ground)
    (hproper : ∀ kind ∈ added', kind.Proper w'.store.nextKind) :
    Steps added' w { w' with shown := w.shown ++ added' } := by
  have hwf := h.kept.wellFounded
  have hall : ∀ other ∈ w'.shown, other ∈ w.shown ++ added' ∨
      other.substitute w'.store.kinds ∈ w.shown ++ added' ∨
        (other.substitute w'.store.kinds).Ground := by
    intro other hother
    rw [h.shown] at hother
    rcases List.mem_append.1 hother with hother | hother
    · exact .inl (List.mem_append_left _ hother)
    · exact (hshown other hother).imp (List.mem_append_right _)
        fun hmem => hmem.imp_left (List.mem_append_right _)
  have hlater : Later w' { w' with shown := w.shown ++ added' } := by
    refine ⟨Nat.le_refl _, Nat.le_refl _, fun _ hfree => hfree.replace hwf hall,
      fun hlive => ⟨hlive.proper, ?_, hlive.lasting⟩⟩
    exact hlive.live.imp_right fun ⟨hsolid, hfree⟩ => ⟨hsolid, hfree.replace hwf hall⟩
  refine ⟨h.toLater.trans hlater,
    ⟨h.kept.kinds, h.kept.parted.replace hwf hall, fun kind hkind => ?_,
    h.kept.params, h.kept.stands, h.kept.types.mono fun _ htype => hlater.fits htype,
    hlater.stack h.kept.stack, h.kept.registered, h.kept.nonempty⟩, rfl, h.stack⟩
  rcases List.mem_append.1 hkind with hkind | hkind
  · refine h.kept.shown kind ?_
    rw [h.shown]
    exact List.mem_append_left _ hkind
  · exact hproper kind hkind

theorem KindSteps.reshow (h : KindSteps added w w') (added' : List Kind)
    (hshown : ∀ other ∈ added, other ∈ added' ∨
      other.substitute w'.store.kinds ∈ added' ∨ (other.substitute w'.store.kinds).Ground)
    (hproper : ∀ kind ∈ added', kind.Proper w'.store.nextKind) :
    KindSteps added' w { w' with shown := w.shown ++ added' } :=
  ⟨h.toSteps.reshow added' hshown hproper, h.nextType, h.reclosed, h.still⟩

/-- Variables are solved by `*`. -/
theorem Kept.defaultVariables (h : w.Kept) {ids : List Nat}
    (hids : ∀ id ∈ ids, id < w.store.nextKind ∧ Kind.Defaultable w.store.kinds id) :
    KindChecks w { w with
      store := { w.store with kinds := Kind.defaultVariables w.store.kinds ids } } := by
  have hstars := h.kinds.substitute_defaultVariables hids
  have hfree : ∀ {kind}, w.Free kind →
      Kind.Free w.params w.shown (Kind.defaultVariables w.store.kinds ids) kind :=
    Kind.Free.starring hstars
  refine h.setKinds (h.kinds.defaultVariables hids) hstars ⟨fun c hc hsolid => ?_,
    fun id hid => hfree (h.parted.others id hid)⟩ (fun _ => hfree) ?_
  · rcases Kind.mem_classes_defaultVariables ids h.kinds.sound.distinct hc hsolid with
      ⟨d, hd, heq⟩ | heq
    · rw [heq] at hsolid ⊢
      exact hfree (h.parted.classes d hd hsolid)
    · rw [heq]
      exact Kind.free_type
  · rintro id ⟨param, hparam, heq⟩
    rw [hstars] at heq
    refine h.stands id ⟨param, hparam, ?_⟩
    cases hkind : Kind.substitute w.store.kinds (.unsolved param) with
    | type => rw [hkind, Kind.bind_type] at heq; cases heq
    | higher args result => rw [hkind, Kind.bind_higher] at heq; cases heq
    | unsolved v =>
      rw [hkind, Kind.bind_unsolved, Kind.starring] at heq
      split at heq
      · cases heq
      · exact heq

/-- A kind is defaulted, in the result and among what is known. -/
theorem Kept.default_kind (h : w.Kept) {kind : Kind} (hkind : kind.Proper w.store.nextKind) :
    KindChecks w { w with store := { w.store with kinds := (kind.default w.store.kinds).2 } } ∧
      (kind.default w.store.kinds).1.Ground ∧
      (kind.substitute (kind.default w.store.kinds).2).Ground := by
  have hids : ∀ id ∈ (kind.substitute w.store.kinds).unknowns,
      id < w.store.nextKind ∧ Kind.Defaultable w.store.kinds id := fun id hid =>
    ⟨h.kinds.substitute_proper hkind id hid,
      .inl (Kind.final_of_mem_substitute h.wellFounded hid)⟩
  have hstars := h.kinds.substitute_defaultVariables hids
  refine ⟨h.defaultVariables hids, ?_, ?_⟩
  · show Kind.Ground (Kind.substitute (Kind.defaultVariables w.store.kinds _) _)
    rw [hstars, Kind.substitute_substitute h.wellFounded]
    exact Kind.ground_bind_starring
  · show Kind.Ground (Kind.substitute (Kind.defaultVariables w.store.kinds _) _)
    rw [hstars]
    exact Kind.ground_bind_starring

end World

/-! ## Classifiers -/

/-- No kind in the classifier is unsolved, at any depth. -/
def Classifier.Ground : Classifier → Prop
  | .ofKind kind => kind.Ground
  | .ofType type => ∀ kind ∈ type.kinds, kind.Ground

instance : DecidablePred Classifier.Ground
  | .ofKind kind => inferInstanceAs (Decidable kind.Ground)
  | .ofType type => inferInstanceAs (Decidable (∀ kind ∈ type.kinds, kind.Ground))

namespace World

variable {w : World}

theorem Kept.default_classifier (h : w.Kept) {classifier : Classifier} (hfits : classifier.Fits w) :
    let result := classifier.default w.store.types w.store.kinds
    KindChecks w { w with store := { w.store with kinds := result.2 } } ∧ result.1.Ground ∧
      result.1.Fits { w with store := { w.store with kinds := result.2 } } := by
  cases classifier with
  | ofKind kind =>
    obtain ⟨hchecks, hground, -⟩ := h.default_kind hfits
    exact ⟨hchecks, hground, hground.proper _⟩
  | ofType type =>
    have hids : ∀ id ∈ (type.substitute w.store.types w.store.kinds).kinds.flatMap Kind.unknowns,
        id < w.store.nextKind ∧ Kind.Defaultable w.store.kinds id := by
      intro id hid
      refine ⟨?_, .inl (Ty.defaultable_of_substitute h.wellFounded hid)⟩
      obtain ⟨kind, hkind, hid⟩ := List.mem_flatMap.1 hid
      exact (Ty.Fits.kinds (h.fits_substitute hfits) (fun _ => w.live_of_ground) kind hkind).proper
        id hid
    have hchecks := h.defaultVariables hids
    exact ⟨hchecks, h.types.settled.default_ground h.kinds h.types.sound type,
      hchecks.kept.fits_substitute (hchecks.toLater.fits (h.fits_substitute hfits))⟩

end World

end PolyFront
