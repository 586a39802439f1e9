import PolyFront.Proofs.Grounding.Yielding

/-!
# Comparing types

What is known of a variable that is solved while types are compared: it does not occur in the other
type, so that it is not reached from there at all, and the other type is fully substituted.
-/

namespace PolyFront

open Run World

namespace Ty

variable {types types' : Partition Ty} {kinds : Partition Kind} {type : Ty} {id : Nat} {kind : Kind}
  {good : Ty → Prop}

/-- A type whose substitution is a variable is one, and is represented by it. -/
theorem find_of_substitute (h : type.substitute types kinds = .unsolved id kind) :
    ∃ met metKind own, type = .unsolved met metKind ∧ types.find type = .unsolved id own := by
  cases type with
  | unsolved met metKind =>
    refine ⟨met, metKind, ?_⟩
    rw [substitute, bind_unsolved] at h
    cases hsolid : shape.unknown (types.find (.unsolved met metKind)) with
    | true =>
      obtain ⟨other, own, hfind⟩ := unknown_iff.1 hsolid
      have hexpand : expand types kinds types.size [] met metKind =
          .unsolved other (own.substitute kinds) :=
        expand_of_unsolved List.nodup_nil List.not_mem_nil
          (fun _ hs => (List.not_mem_nil hs).elim) (Nat.le_refl _) hfind
      rw [hexpand, unsolved.injEq] at h
      exact ⟨own, rfl, h.1 ▸ hfind⟩
    | false =>
      have hsolved := (solved_iff metKind).2 hsolid
      have htrail : Trail types (.unsolved met metKind) met metKind [] :=
        .mention (by rw [mentions]; exact List.mem_singleton.2 rfl)
      have hsize := htrail.length_lt hsolved
      obtain ⟨fuel, hfuel⟩ := Nat.exists_eq_succ_of_ne_zero (Nat.ne_of_gt hsize)
      rw [hfuel, Nat.succ_eq_add_one, expand_of_solved List.not_mem_nil hsolved] at h
      have hunknown := unknown_bind (f := expand types kinds fuel [met])
        (g := Kind.substitute kinds) hsolved
      rw [solution] at h
      rw [h] at hunknown
      cases hunknown
  | var quantifier name kind => rw [substitute, bind] at h; cases h
  | constructor name kind => rw [substitute, bind] at h; cases h
  | builtIn type => rw [substitute, bind] at h; cases h
  | apply head args kind => rw [substitute, bind] at h; cases h
  | quantified binders body kind => rw [substitute, bind] at h; cases h

/-- A substituted type that is a variable stands for itself. -/
theorem isFinal_of_substitute (hsound : types.Sound plainShape good)
    (h : type.substitute types kinds = .unsolved id kind) : IsFinal types id := by
  obtain ⟨met, metKind, own, rfl, hfind⟩ := find_of_substitute h
  exact final_of_representative hsound unknown_plain hfind

end Ty

namespace World

variable {w w' : World} {type : Ty}

/-- A type that fits and is fully substituted. -/
structure Expanded (w : World) (type : Ty) : Prop where
  fits : w.Fits type
  spread : Ty.Spread w.store.types type
  final : ∀ id kind, type = .unsolved id kind → Ty.IsFinal w.store.types id

theorem Kept.expanded (h : w.Kept) (htype : w.Fits type) :
    w.Expanded (w.store.substituteType type) where
  fits := h.fits_substitute htype
  spread := h.types.spread.spread_substitute h.types.sound Ty.unknown_plain _ type
  final _ _ := Ty.isFinal_of_substitute h.types.sound

/-- What a substituted type reaches is closed off. -/
theorem Kept.reached (h : w.Kept) (htype : w.Fits type)
    (hspread : Ty.Spread w.store.types type) :
    Ty.Room w.store.types w.store.nextType (Ty.Reached w.store.types type) ∧
      Solve.Contained w (Ty.Reached w.store.types type) type := by
  refine ⟨⟨hspread.shut, ?_⟩, htype, hspread.loose, .inl⟩
  rintro v (⟨kind, hmem⟩ | ⟨u, ⟨kind, hmem⟩, hmates⟩)
  · exact htype.lt hmem
  · by_contra hle
    have heq := hmates.symm.of_absent h.types.sound (h.absent_of_le (Nat.not_lt.1 hle))
    exact hle (heq ▸ htype.lt hmem)

end World

namespace Solve

variable {among : ScopeTag → Prop} {w : World}

/-! ## Single steps -/

theorem substituteType_yields {type : Ty} (htype : w.Fits type) :
    Solve.Yields among w (substituteType type) fun w' type' => w'.Fits type' :=
  yields_of_ends fun w₁ hlater hcalm => Ends.bind (Ends.get (Ends.pure
    ⟨w₁, rfl, hcalm.toKept.steps, hcalm.toKept.fits_substitute (hlater.fits htype)⟩))

theorem freshVariable_yields {kind : Kind} (hkind : w.Live kind) :
    Solve.Yields among w (freshVariable kind) fun w' hole => w'.Fits (.unsolved hole.1 hole.2) := by
  refine yields_of_ends fun w₁ hlater hcalm => (freshVariable_newType kind).mono ?_
  rintro _ _ ⟨frame, rest, hframes, rfl, rfl⟩
  have hadd := hcalm.toKept.addType hframes (hlater.live hkind)
  exact ⟨_, rfl, hadd, Ty.fits_unsolved.2 ⟨Nat.lt_succ_self _, hadd.live (hlater.live hkind)⟩⟩

theorem freshType_yields {kind : Kind} (hkind : w.Live kind) :
    Solve.Yields among w (freshType kind) fun w' type => w'.Fits type :=
  (freshVariable_yields hkind).bind fun _ _ _ hhole => Yields.pure fun _ hlater => hlater.fits hhole

/-- Fresh types for binders. -/
theorem freshBinders_yields (isFlexible : Quantifier → Bool) {binders : List Ty}
    (hbinders : ∀ binder ∈ binders, w.Fits binder) :
    Solve.Yields among w (freshBinders isFlexible binders) fun w' assignment =>
      ∀ name type, assignment.get? name = some type → w'.Fits type := by
  refine yields_of_ends fun w₁ hlater hcalm => (freshBinders_fills isFlexible binders hcalm.toKept
    (Ty.room_empty _ _) (fun binder hbinder => hlater.fits (hbinders binder hbinder))
    fun name type hfound => ?_).mono ?_
  · rw [Table.get?_empty] at hfound
    cases hfound
  · rintro assignment _ ⟨w₂, inside, rfl, hfills, hassignment, -⟩
    exact ⟨w₂, rfl, hfills.toSteps, fun name type hfound => (hassignment name type hfound).fits⟩

theorem instantiateBinders_yields (side : Side) {binders : List Ty} {body : Ty}
    (hbinders : ∀ binder ∈ binders, w.Fits binder) (hbody : w.Fits body) :
    Solve.Yields among w (instantiateBinders side binders body) fun w' type => w'.Fits type :=
  (freshBinders_yields _ hbinders).bind fun _ _ hlater hassignment => Yields.pure fun _ hlater' =>
    (hlater'.fits (hlater.fits hbody)).instantiate fun name other hfound =>
      hlater'.fits (hassignment name other hfound)

/-! ## The check -/

/-- A variable is solved by a substituted type in which it does not occur, once their kinds were
compared. -/
theorem solveVariable_ends {fuel : Nat} {side : Side} {sub sup : Kind} {id : Nat} {kind : Kind}
    {type : Ty} (h : w.Calm among) (hsub : w.Live sub) (hsup : w.Live sup)
    (hvariable : w.Expanded (.unsolved id kind)) (htype : w.Expanded type) :
    Ends (if type.occurs id then pure false
      else do
        if ← checkSubKind sub sup then
          instantiateTypeWithin fuel side (id, kind) type
          pure true
        else pure false : Solve Bool) w.store fun _ s' =>
          ∃ w', w'.store = s' ∧ Steps [] w w' ∧ True := by
  split
  · exact Ends.pure ⟨w, rfl, h.toKept.steps, True.intro⟩
  rename_i hoccurs
  refine Ends.bind ((checkSubKind_live h.toKept h.hidden hsub hsup).mono ?_)
  rintro answer _ ⟨w₁, rfl, hchecks⟩
  cases answer with
  | false => exact Ends.pure ⟨w₁, rfl, hchecks.toSteps, True.intro⟩
  | true =>
    obtain ⟨-, hspread, hfinal⟩ := hchecks.reclosed.keeps
      (h.types.mono fun _ _ => True.intro)
      (motive := fun types => Ty.Spread types type ∧ Ty.IsFinal types id)
      ⟨htype.spread, hvariable.final id kind rfl⟩
      fun kinds hlaid ⟨hspread, hfinal⟩ =>
        ⟨hspread.closed hlaid.spread hlaid.sound Ty.unknown_plain kinds,
          Ty.final_closed hlaid.sound Ty.unknown_plain hfinal kinds⟩
    have hfits := hchecks.toLater.fits htype.fits
    obtain ⟨hroom, hheld⟩ := hchecks.kept.reached hfits hspread
    refine Ends.bind ((instantiateTypeWithin_filling fuel side w₁ _ (id, kind) type hchecks.kept
      hroom ⟨hfinal, hspread.not_reached hfinal (hfits.not_mentions hoccurs),
        hchecks.toLater.fits hvariable.fits⟩ hheld).mono ?_)
    rintro _ _ ⟨w₂, inside, rfl, hfills⟩
    exact Ends.pure ⟨w₂, rfl, hchecks.toSteps.trans hfills.toSteps, True.intro⟩

/-- The check compares types that fit. -/
def Grants (check : Ty → Ty → Solve Bool) : Prop :=
  ∀ {among : ScopeTag → Prop} {w : World} {sub sup : Ty}, w.Fits sub → w.Fits sup →
    Solve.Yields among w (check sub sup) fun _ _ => True

namespace Grants

variable {check : Ty → Ty → Solve Bool} (h : Grants check)

include h

/-- The binders of the expected type are opened. -/
theorem expected {sub body : Ty} {binders : List Ty} {kind : Kind} (hsub : w.Fits sub)
    (hsup : w.Fits (.quantified binders body kind)) :
    Solve.Yields among w (withScope .checkSubType do
      check sub (← instantiateBinders .sup binders body)) fun _ _ => True := by
  obtain ⟨hbinders, hbody, -⟩ := Ty.fits_quantified.1 hsup
  refine withScope_yields (.const _) ?_
  exact (instantiateBinders_yields _ (fun binder hbinder => (hbinders binder hbinder).2)
    hbody).bind fun _ _ hlater hbody' => h (hlater.fits hsub) hbody'

/-- The binders of the given type are opened. -/
theorem given {sup body : Ty} {binders : List Ty} {kind : Kind}
    (hsub : w.Fits (.quantified binders body kind)) (hsup : w.Fits sup) :
    Solve.Yields among w (withScope .checkSubType do
      check (← instantiateBinders .sub binders body) sup) fun _ _ => True := by
  obtain ⟨hbinders, hbody, -⟩ := Ty.fits_quantified.1 hsub
  refine withScope_yields (.const _) ?_
  exact (instantiateBinders_yields _ (fun binder hbinder => (hbinders binder hbinder).2)
    hbody).bind fun _ _ hlater hbody' => h hbody' (hlater.fits hsup)

/-- Functions are compared by their parameters, the other way around, and by their results. -/
theorem functions {params params' : List Ty} {result result' : Ty}
    (hparams : ∀ param ∈ params, w.Fits param) (hresult : w.Fits result)
    (hparams' : ∀ param ∈ params', w.Fits param) (hresult' : w.Fits result') :
    Solve.Yields among w (do
      let matched ← (params.zip params').allM fun pair => check pair.2 pair.1
      if matched then check result result' else pure false) fun _ _ => True := by
  refine Yields.bind (Yields.allM fun pair hpair => ?_) fun _ _ hlater _ =>
    Yields.ite (fun _ => h (hlater.fits hresult) (hlater.fits hresult')) fun _ =>
      Yields.pure fun _ _ => True.intro
  obtain ⟨hparam, hparam'⟩ := List.of_mem_zip hpair
  exact h (hparams' _ hparam') (hparams _ hparam)

/-- Other applications are compared by their heads and their arguments. -/
theorem applications {head head' : Ty} {args args' : List Ty} {kind kind' : Kind}
    (hsub : w.Fits (.apply head args kind)) (hsup : w.Fits (.apply head' args' kind')) :
    Solve.Yields among w (do
      if ← check head head' then
        (args.zip args').allM fun pair => check pair.1 pair.2
      else pure false) fun _ _ => True := by
  obtain ⟨hhead, hargs, -⟩ := Ty.fits_apply.1 hsub
  obtain ⟨hhead', hargs', -⟩ := Ty.fits_apply.1 hsup
  refine (h hhead hhead').bind fun _ _ hlater _ => Yields.ite (fun _ => ?_) fun _ =>
    Yields.pure fun _ _ => True.intro
  refine Yields.allM fun pair hpair => ?_
  obtain ⟨harg, harg'⟩ := List.of_mem_zip hpair
  exact h (hlater.fits (hargs _ harg)) (hlater.fits (hargs' _ harg'))

end Grants

/-- One step of the check, case by case as it compares the substituted types. -/
theorem checkSubTypeWithin_step {fuel : Nat} (h : Grants (checkSubTypeWithin fuel)) :
    Grants (checkSubTypeWithin (fuel + 1)) := by
  intro among w sub sup hsub hsup
  refine yields_of_ends fun w₁ hlater hcalm => ?_
  refine Ends.bind (Ends.bind (Ends.get (Ends.pure ?_)))
  refine Ends.bind (Ends.bind (Ends.get (Ends.pure ?_)))
  have hsub' := hcalm.toKept.expanded (hlater.fits hsub)
  have hsup' := hcalm.toKept.expanded (hlater.fits hsup)
  clear hsub hsup
  generalize w₁.store.substituteType sub = sub at *
  generalize w₁.store.substituteType sup = sup at *
  have hyields : ∀ {run : Solve Bool}, Solve.Yields among w₁ run (fun _ _ => True) →
      Ends run w₁.store fun _ s' => ∃ w₂, w₂.store = s' ∧ Steps [] w₁ w₂ ∧ True := fun hrun =>
    hrun w₁ _ (.refl w₁) hcalm rfl
  have hanswer : ∀ answer, Ends (pure answer : Solve Bool) w₁.store fun _ s' =>
      ∃ w₂, w₂.store = s' ∧ Steps [] w₁ w₂ ∧ True := fun answer =>
    hyields (Yields.pure fun _ _ => True.intro)
  dsimp only
  split
  · exact hyields (h.expected hsub'.fits hsup'.fits)
  · exact hyields (h.given hsub'.fits hsup'.fits)
  · split
    · exact hanswer true
    · exact solveVariable_ends hcalm (Ty.fits_unsolved.1 hsub'.fits).2 hsup'.fits.kind hsub' hsup'
  · exact solveVariable_ends hcalm hsub'.fits.kind (Ty.fits_unsolved.1 hsup'.fits).2 hsup' hsub'
  · exact hanswer _
  · exact hanswer _
  · exact hanswer _
  · split
    · split
      · rename_i hfunction hfunction'
        obtain ⟨hparams, hresult⟩ := Ty.Fits.of_function? hsub'.fits hfunction
        obtain ⟨hparams', hresult'⟩ := Ty.Fits.of_function? hsup'.fits hfunction'
        exact hyields (h.functions hparams hresult hparams' hresult')
      · exact hyields (h.applications hsub'.fits hsup'.fits)
    · exact hanswer false
  · exact hanswer _

theorem checkSubTypeWithin_yields (fuel : Nat) : Grants (checkSubTypeWithin fuel) := by
  induction fuel with
  | zero => exact fun _ _ => Yields.pure fun _ _ => True.intro
  | succ fuel ih => exact checkSubTypeWithin_step ih

theorem checkSubType_yields {sub sup : Ty} (hsub : w.Fits sub) (hsup : w.Fits sup) :
    Solve.Yields among w (checkSubType sub sup) fun _ _ => True :=
  Yields.bind (Yields.get fun _ _ _ _ _ => Yields.pure fun _ _ => True.intro)
    fun _ fuel hlater (_ : True) =>
      checkSubTypeWithin_yields fuel (hlater.fits hsub) (hlater.fits hsup)

theorem stripUniversal_yields (depth : Nat) : ∀ {w : World} {type : Ty}, w.Fits type →
    Solve.Yields among w (stripUniversal depth type) fun w' type' => w'.Fits type' := by
  induction depth with
  | zero => exact fun htype => Yields.pure fun _ hlater => hlater.fits htype
  | succ depth ih =>
    intro w type htype
    cases type with
    | quantified binders body kind =>
      obtain ⟨hbinders, hbody, -⟩ := Ty.fits_quantified.1 htype
      exact (instantiateBinders_yields _ (fun binder hbinder => (hbinders binder hbinder).2)
        hbody).bind fun _ _ _ hbody' => ih hbody'
    | _ => exact Yields.pure fun _ hlater => hlater.fits htype

theorem instantiatePolymorphic_yields {type : Ty} (htype : w.Fits type) :
    Solve.Yields among w (instantiatePolymorphic type) fun w' type' => w'.Fits type' :=
  (substituteType_yields htype).bind fun _ _ _ htype' => stripUniversal_yields _ htype'

end Solve

end PolyFront
