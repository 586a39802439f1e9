import PolyFront.Proofs.Subtyping.Instantiation

/-!
# Checks of first-order types are sound

A check that succeeds leaves its types related under every assignment that satisfies the solutions,
so that they are related once they are substituted, and are still after any later solution.  A check
may only be cut off when it has descended along a path that is longer than the types are large that
were there at the start.  No path is: all parts of substituted types that are no variables are,
    up to
substitution, parts of those types.
-/

namespace PolyFront

namespace Store

variable {s s' s'' : Store} {known : List Ty} {bound depth below : Nat} {type part a b : Ty}
  {pairs pairs' : List (Ty × Ty)} {matched : Bool}

/-! ## Bounds on paths -/

/-- Every part of an older solution that is no variable is a known type, up to substitution. -/
structure Surveyed (known : List Ty) (bound : Nat) (s : Store) : Prop where
  settled : s.Settled
  created : bound ≤ s.nextType
  generated : ∀ id < bound, ∀ depth part, Ty.At depth part (s.solution id) →
    part.isUnsolved = false → ∃ origin ∈ known, part = origin.subst s.solution

/-- The type stands, up to substitution, that deep in a type of which all parts are known. -/
structure Fits (known : List Ty) (bound : Nat) (s : Store) (depth : Nat) (type : Ty) : Prop where
  simple : type.Simple s.nextType
  stands : ∃ root : Ty, root.Simple bound ∧ (∀ below part, Ty.At below part root → part ∈ known) ∧
    Ty.At depth (type.bare.subst s.solution) (root.subst s.solution)

theorem Surveyed.origin_of_root (h : Surveyed known bound s) {root : Ty} (hroot : root.Simple bound)
    (hknown : ∀ below part, Ty.At below part root → part ∈ known)
    (hat : Ty.At below part (root.subst s.solution)) (hsolid : part.isUnsolved = false) :
    ∃ origin ∈ known, part = origin.subst s.solution := by
  rcases Ty.at_subst hat hroot.firstOrder with
    ⟨origin, horigin, -, heq⟩ | ⟨id, kind, above, inner, -, hid, hinner⟩
  · exact ⟨origin, hknown _ _ horigin, heq⟩
  · exact h.generated id (hroot.lt hid.mentions) inner part hinner hsolid

theorem Surveyed.origin (h : Surveyed known bound s) (hfits : Fits known bound s depth type)
    (hat : Ty.At below part (type.bare.subst s.solution)) (hsolid : part.isUnsolved = false) :
    ∃ origin ∈ known, part = origin.subst s.solution := by
  obtain ⟨root, hroot, hknown, hstands⟩ := hfits.stands
  exact h.origin_of_root hroot hknown (hstands.trans hat) hsolid

/-- No path is longer than the known types are many. -/
theorem Surveyed.depth_le (h : Surveyed known bound s) (hfits : Fits known bound s depth type)
    (hat : Ty.At below part (type.bare.subst s.solution)) : depth + below ≤ known.length := by
  obtain ⟨root, hroot, hknown, hstands⟩ := hfits.stands
  rw [← List.length_map (Ty.subst s.solution)]
  refine (hstands.trans hat).depth_le fun inner solid hinner hsolid => ?_
  obtain ⟨origin, horigin, rfl⟩ := h.origin_of_root hroot hknown hinner hsolid
  exact List.mem_map_of_mem horigin

theorem Fits.refines (h : Fits known bound s depth type) (hrefines : RefinesTypes s s') :
    Fits known bound s' depth type := by
  obtain ⟨root, hroot, hknown, hstands⟩ := h.stands
  refine ⟨h.simple.mono hrefines.next, root, hroot, hknown, ?_⟩
  rw [← hrefines.subst type.bare, ← hrefines.subst root]
  exact hstands.subst s'.solution

/-- Solutions that stay the same are generated by the same types. -/
theorem Surveyed.keeps (h : Surveyed known bound s) (hkeeps : KeepsTypes s s') :
    Surveyed known bound s' := by
  obtain ⟨hs', heq⟩ := hkeeps.settled h.settled
  refine ⟨hs', ?_, ?_⟩
  · rw [hkeeps.next]
    exact h.created
  · rw [heq]
    exact h.generated

/-- Solving a variable by a type whose parts come from known ones. -/
theorem Surveyed.fills (h : Surveyed known bound s) {id limit : Nat} {kind : Kind}
    (htype : Solvable limit s id type) (hfills : Fills s s' [((id, kind), type)])
    (horigin : ∀ below part, Ty.At below part type.bare → part.isUnsolved = false →
      ∃ origin ∈ known, part = origin.subst s.solution) : Surveyed known bound s' := by
  refine ⟨hfills.refines.settled, Nat.le_trans h.created hfills.refines.next, ?_⟩
  intro v hv depth part hat hsolid
  -- A variable that was not solved by this is a variable still.
  have hother : ∀ {w below}, s.IsOpen w → w ≠ id → ¬Ty.At below part (s'.solution w) := by
    intro w below hw hne hbelow
    have hunsolved := hfills.keeps w hw fun other hmem => by
      rw [List.mem_singleton.1 hmem]
      exact hne
    obtain ⟨u, k, heq⟩ := Ty.unknown_iff.1 hunsolved
    rw [heq] at hbelow
    cases hbelow
    cases hsolid
  have hagain : ∀ origin : Ty, (origin.subst s.solution).subst s'.solution =
      origin.subst s'.solution := hfills.refines.subst
  rw [hfills.refines.absorbs] at hat
  rcases Ty.at_subst hat (Ty.Settled.firstOrder h.settled v) with
    ⟨inner, hinner, hinnerSolid, rfl⟩ | ⟨w, k, above, below, -, hw, hbelow⟩
  · obtain ⟨origin, hmem, rfl⟩ := h.generated v hv _ inner hinner hinnerSolid
    exact ⟨origin, hmem, hagain origin⟩
  · have hopen := h.settled.isOpen_of_mentions (Nat.lt_of_lt_of_le hv h.created) hw.mentions
    by_cases hid : w = id
    · rw [hid, hfills.solves _ List.mem_cons_self] at hbelow
      rcases Ty.at_subst hbelow htype.simple.firstOrder.bare with
        ⟨inner, hinner, hinnerSolid, rfl⟩ | ⟨u, k', above', below', -, hu, hbelow⟩
      · obtain ⟨origin, hmem, rfl⟩ := horigin _ inner hinner hinnerSolid
        exact ⟨origin, hmem, hagain origin⟩
      · have hmentions := Ty.mentions_bare_iff.1 hu.mentions
        obtain ⟨hne, hself⟩ := htype.mentions u hmentions
        exact (hother ⟨htype.simple.lt hmentions, hself⟩ hne hbelow).elim
    · exact (hother hopen hid hbelow).elim

/-! ## Displayed types -/

/-- A substituted type. -/
structure Displayed (known : List Ty) (bound : Nat) (s : Store) (depth : Nat) (type : Ty) :
    Prop where
  fits : Fits known bound s depth type
  final : ∀ v, type.Mentions v → s.solution v = .unsolved v .type

theorem Fits.displayed (h : Fits known bound s depth type) (hs : s.Settled) :
    Displayed known bound s depth (s.substituteType type) := by
  obtain ⟨root, hroot, hknown, hstands⟩ := h.stands
  refine ⟨⟨hs.substituteType h.simple, root, hroot, hknown, ?_⟩, fun v hv =>
    hs.of_mentions h.simple.firstOrder hv⟩
  rw [hs.bare_substituteType h.simple.firstOrder, hs.subst_subst]
  exact hstands

theorem Displayed.bare_subst (h : Displayed known bound s depth type) :
    type.bare.subst s.solution = type.bare :=
  Ty.bare_subst_self h.final

theorem Displayed.origin (h : Displayed known bound s depth type) (hs : Surveyed known bound s) :
    ∀ below part, Ty.At below part type.bare → part.isUnsolved = false →
      ∃ origin ∈ known, part = origin.subst s.solution := by
  intro below part hat hsolid
  rw [← h.bare_subst] at hat
  exact hs.origin h.fits hat hsolid

theorem Displayed.shallow (h : Displayed known bound s depth type) (hs : Surveyed known bound s)
    {limit : Nat} (hlimit : known.length ≤ limit + depth) : type.bare.Shallow limit := by
  intro below part hat
  rw [← h.bare_subst] at hat
  have hle := hs.depth_le h.fits hat
  omega

/-- A variable that does not occur in a type can be solved by it once kinds were checked. -/
theorem Displayed.solvable {id : Nat} {kind : Kind} {limit : Nat}
    (hid : Displayed known bound s depth (.unsolved id kind))
    (htype : Displayed known bound s depth type) (hs : Surveyed known bound s)
    (hlimit : known.length ≤ limit + depth) (hoccurs : ¬type.occurs id = true)
    (hkeeps : KeepsTypes s s') : Solvable limit s' id type := by
  obtain ⟨hs', hsolution⟩ := hkeeps.settled hs.settled
  have hnext := Nat.le_of_eq hkeeps.next.symm
  refine ⟨hs', ⟨?_, ?_⟩, htype.fits.simple.mono hnext, fun v hv => ⟨?_, ?_⟩,
    htype.shallow hs hlimit⟩
  · exact Nat.lt_of_lt_of_le (Ty.simple_unsolved.1 hid.fits.simple) hnext
  · rw [hsolution]
    exact hid.final id (Ty.mentions_unsolved.2 rfl)
  · rintro rfl
    exact hoccurs (htype.fits.simple.firstOrder.namedBinders.occurs_iff.2 hv)
  · rw [hsolution]
    exact htype.final v hv

section Apply

variable {head : Ty} {args : List Ty} {kind : Kind}

theorem Displayed.of_arg (h : Displayed known bound s depth (.apply head args kind)) {arg : Ty}
    (harg : arg ∈ args) : Fits known bound s (depth + 1) arg := by
  obtain ⟨root, hroot, hknown, hstands⟩ := h.fits.stands
  refine ⟨(Ty.simple_apply.1 h.fits.simple).2.2 arg harg, root, hroot, hknown, ?_⟩
  rw [Ty.bare_apply, Ty.subst_apply] at hstands
  exact hstands.trans (.arg (List.mem_map_of_mem (List.mem_map_of_mem harg)) (.root _))

/-- The head of an application that is no function type stands below it. -/
theorem Displayed.of_head (h : Displayed known bound s depth (.apply head args kind))
    (hfunction : (Ty.apply head args kind).isFunction = false) :
    Fits known bound s (depth + 1) head := by
  obtain ⟨root, hroot, hknown, hstands⟩ := h.fits.stands
  refine ⟨(Ty.simple_apply.1 h.fits.simple).2.1, root, hroot, hknown, ?_⟩
  rw [Ty.bare_apply, Ty.subst_apply, ← Ty.bare_arrow, Ty.arrow_eq_self hfunction] at hstands
  exact hstands.trans (.head (.root _))

/-- A head that is no arrow stays none. -/
theorem Displayed.head_ne (h : Displayed known bound s depth (.apply head args kind))
    (hs : s.Settled) (hargs : args ≠ []) (hfunction :
        (Ty.apply head args kind).isFunction = false) :
    (s.substituteType head).FirstOrder ∧ (s.substituteType head).isUnsolved = false ∧
      ∀ arity, s.substituteType head ≠ .builtIn (.function arity) := by
  have hhead := (Ty.simple_apply.1 h.fits.simple)
  refine ⟨(hs.substituteType hhead.2.1).firstOrder, Ty.unknown_bind hhead.1, fun arity heq => ?_⟩
  rw [Store.substituteType, Ty.substitute, Ty.bind_eq_builtIn hhead.1] at heq
  rw [Ty.isFunction_apply.2 ⟨⟨arity, heq⟩, hargs⟩] at hfunction
  cases hfunction

end Apply

/-! ## Ordered types -/

/-- Under every assignment that satisfies the solutions, the first type is a subtype of the
second. -/
def Ordered (s : Store) (a b : Ty) : Prop :=
  ∀ assignment, s.SatisfiesTypes assignment →
    (a.bare.subst assignment).SubtypeOf (b.bare.subst assignment)

theorem Ordered.refines (h : s.Ordered a b) (hrefines : RefinesTypes s s') : s'.Ordered a b :=
  fun assignment hassignment => h assignment (hrefines.satisfied hassignment)

/-- Types that have the same value are ordered. -/
theorem ordered_of_eq (ha : a.FirstOrder) (h : ∀ assignment, s.SatisfiesTypes assignment →
    a.bare.subst assignment = b.bare.subst assignment) : s.Ordered a b := by
  intro assignment hassignment
  rw [← h assignment hassignment]
  exact .refl (ha.bare.subst fun id _ => hassignment.firstOrder id)

/-- A run that leaves pairs of types ordered if it succeeds. -/
structure Compares (known : List Ty) (bound : Nat) (pairs : List (Ty × Ty)) (s : Store)
    (matched : Bool) (s' : Store) : Prop where
  surveyed : Surveyed known bound s'
  refines : RefinesTypes s s'
  ordered : matched = true → ∀ pair ∈ pairs, s'.Ordered pair.1 pair.2

theorem Surveyed.compares (h : Surveyed known bound s)
    (hordered : matched = true → ∀ pair ∈ pairs, s.Ordered pair.1 pair.2) :
    Compares known bound pairs s matched s :=
  ⟨h, h.settled.refines, hordered⟩

theorem Surveyed.compares_self (h : Surveyed known bound s)
    (hordered : matched = true → s.Ordered a b) : Compares known bound [(a, b)] s matched s := by
  refine h.compares fun hmatched pair hpair => ?_
  rw [List.mem_singleton.1 hpair]
  exact hordered hmatched

theorem Surveyed.compares_false (h : Surveyed known bound s) (pairs : List (Ty × Ty)) :
    Compares known bound pairs s false s :=
  h.compares fun hmatched => Bool.noConfusion hmatched

theorem Compares.append (h : Compares known bound pairs s true s')
    (h' : Compares known bound pairs' s' matched s'') :
    Compares known bound (pairs ++ pairs') s matched s'' := by
  refine ⟨h'.surveyed, h.refines.trans h'.refines, fun hmatched pair hpair => ?_⟩
  rcases List.mem_append.1 hpair with hpair | hpair
  · exact (h.ordered rfl pair hpair).refines h'.refines
  · exact h'.ordered hmatched pair hpair

theorem Compares.fail (h : Compares known bound pairs s false s') (pairs' : List (Ty × Ty)) :
    Compares known bound pairs' s false s' :=
  ⟨h.surveyed, h.refines, fun hmatched => Bool.noConfusion hmatched⟩

theorem Compares.of_ordered (h : Compares known bound pairs s matched s')
    (hordered : (∀ pair ∈ pairs, s'.Ordered pair.1 pair.2) → s'.Ordered a b) :
    Compares known bound [(a, b)] s matched s' := by
  refine ⟨h.surveyed, h.refines, fun hmatched pair hpair => ?_⟩
  rw [List.mem_singleton.1 hpair]
  exact hordered (h.ordered hmatched)

theorem Compares.of_substituted (hs : s.Settled) (ha : a.FirstOrder) (hb : b.FirstOrder)
    (h : Compares known bound [(s.substituteType a, s.substituteType b)] s matched s') :
    Compares known bound [(a, b)] s matched s' := by
  refine h.of_ordered fun hpairs assignment hassignment => ?_
  have hsub := hpairs _ List.mem_cons_self assignment hassignment
  have hearlier := h.refines.satisfied hassignment
  dsimp only at hsub
  rwa [hs.bare_substituteType ha, hs.bare_substituteType hb, hearlier.subst, hearlier.subst] at hsub

end Store

namespace Solve

open Run Store

variable {s : Store} {known : List Ty} {bound depth limit fuel : Nat}

/-- A check that leaves types ordered which stand deep enough. -/
def ComparesWithin (known : List Ty) (bound depth : Nat) (check : Ty → Ty → Solve Bool) : Prop :=
  ∀ {s : Store} {a b : Ty}, Surveyed known bound s → Fits known bound s depth a →
    Fits known bound s depth b → Ends (check a b) s (Compares known bound [(a, b)] s)

/-- Pairs are compared one after the other. -/
theorem ComparesWithin.allM {check : Ty → Ty → Solve Bool}
    (hcheck : ComparesWithin known bound depth check) (side : Side) :
    ∀ {s : Store} (pairs : List (Ty × Ty)), Surveyed known bound s →
    (∀ pair ∈ pairs, Fits known bound s depth pair.1 ∧ Fits known bound s depth pair.2) →
    Ends (pairs.allM fun (a, b) => side.relate check a b) s
      (Compares known bound (pairs.map fun pair => side.relate Prod.mk pair.1 pair.2) s) := by
  intro s pairs
  induction pairs generalizing s with
  | nil =>
    intro hs _
    exact Ends.pure (hs.compares fun _ _ hpair => (List.not_mem_nil hpair).elim)
  | cons pair rest ih =>
    intro hs hpairs
    obtain ⟨ha, hb⟩ := hpairs pair List.mem_cons_self
    have hfirst : Ends (side.relate check pair.1 pair.2) s
        (Compares known bound [side.relate Prod.mk pair.1 pair.2] s) := by
      cases side with
      | sub => exact hcheck hs ha hb
      | sup => exact hcheck hs hb ha
    refine Ends.bind (hfirst.mono fun matched s₁ hcompares => ?_)
    cases matched with
    | false => exact Ends.pure (hcompares.fail _)
    | true =>
      refine (ih hcompares.surveyed fun other hother => ?_).mono fun matched s₂ hrest =>
        hcompares.append hrest
      obtain ⟨ha, hb⟩ := hpairs other (List.mem_cons_of_mem _ hother)
      exact ⟨ha.refines hcompares.refines, hb.refines hcompares.refines⟩

/-! ## Variables -/

/-- A variable is solved by a type that does not mention it, and has its value from then on. -/
theorem checkUnsolved_compares (side : Side) {id : Nat} {kind : Kind} {type : Ty}
    {checkKinds : Solve Bool} (hs : Surveyed known bound s)
    (hid : Displayed known bound s depth (.unsolved id kind))
    (htype : Displayed known bound s depth type) (hlimit : known.length ≤ limit + depth)
    (hkinds : Relates KeepsTypes checkKinds) :
    Ends (if type.occurs id then pure false
      else do
        if ← checkKinds then
          instantiateTypeWithin (limit + 1) side (id, kind) type
          pure true
        else pure false) s
      (Compares known bound [side.relate Prod.mk (.unsolved id kind) type] s) := by
  split
  · exact Ends.pure (hs.compares_false _)
  rename_i hoccurs
  refine Ends.bind ((hkinds s).mono fun matched s₁ hkeeps => ?_)
  have hs₁ := hs.keeps hkeeps
  have hrefines := hkeeps.refines hs.settled
  cases matched with
  | false => exact Ends.pure ⟨hs₁, hrefines, fun hmatched => Bool.noConfusion hmatched⟩
  | true =>
    have hsolvable := hid.solvable htype hs hlimit hoccurs hkeeps
    refine Ends.bind ((instantiateTypeWithin_fills limit side (id, kind) type hsolvable).mono ?_)
    intro _ s₂ hfills
    have hs₂ : Surveyed known bound s₂ := by
      refine hs₁.fills hsolvable hfills ?_
      rw [(hkeeps.settled hs.settled).2]
      exact htype.origin hs
    have hequal : ∀ assignment, s₂.SatisfiesTypes assignment →
        (Ty.unsolved id kind).bare.subst assignment = type.bare.subst assignment := by
      intro assignment hassignment
      rw [Ty.bare_unsolved, Ty.subst_unsolved, hassignment.solution,
        hfills.solves _ List.mem_cons_self, hassignment.subst]
    refine Ends.pure ⟨hs₂, hrefines.trans hfills.refines, fun _ pair hpair => ?_⟩
    rw [List.mem_singleton.1 hpair]
    cases side with
    | sub => exact ordered_of_eq (Ty.firstOrder_unsolved id kind) hequal
    | sup =>
      exact ordered_of_eq htype.fits.simple.firstOrder fun assignment hassignment =>
        (hequal assignment hassignment).symm

/-! ## Applications -/

/-- The arrow of a function type is compared with no other head. -/
theorem checkArrow_ends (side : Side) (fuel arity : Nat) {other : Ty}
    (hother : (s.substituteType other).FirstOrder)
    (hsolved : (s.substituteType other).isUnsolved = false)
    (hne : ∀ arity, s.substituteType other ≠ .builtIn (.function arity)) :
    Ends (side.relate (checkSubTypeWithin fuel) (.builtIn (.function arity)) other) s
      fun matched s' => matched = false ∧ s' = s := by
  cases fuel with
  | zero => cases side <;> exact Ends.pure ⟨rfl, rfl⟩
  | succ fuel =>
    have harrow : s.substituteType (.builtIn (.function arity)) = .builtIn (.function arity) := by
      rw [Store.substituteType, Ty.substitute, Ty.bind_builtIn]
    have hapart : ∀ {sub sup : BuiltIn}, sub.isSubtypeOf sup = true →
        (Ty.builtIn sub = .builtIn (.function arity) ↔
            Ty.builtIn sup = .builtIn (.function arity)) :=
      fun hsub => by rw [Ty.builtIn.injEq, Ty.builtIn.injEq, Ty.isSubtypeOf_function hsub]
    cases side with
    | sub =>
      refine Ends.bind (Ends.bind (Ends.get (Ends.pure ?_)))
      refine Ends.bind (Ends.bind (Ends.get (Ends.pure ?_)))
      rw [harrow]
      generalize s.substituteType other = other at hother hsolved hne ⊢
      cases other with
      | unsolved id kind => cases hsolved
      | quantified binders body kind => exact (Ty.not_firstOrder_quantified _ _ _ hother).elim
      | builtIn type =>
        refine Ends.pure ⟨Bool.eq_false_iff.2 fun hsub => ?_, rfl⟩
        exact hne arity ((hapart hsub).1 rfl)
      | _ => exact Ends.pure ⟨rfl, rfl⟩
    | sup =>
      refine Ends.bind (Ends.bind (Ends.get (Ends.pure ?_)))
      refine Ends.bind (Ends.bind (Ends.get (Ends.pure ?_)))
      rw [harrow]
      generalize s.substituteType other = other at hother hsolved hne ⊢
      cases other with
      | unsolved id kind => cases hsolved
      | quantified binders body kind => exact (Ty.not_firstOrder_quantified _ _ _ hother).elim
      | builtIn type =>
        refine Ends.pure ⟨Bool.eq_false_iff.2 fun hsub => ?_, rfl⟩
        exact hne arity ((hapart hsub).2 rfl)
      | _ => exact Ends.pure ⟨rfl, rfl⟩

section Apply

variable {head head' : Ty} {args args' : List Ty} {kind kind' : Kind}

/-- Function types are compared argument by argument, the other way round, and then by their
results. -/
theorem checkFunctions_compares {check : Ty → Ty → Solve Bool}
    (hcheck : ComparesWithin known bound (depth + 1) check) (hs : Surveyed known bound s)
    (ha : Displayed known bound s depth (.apply head args kind))
    (hb : Displayed known bound s depth (.apply head' args' kind'))
    {params params' : List Ty} {result result' : Ty}
    (hsub : (Ty.apply head args kind).function? = some (params, result))
    (hsup : (Ty.apply head' args' kind').function? = some (params', result'))
    (hlength : params.length = params'.length) :
    Ends (do
        let matched ← (params.zip params').allM fun (param, param') => check param' param
        if matched then check result result' else pure false) s
      (Compares known bound [(.apply head args kind, .apply head' args' kind')] s) := by
  obtain rfl := function?_eq_some hsub
  obtain rfl := function?_eq_some hsup
  have hparams : ∀ pair ∈ params.zip params', Fits known bound s (depth + 1) pair.1 ∧
      Fits known bound s (depth + 1) pair.2 := by
    intro pair hpair
    obtain ⟨hleft, hright⟩ := List.of_mem_zip hpair
    exact ⟨ha.of_arg (List.mem_append_left _ hleft), hb.of_arg (List.mem_append_left _ hright)⟩
  refine Ends.bind ((hcheck.allM .sup (params.zip params') hs hparams).mono ?_)
  intro matched s₁ hcompares
  cases matched with
  | false => exact Ends.pure (hcompares.fail _)
  | true =>
    have hresult := ha.of_arg (List.mem_append_right params List.mem_cons_self)
    have hresult' := hb.of_arg (List.mem_append_right params' List.mem_cons_self)
    refine (hcheck hcompares.surveyed (hresult.refines hcompares.refines)
      (hresult'.refines hcompares.refines)).mono fun matched s₂ hlast => ?_
    refine (hcompares.append hlast).of_ordered fun hpairs assignment hassignment => ?_
    refine .of_functions ha.fits.simple.firstOrder hb.fits.simple.firstOrder hsub hsup hlength
      (fun pair hpair => ?_) ?_
    · exact hpairs (pair.2, pair.1) (List.mem_append_left _ (List.mem_map.2 ⟨pair, hpair, rfl⟩))
        assignment hassignment
    · exact hpairs (result, result') (List.mem_append_right _ List.mem_cons_self) assignment
        hassignment

/-- Other applications are compared by their heads and then argument by argument. -/
theorem checkHeads_compares
    (hcheck : ComparesWithin known bound (depth + 1) (checkSubTypeWithin fuel))
    (hs : Surveyed known bound s) (ha : Displayed known bound s depth (.apply head args kind))
    (hb : Displayed known bound s depth (.apply head' args' kind'))
    (hother : (Ty.apply head args kind).isFunction = false ∨
      (Ty.apply head' args' kind').isFunction = false) (hlength : args.length = args'.length) :
    Ends (do
        if ← checkSubTypeWithin fuel head head' then
          (args.zip args').allM fun (arg, arg') => checkSubTypeWithin fuel arg arg'
        else pure false) s
      (Compares known bound [(.apply head args kind, .apply head' args' kind')] s) := by
  have hargs : args = [] ↔ args' = [] := by
    rw [← List.length_eq_zero_iff, ← List.length_eq_zero_iff, hlength]
  have hmismatch : Ends (checkSubTypeWithin fuel head head') s
      (fun matched s' => matched = false ∧ s' = s) →
      Ends (do
        if ← checkSubTypeWithin fuel head head' then
          (args.zip args').allM fun (arg, arg') => checkSubTypeWithin fuel arg arg'
        else pure false) s
      (Compares known bound [(.apply head args kind, .apply head' args' kind')] s) := by
    refine fun hends => Ends.bind (hends.mono ?_)
    rintro _ _ ⟨rfl, rfl⟩
    exact Ends.pure (hs.compares_false _)
  cases hfunction : (Ty.apply head args kind).isFunction with
  | true =>
    have hfunction' := hother.resolve_left (by rw [hfunction]; exact Bool.noConfusion)
    obtain ⟨⟨arity, rfl⟩, hne⟩ := Ty.isFunction_apply.1 hfunction
    obtain ⟨hfirst, hsolved, harrow⟩ :=
      hb.head_ne hs.settled (fun heq => hne (hargs.2 heq)) hfunction'
    exact hmismatch (checkArrow_ends .sub fuel arity hfirst hsolved harrow)
  | false =>
    cases hfunction' : (Ty.apply head' args' kind').isFunction with
    | true =>
      obtain ⟨⟨arity, rfl⟩, hne⟩ := Ty.isFunction_apply.1 hfunction'
      obtain ⟨hfirst, hsolved, harrow⟩ :=
        ha.head_ne hs.settled (fun heq => hne (hargs.1 heq)) hfunction
      exact hmismatch (checkArrow_ends .sup fuel arity hfirst hsolved harrow)
    | false =>
      refine Ends.bind ((hcheck hs (ha.of_head hfunction) (hb.of_head hfunction')).mono ?_)
      intro matched s₁ hheads
      cases matched with
      | false => exact Ends.pure (hheads.fail _)
      | true =>
        have hpairs : ∀ pair ∈ args.zip args', Fits known bound s₁ (depth + 1) pair.1 ∧
            Fits known bound s₁ (depth + 1) pair.2 := by
          intro pair hpair
          obtain ⟨hleft, hright⟩ := List.of_mem_zip hpair
          exact ⟨(ha.of_arg hleft).refines hheads.refines,
              (hb.of_arg hright).refines hheads.refines⟩
        refine (hcheck.allM .sub (args.zip args') hheads.surveyed hpairs).mono ?_
        intro matched s₂ hrest
        refine (hheads.append hrest).of_ordered fun hpairs assignment hassignment => ?_
        refine .of_heads ha.fits.simple.firstOrder hb.fits.simple.firstOrder
            (.inl hfunction) hlength
          ?_ fun pair hpair => ?_
        · exact hpairs (head, head') (List.mem_append_left _ List.mem_cons_self) assignment
            hassignment
        · exact hpairs pair (List.mem_append_right _ (List.mem_map.2 ⟨pair, hpair, rfl⟩)) assignment
            hassignment

/-- Applications are compared part by part. -/
theorem checkApply_compares
    (hcheck : ComparesWithin known bound (depth + 1) (checkSubTypeWithin fuel))
    (hs : Surveyed known bound s) (ha : Displayed known bound s depth (.apply head args kind))
    (hb : Displayed known bound s depth (.apply head' args' kind')) :
    Ends (if args.length = args'.length then
        match (Ty.apply head args kind).function?, (Ty.apply head' args' kind').function? with
        | some (params, result), some (params', result') => do
          let matched ← (params.zip params').allM fun (param, param') =>
            checkSubTypeWithin fuel param' param
          if matched then checkSubTypeWithin fuel result result' else pure false
        | _, _ => do
          if ← checkSubTypeWithin fuel head head' then
            (args.zip args').allM fun (arg, arg') => checkSubTypeWithin fuel arg arg'
          else pure false
      else pure false) s
      (Compares known bound [(.apply head args kind, .apply head' args' kind')] s) := by
  split
  · rename_i hlength
    cases hsub : (Ty.apply head args kind).function? with
    | none =>
      exact checkHeads_compares hcheck hs ha hb (.inl (Ty.isFunction_eq_false.2 hsub)) hlength
    | some function =>
      cases hsup : (Ty.apply head' args' kind').function? with
      | none =>
        exact checkHeads_compares hcheck hs ha hb (.inr (Ty.isFunction_eq_false.2 hsup)) hlength
      | some function' =>
        obtain ⟨params, result⟩ := function
        obtain ⟨params', result'⟩ := function'
        refine checkFunctions_compares hcheck hs ha hb hsub hsup ?_
        rw [function?_eq_some hsub, function?_eq_some hsup] at hlength
        simpa using hlength
  · exact Ends.pure (hs.compares_false _)

end Apply

/-- A check leaves types ordered when its depth is larger than the number of types that are known,
less the depth in which these types stand. -/
theorem checkSubTypeWithin_compares (fuel : Nat) : ∀ depth, known.length + 2 ≤ fuel + depth →
    ComparesWithin known bound depth (checkSubTypeWithin fuel) := by
  induction fuel with
  | zero =>
    intro depth hfuel s a b hs ha _
    have hle := hs.depth_le ha (.root _)
    omega
  | succ fuel ih =>
    intro depth hfuel s a b hs ha hb
    have hle := hs.depth_le ha (.root _)
    obtain ⟨limit, rfl⟩ : ∃ limit, fuel = limit + 1 := Nat.exists_eq_add_one.2 (by omega)
    have hlimit : known.length ≤ limit + depth := by omega
    refine Ends.bind (Ends.bind (Ends.get (Ends.pure ?_)))
    refine Ends.bind (Ends.bind (Ends.get (Ends.pure ?_)))
    refine Ends.mono ?_ fun matched s' hcompares =>
      Compares.of_substituted hs.settled ha.simple.firstOrder hb.simple.firstOrder hcompares
    have ha' := ha.displayed hs.settled
    have hb' := hb.displayed hs.settled
    generalize s.substituteType a = a at ha' ⊢
    generalize s.substituteType b = b at hb' ⊢
    split
    · exact (Ty.not_firstOrder_quantified _ _ _ hb'.fits.simple.firstOrder).elim
    · exact (Ty.not_firstOrder_quantified _ _ _ ha'.fits.simple.firstOrder).elim
    · split
      · rename_i heq
        refine Ends.pure (hs.compares_self fun _ => ordered_of_eq (Ty.firstOrder_unsolved _ _) ?_)
        intro assignment _
        rw [Ty.bare_eq_of_beq heq]
      · exact checkUnsolved_compares .sub hs ha' hb' hlimit (checkSubKind_keepsTypes _ _)
    · exact checkUnsolved_compares .sup hs hb' ha' hlimit (checkSubKind_keepsTypes _ _)
    · refine Ends.pure (hs.compares_self fun heq assignment _ => ?_)
      rw [Bool.and_eq_true, beq_iff_eq, beq_iff_eq] at heq
      obtain ⟨rfl, rfl⟩ := heq
      rw [Ty.bare_var, Ty.bare_var, Ty.subst_var]
      exact .var _ _ _ _
    · refine Ends.pure (hs.compares_self fun hsub assignment _ => ?_)
      rw [Ty.bare_builtIn, Ty.bare_builtIn, Ty.subst_builtIn, Ty.subst_builtIn]
      exact .builtIn hsub
    · refine Ends.pure (hs.compares_self fun heq assignment _ => ?_)
      rw [eq_of_beq heq, Ty.bare_constructor, Ty.bare_constructor, Ty.subst_constructor]
      exact .constructor _ _ _
    · exact checkApply_compares (ih (depth + 1) (by omega)) hs ha' hb'
    · exact Ends.pure (hs.compares_false _)

end Solve

end PolyFront
