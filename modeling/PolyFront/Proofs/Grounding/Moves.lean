import PolyFront.Proofs.Grounding.Worlds

/-!
# Single changes of a world

Closing solutions, creating variables, solving a kind and forgetting the variables of a frame keep a
world in order.  Where kinds are found, types are closed at most and none is created.
-/

namespace PolyFront

theorem pickKind_cases {α : Type} (frames : List (Frame α)) (left right : Kind) :
    pickKind frames left right = left ∨ pickKind frames left right = right := by
  cases left with
  | unsolved id =>
    cases right with
    | unsolved other =>
      rw [pickKind]
      split
      · exact .inl rfl
      · exact .inr rfl
    | _ => exact .inr rfl
  | _ => exact .inl rfl

namespace Kind

variable {params : Nat → Prop} {shown : List Kind} {kinds kinds' : Partition Kind} {kind : Kind}
  {id created : Nat} {pick : Kind → Kind → Kind}

/-- Solving a variable replaces one variable in all substitutions. -/
theorem Acyclic.solve_single (h : Acyclic created kinds) (hpick : shape.Picks pick)
    (hid : id < created) (hfinal : kinds.Final (.unsolved id)) (hkind : kind.Proper created)
    (hsolution : Solution kinds id kind) : ∃ loser winner,
      (∀ other : Kind, other.substitute (kinds.union (.unsolved id) kind pick) =
        (other.substitute kinds).bind (single loser winner)) ∧
      pick (.unsolved id) kind = winner ∧
      (loser = id ∧ winner = kind ∨ kind = .unsolved loser ∧ winner = .unsolved id) := by
  obtain ⟨hkept, hturned⟩ := h.substitute_union hpick hid hfinal hkind hsolution
  have hlift : ∀ {loser winner}, (∀ v, substitute (kinds.union (.unsolved id) kind pick)
      (.unsolved v) = (substitute kinds (.unsolved v)).bind (single loser winner)) →
      ∀ other : Kind, other.substitute (kinds.union (.unsolved id) kind pick) =
        (other.substitute kinds).bind (single loser winner) := by
    intro loser winner hall other
    rw [substitute_eq_bind, substitute_eq_bind kinds, bind_bind]
    exact bind_congr fun v _ => hall v
  rcases hunknown : shape.unknown kind with _ | _
  · have hpicked : pick (.unsolved id) kind = kind := hpick.solved rfl hunknown
    exact ⟨id, kind, hlift (hkept hpicked), hpicked, .inl ⟨rfl, rfl⟩⟩
  · obtain ⟨other, hother⟩ := unknown_iff.1 hunknown
    rcases hpick.chosen (a := .unsolved id) rfl hunknown with hpicked | hpicked
    · exact ⟨other, .unsolved id, hlift (hturned other hother hpicked), hpicked,
        .inr ⟨hother, rfl⟩⟩
    · exact ⟨id, kind, hlift (hkept hpicked), hpicked, .inl ⟨rfl, rfl⟩⟩

/-- What a parameter stands for once one variable is replaced. -/
theorem stands_single {loser v : Nat} {winner : Kind}
    (hsingle : ∀ kind : Kind, kind.substitute kinds' =
      (kind.substitute kinds).bind (single loser winner)) (h : Stands params kinds' v) :
    Stands params kinds v ∨ winner = .unsolved v ∧ Stands params kinds loser := by
  obtain ⟨param, hparam, heq⟩ := h
  rw [hsingle] at heq
  cases hcase : substitute kinds (.unsolved param) with
  | type => rw [hcase, bind_type] at heq; cases heq
  | higher args result => rw [hcase, bind_higher] at heq; cases heq
  | unsolved t =>
    rw [hcase, bind_unsolved] at heq
    by_cases hne : t = loser
    · rw [hne, single_self] at heq
      exact .inr ⟨heq, param, hparam, hne ▸ hcase⟩
    · rw [single_of_ne hne] at heq
      exact .inl ⟨param, hparam, hcase.trans heq⟩

/-- A live kind is live without the variables that are dropped, unless it is one of them. -/
theorem Drop.live {dropped : List Nat} (h : Drop params created dropped kinds kinds')
    (hlive : Live params shown kinds kind) (hkind : ∀ v, kind = .unsolved v → v ∉ dropped)
    (hshown : ∀ other ∈ shown, Sturdy dropped kinds other) : Live params shown kinds' kind := by
  have hstays : ∀ id, id ∉ dropped →
      ¬Partition.Among (dropped.map Kind.unsolved) (substitute kinds (.unsolved id)) →
      substitute kinds' (.unsolved id) = substitute kinds (.unsolved id) := by
    intro id hid hnot
    rw [substitute_dropped h.before h.after h.drops hid, h.drops.stays (not_among_unsolved hid) ?_,
      find_closed h.before.wellFounded]
    rwa [find_closed h.before.wellFounded]
  have hsolid : ∀ other : Kind, shape.unknown other = false →
      ¬Partition.Among (dropped.map Kind.unsolved) other := by
    intro other hsolid hamong
    rw [among_iff_isDropped] at hamong
    obtain ⟨id, -, rfl⟩ := hamong
    cases hsolid
  rcases hlive with ⟨v, heq, param, hparam, hstand⟩ | ⟨hunknown, hfree⟩
  · have hv : ¬Partition.Among (dropped.map Kind.unsolved) (.unsolved v) :=
      not_among_unsolved (h.stands v ⟨param, hparam, hstand⟩)
    have hsame : kind.substitute kinds' = .unsolved v := by
      cases kind with
      | type => rw [substitute, bind_type] at heq; cases heq
      | higher args result => rw [substitute_higher] at heq; cases heq
      | unsolved id => rw [hstays id (hkind id rfl) (heq ▸ hv), heq]
    refine .inl ⟨v, hsame, param, hparam, ?_⟩
    rw [hstays param (h.keeps param hparam) (hstand ▸ hv), hstand]
  · refine .inr ⟨?_, h.free hfree hshown⟩
    cases kind with
    | type => rw [substitute, bind_type]; rfl
    | higher args result => rw [substitute_higher]; rfl
    | unsolved id => rwa [hstays id (hkind id rfl) (hsolid _ hunknown)]

end Kind

namespace World

variable {w w' w'' : World}

/-- Kinds are found, and types are closed at most. -/
structure KindSteps (added : List Kind) (w w' : World) : Prop extends Steps added w w' where
  nextType : w'.store.nextType = w.store.nextType
  reclosed : Ty.Reclosed w.store.types w'.store.types
  still : w'.store.stack.frames.head?.map Frame.unsolvedTypes =
    w.store.stack.frames.head?.map Frame.unsolvedTypes

/-- Kinds are solved, and the stack is as before. -/
structure KindChecks (w w' : World) : Prop extends Steps [] w w' where
  nextType : w'.store.nextType = w.store.nextType
  reclosed : Ty.Reclosed w.store.types w'.store.types
  same : w'.store.stack = w.store.stack

theorem KindSteps.trans {added added' : List Kind} (h : KindSteps added w w')
    (h' : KindSteps added' w' w'') : KindSteps (added ++ added') w w'' where
  toSteps := h.toSteps.trans h'.toSteps
  nextType := h'.nextType.trans h.nextType
  reclosed := h.reclosed.trans h'.reclosed
  still := h'.still.trans h.still

theorem Kept.kindSteps (h : w.Kept) : KindSteps [] w w := ⟨h.steps, rfl, .refl, rfl⟩

theorem KindChecks.trans (h : KindChecks w w') (h' : KindChecks w' w'') : KindChecks w w'' where
  toSteps := h.toSteps.trans h'.toSteps
  nextType := h'.nextType.trans h.nextType
  reclosed := h.reclosed.trans h'.reclosed
  same := h'.same.trans h.same

theorem Kept.checks (h : w.Kept) : KindChecks w w := ⟨h.steps, rfl, .refl, rfl⟩

theorem KindChecks.kindSteps (h : KindChecks w w') : KindSteps [] w w' :=
  ⟨h.toSteps, h.nextType, h.reclosed, by rw [h.same]⟩

/-! ## Kinds -/

/-- Variables are replaced in all substitutions. -/
theorem Kept.setKinds (h : w.Kept) {kinds : Partition Kind} {f : Nat → Kind}
    (hkinds : Kind.Acyclic w.store.nextKind kinds)
    (hbind : ∀ kind : Kind, kind.substitute kinds = (kind.substitute w.store.kinds).bind f)
    (hparted : Kind.Parted w.params w.shown kinds)
    (hfree : ∀ kind, w.Free kind → Kind.Free w.params w.shown kinds kind)
    (hstands : ∀ id, Kind.Stands w.params kinds id → w.store.stack.Lasting id) :
    KindChecks w { w with store := { w.store with kinds := kinds } } := by
  have hlater : Later w { w with store := { w.store with kinds := kinds } } :=
    ⟨Nat.le_refl _, Nat.le_refl _, fun _ => hfree _,
      fun hlive =>
        ⟨hlive.proper, hlive.live.bind hkinds hparted hbind hfree, hlive.lasting⟩⟩
  refine ⟨⟨hlater, ?_, (List.append_nil _).symm, .refl _ _⟩, rfl, .refl, rfl⟩
  exact ⟨hkinds, hparted, h.shown, h.params, hstands, h.types.mono fun _ htype => hlater.fits htype,
    hlater.stack h.stack, h.registered, h.nonempty⟩

/-- Solutions of types that are recurring are laid out once they are closed. -/
theorem Kept.close (h : w.Kept) {types : Partition Ty} (hsound : types.Sound Ty.plainShape w.Fits)
    (hrecurring : Ty.Recurring types) :
    Steps [] w { w with store := Store.closeSolutions { w.store with types := types } } := by
  have hsame := Kind.substitute_closed h.wellFounded
  have hlater : Later w { w with
      store := Store.closeSolutions { w.store with types := types } } :=
    later_of_same hsame (fun h => h) (Nat.le_refl _) (Nat.le_refl _)
  have hstands : ∀ {v}, Kind.Stands w.params (Kind.closed w.store.kinds) v →
      Kind.Stands w.params w.store.kinds v := by
    rintro v ⟨param, hparam, heq⟩
    exact ⟨param, hparam, (hsame _).symm.trans heq⟩
  refine ⟨hlater, ?_, (List.append_nil _).symm, .refl _ _⟩
  refine ⟨h.kinds.closed, h.parted.closed h.kinds, h.shown, h.params,
    fun id hid => h.stands id (hstands hid), ?_, hlater.stack h.stack, h.registered, h.nonempty⟩
  refine (hrecurring.laidOut_closed hsound fun type htype => ?_).mono
    fun _ htype => hlater.fits htype
  refine Ty.Fits.substitute htype hsound fun kind hkind => ?_
  show w.Live (kind.substitute (Kind.closed w.store.kinds))
  rw [hsame]
  exact h.live_substitute hkind

theorem Kept.closeSolutions (h : w.Kept) :
    KindChecks w { w with store := w.store.closeSolutions } :=
  ⟨h.close h.types.sound h.types.spread.recurring, rfl, .close .refl _, rfl⟩

/-- A variable is solved by a kind that is free, or merged with one that is as revealed as it is. -/
theorem Kept.solveKind (h : w.Kept) {id : Nat} {kind : Kind} (hid : id < w.store.nextKind)
    (hfinal : w.store.kinds.Final (.unsolved id)) (hkind : kind.Proper w.store.nextKind)
    (hsolution : Kind.Solution w.store.kinds id kind)
    (hfree : Kind.shape.unknown kind = false ∧ w.Free kind ∨ ∃ other, kind = .unsolved other ∧
      (Kind.Revealed w.params w.shown w.store.kinds id ↔
        Kind.Revealed w.params w.shown w.store.kinds other)) :
    KindChecks w { w with store := w.store.solveKind id kind } := by
  have hpick := Kind.picks_pickKind (α := Located Attributes) w.store.stack.outermostFirst
  have hacyclic := h.kinds.solve hpick hid hfinal hkind hsolution
  obtain ⟨loser, winner, hsingle, hpicked, hcases⟩ :=
    h.kinds.solve_single hpick hid hfinal hkind hsolution
  have hwinner : (Kind.shape.unknown winner = false ∧
        ∀ v ∈ winner.unknowns, Kind.Revealed w.params w.shown w.store.kinds v) ∨
      ∃ v, winner = .unsolved v ∧ (Kind.Revealed w.params w.shown w.store.kinds loser ↔
        Kind.Revealed w.params w.shown w.store.kinds v) := by
    rcases hfree with ⟨hsolid, hfree⟩ | ⟨other, rfl, hiff⟩
    · rcases hcases with ⟨rfl, rfl⟩ | ⟨rfl, -⟩
      · refine .inl ⟨hsolid, fun v hv => ?_⟩
        have hself := hsolution.final h.kinds
        refine hfree v (Kind.mem_unknowns_substitute.2 ⟨v, hv, ?_⟩)
        have hv' : w.store.kinds.Final (.unsolved v) := by
          cases hsolution with
          | type => simp at hv
          | unknown => cases hsolid
          | compound _ _ hall => exact (hall v hv).2
        rw [(Kind.final_iff_substitute h.wellFounded).1 hv']
        simp
      · cases hsolid
    · rcases hcases with ⟨rfl, rfl⟩ | ⟨heq, rfl⟩
      · exact .inr ⟨other, rfl, hiff⟩
      · cases heq
        exact .inr ⟨id, rfl, hiff.symm⟩
  have hfrees : ∀ k, w.Free k → Kind.Free w.params w.shown
      (w.store.kinds.union (.unsolved id) kind w.store.pickKind) k := fun k hk =>
    Kind.Free.single hsingle hwinner hk
  have hset : KindChecks w { w with store := { w.store with
      kinds := w.store.kinds.union (.unsolved id) kind w.store.pickKind } } := by
    refine h.setKinds hacyclic hsingle ?_ hfrees fun v hv => ?_
    · refine h.parted.union h.kinds.sound.distinct (pickKind_cases _) rfl ?_ hfrees
      rcases hfree with ⟨-, hfree⟩ | ⟨other, rfl, -⟩
      · exact .inr hfree
      · exact .inl rfl
    · rcases Kind.stands_single hsingle hv with hold | ⟨rfl, hloser⟩
      · exact h.stands v hold
      have hlasting := h.stands loser hloser
      rcases hcases with ⟨rfl, rfl⟩ | ⟨rfl, heq⟩
      · exact Stack.Lasting.pickKind (.inl hlasting) hpicked
      · exact Stack.Lasting.pickKind (.inr hlasting) hpicked
  exact hset.trans hset.kept.closeSolutions

end World

end PolyFront
