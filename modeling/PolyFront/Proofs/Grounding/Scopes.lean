import PolyFront.Proofs.Grounding.Moves

/-!
# Frames and the variables they forget

A frame that forgets its variables forgets such that were created since it was pushed.  A kind that
is live stays so, since it is not written as one of them; what mentions one inside of a kind
mentions a variable afterwards that stands for itself.  Every other frame hands its variables on.
-/

namespace PolyFront

open Run

/-! ## Popped stores -/

namespace Store

/-- What is left of a store when its innermost frame is popped and forgets its variables. -/
def left (s : Store) (frame : Frame (Located Attributes))
    (rest : List (Frame (Located Attributes))) : Store :=
  Store.forget { s.closeSolutions with stack := { s.stack with frames := rest } } frame

/-- What is left of a store when its innermost frame is popped and hands its variables on. -/
def handed (s : Store) (frame : Frame (Located Attributes))
    (rest : List (Frame (Located Attributes))) : Store :=
  Store.handOn { s with stack := { s.stack with frames := rest } } frame

end Store

namespace Solve

variable {s : Store} {tag : ScopeTag}

theorem pop_ends {stack : Stack (Located Attributes)} {expected : ScopeTag} :
    Ends (Stack.pop expected) stack fun frame stack' => ∃ rest, stack.frames = frame :: rest ∧
      frame.tag = expected ∧ stack' = { stack with frames := rest } := by
  refine Ends.bind (Ends.get ?_)
  cases hframes : stack.frames with
  | nil =>
    intro _ _ hrun
    cases hrun
  | cons frame rest =>
    refine Ends.bind (Ends.set ?_)
    split
    · rename_i htag
      exact Ends.pure ⟨rest, rfl, htag, rfl⟩
    · intro _ _ hrun
      cases hrun

theorem popScope_left (htag : tag.dropsVariables = true) :
    Ends (popScope tag) s fun frame s' => ∃ rest, s.stack.frames = frame :: rest ∧
      frame.tag = tag ∧ s' = s.left frame rest := by
  rw [popScope, if_pos htag]
  refine Ends.bind (Ends.modify (Ends.bind (Ends.within (pop_ends.mono ?_))))
  rintro frame _ ⟨rest, hframes, hframe, rfl⟩
  exact Ends.bind (Ends.modify (Ends.pure ⟨rest, hframes, hframe, rfl⟩))

theorem popScope_handed (htag : tag.dropsVariables = false) :
    Ends (popScope tag) s fun frame s' => ∃ rest, s.stack.frames = frame :: rest ∧
      frame.tag = tag ∧ s' = s.handed frame rest := by
  rw [popScope, if_neg (by rw [htag]; simp)]
  refine Ends.bind (Ends.within (pop_ends.mono ?_))
  rintro frame _ ⟨rest, hframes, hframe, rfl⟩
  exact Ends.bind (Ends.modify (Ends.pure ⟨rest, hframes, hframe, rfl⟩))

end Solve

theorem Frame.mem_addKinds {α : Type} {frame : Frame α} {ids : List Nat} {id : Nat} :
    id ∈ (frame.addKinds ids).unsolvedKinds ↔ id ∈ frame.unsolvedKinds ∨ id ∈ ids := by
  have hfold : ∀ (ids known : List Nat),
      id ∈ ids.foldl (fun known id => known.insert id) known ↔ id ∈ known ∨ id ∈ ids := by
    intro ids
    induction ids with
    | nil => simp
    | cons first rest ih =>
      intro known
      rw [List.foldl_cons, ih, List.mem_insert_iff, List.mem_cons]
      tauto
  exact hfold ids frame.unsolvedKinds

namespace World

variable {w w₁ : World} {kind : ScopeKind} {added : List Kind}
  {frame : Frame (Located Attributes)} {rest : List (Frame (Located Attributes))}

/-- The world in which a fresh frame is innermost. -/
def pushed (w : World) (kind : ScopeKind) : World := { w with store := w.store.pushed kind }

theorem later_pushed (w : World) (kind : ScopeKind) : Later w (w.pushed kind) :=
  later_of_same (fun _ => rfl) (fun hid => hid.push _) (Nat.le_refl _) (Nat.le_refl _)

theorem Kept.pushed (h : w.Kept) (kind : ScopeKind) : (w.pushed kind).Kept where
  kinds := h.kinds
  parted := h.parted
  shown := h.shown
  params id hid := (h.params id hid).push _
  stands id hid := (h.stands id hid).push _
  types := h.types.mono fun _ htype => (w.later_pushed kind).fits htype
  stack := by
    have hstack := (w.later_pushed kind).stack h.stack
    refine ⟨fun frame hframe => ?_, hstack.builtIns⟩
    rcases List.mem_cons.1 hframe with rfl | hframe
    · exact Frame.Every.empty kind
    · exact hstack.frames frame hframe
  registered frame hframe id hid := by
    rcases List.mem_cons.1 hframe with rfl | hframe
    · cases hid
    · exact h.registered frame hframe id hid
  nonempty := List.cons_ne_nil _ _

/-- The frames when the work inside of a scope is done. -/
theorem Steps.pushed_frames (h : Steps added (w.pushed kind) w₁)
    (hframes : w₁.store.stack.frames = frame :: rest) : rest = w.store.stack.frames ∧
      w₁.store.stack.builtIns = w.store.stack.builtIns ∧ frame.tag = kind.tag ∧
      ∀ id ∈ frame.unsolvedKinds, w.store.nextKind ≤ id := by
  obtain ⟨frame', hframes', htag, -, hfresh⟩ := h.stack.frames rfl
  rw [hframes, List.cons.injEq] at hframes'
  obtain ⟨rfl, rfl⟩ := hframes'
  refine ⟨rfl, h.stack.builtIns, htag, fun id hid => ?_⟩
  exact (hfresh id hid).resolve_left List.not_mem_nil

theorem Steps.stack_eq (h : Steps added (w.pushed kind) w₁)
    (hframes : w₁.store.stack.frames = frame :: rest) :
    { w₁.store.stack with frames := rest } = w.store.stack := by
  obtain ⟨hrest, hbuiltIns, -, -⟩ := h.pushed_frames hframes
  show Stack.mk rest w₁.store.stack.builtIns = w.store.stack
  rw [hrest, hbuiltIns]

/-- Variables that last inside of a frame that forgets its variables were registered before it. -/
theorem Steps.lasting (h : Steps added (w.pushed kind) w₁) (hdrops : kind.tag.dropsVariables = true)
    (hframes : w₁.store.stack.frames = frame :: rest) {id : Nat}
    (hid : w₁.store.stack.Lasting id) : w.store.stack.Lasting id := by
  obtain ⟨hrest, -, htag, -⟩ := h.pushed_frames hframes
  have hlasting : Stack.Lasting ⟨frame :: rest, none⟩ id := hid.of_frames hframes.symm
  exact (hlasting.drop (htag ▸ hdrops)).of_frames hrest.symm

/-! ## Frames that forget their variables -/

/-- Solutions that are closed off fit as before. -/
theorem Kept.closed (h : w.Kept) :
    Ty.LaidOut w.Fits (Ty.closed w.store.types (Kind.closed w.store.kinds)) := by
  refine h.types.closed fun type htype => Ty.Fits.substitute htype h.types.sound fun k hk => ?_
  rw [Kind.substitute_closed h.wellFounded]
  exact h.live_substitute hk

section Left

variable (hw : w.Kept) (h : Steps added (w.pushed kind) w₁)
  (hdrops : kind.tag.dropsVariables = true) (hframes : w₁.store.stack.frames = frame :: rest)

include h hframes

theorem Steps.left_stack : (w₁.store.left frame rest).stack = w.store.stack := h.stack_eq hframes

theorem Steps.left_kinds : (w₁.store.left frame rest).kinds =
    (Kind.closed w₁.store.kinds).removeAll w.store.pickKind
      (frame.unsolvedKinds.map .unsolved) := by
  rw [Partition.removeAll, List.foldl_map]
  show frame.unsolvedKinds.foldl (fun kinds id => kinds.remove (.unsolved id)
    (PolyFront.pickKind (Stack.outermostFirst { w₁.store.stack with frames := rest })))
    (Kind.closed w₁.store.kinds) = _
  rw [h.stack_eq hframes]
  rfl

theorem Steps.left_types : (w₁.store.left frame rest).types = frame.unsolvedTypes.foldl
    (fun (types : Partition Ty) id => types.remove (.unsolved id .type) w.store.pickType)
    (Ty.closed w₁.store.types (Kind.closed w₁.store.kinds)) := by
  show frame.unsolvedTypes.foldl (fun (types : Partition Ty) id =>
    types.remove (.unsolved id .type)
      (PolyFront.pickType (Stack.outermostFirst { w₁.store.stack with frames := rest }))) _ = _
  rw [h.stack_eq hframes]
  rfl

include hdrops in
/-- A variable that lasts inside of the frame lasts once it is popped. -/
theorem Steps.lasting_left {id : Nat} (hid : w₁.store.stack.Lasting id) :
    (w₁.store.left frame rest).stack.Lasting id := by
  rw [h.left_stack hframes]
  exact h.lasting hdrops hframes hid

/-- Types that are left fit.  What closing and removing types keeps is kept. -/
theorem Steps.types_left
    (hlater : Later w₁ { w₁ with store := w₁.store.left frame rest }) {motive : Partition Ty → Prop}
    (hmotive : motive (Ty.closed w₁.store.types (Kind.closed w₁.store.kinds)))
    (hstep : ∀ {types : Partition Ty} (id : Nat), Ty.LaidOut (fun _ => True) types →
      motive types → motive (types.remove (.unsolved id .type) w.store.pickType)) :
    Ty.LaidOut (World.Fits { w₁ with store := w₁.store.left frame rest })
        (w₁.store.left frame rest).types ∧ motive (w₁.store.left frame rest).types := by
  rw [h.left_types hframes]
  exact (h.kept.closed.mono fun _ htype => hlater.fits htype).removeAll
    (Ty.picks_plain w.store.stack.outermostFirst) hmotive
    (fun id hlaid => hstep id (hlaid.mono fun _ _ => True.intro)) frame.unsolvedTypes

include hw

/-- What is shown mentions no variable of the frame that could be solved, if what was shown inside
of it does not. -/
theorem Steps.shown_sturdy
    (hadded : ∀ other ∈ added, Kind.Sturdy frame.unsolvedKinds w₁.store.kinds other) :
    ∀ k ∈ w₁.shown, Kind.Sturdy frame.unsolvedKinds w₁.store.kinds k := by
  obtain ⟨-, -, -, hfresh⟩ := h.pushed_frames hframes
  intro k hk
  rw [h.shown] at hk
  rcases List.mem_append.1 hk with hk | hk
  · exact fun id hid => .inl fun hmem => Nat.not_lt.2 (hfresh id hmem) (hw.shown k hk id hid)
  · exact hadded k hk

include hdrops

/-- A variable that lasts is none of the frame. -/
theorem Steps.not_forgotten {id : Nat} (hid : w₁.store.stack.Lasting id) :
    id ∉ frame.unsolvedKinds := by
  obtain ⟨-, -, -, hfresh⟩ := h.pushed_frames hframes
  exact fun hmem =>
    Nat.not_lt.2 (hfresh _ hmem) (hw.lt_of_lasting (h.lasting hdrops hframes hid))

/-- The variables of the frame are dropped, none of which a parameter stands for. -/
theorem Steps.drops_kinds : Kind.Drop w₁.params w₁.store.nextKind frame.unsolvedKinds
    w₁.store.kinds (w₁.store.left frame rest).kinds := by
  rw [h.left_kinds hframes]
  exact h.kept.kinds.drop frame.unsolvedKinds
    (Kind.picks_pickKind (α := Located Attributes) w.store.stack.outermostFirst)
    (fun id hid => h.not_forgotten hw hdrops hframes (h.kept.params id hid))
    fun id hid => h.not_forgotten hw hdrops hframes (h.kept.stands id hid)

/-- What was known inside of the frame is known once it is popped. -/
theorem Steps.later_left (hshown : ∀ k ∈ w₁.shown,
    Kind.Sturdy frame.unsolvedKinds w₁.store.kinds k) :
    Later w₁ { w₁ with store := w₁.store.left frame rest } := by
  have hdrop := h.drops_kinds hw hdrops hframes
  refine ⟨Nat.le_refl _, Nat.le_refl _, fun _ hfree => hdrop.free hfree hshown, fun hlive => ?_⟩
  refine ⟨hlive.proper, hdrop.live hlive.live (fun v heq => ?_) hshown, fun id heq => ?_⟩
  · exact h.not_forgotten hw hdrops hframes (hlive.lasting v heq)
  · exact h.lasting_left hdrops hframes (hlive.lasting id heq)

/-- The world is in order once the frame is popped. -/
theorem Steps.kept_left (hshown : ∀ k ∈ w₁.shown,
    Kind.Sturdy frame.unsolvedKinds w₁.store.kinds k) :
    (World.mk w₁.params w₁.shown (w₁.store.left frame rest)).Kept := by
  have hdrop := h.drops_kinds hw hdrops hframes
  have hlater := h.later_left hw hdrops hframes hshown
  have hstack := h.left_stack hframes
  have hparted : Kind.Parted w₁.params w₁.shown (w₁.store.left frame rest).kinds := by
    rw [h.left_kinds hframes] at hdrop ⊢
    exact h.kept.parted.drop
      (Kind.picks_pickKind (α := Located Attributes) w.store.stack.outermostFirst) hdrop hshown
  refine ⟨hdrop.after, hparted, h.kept.shown, fun id hid => ?_, fun id hid => ?_,
    (h.types_left hframes hlater (motive := fun _ => True) True.intro
      fun _ _ _ => True.intro).1, ?_, ?_, ?_⟩
  · exact h.lasting_left hdrops hframes (h.kept.params id hid)
  · exact h.lasting_left hdrops hframes (h.kept.stands id (hdrop.stands_of hid))
  · dsimp only
    rw [hstack]
    exact (((w.later_pushed kind).trans h.toLater).trans hlater).stack hw.stack
  · dsimp only
    rw [hstack]
    exact fun frame hframe id hid => Nat.lt_of_lt_of_le (hw.registered frame hframe id hid) h.kinds
  · dsimp only
    rw [hstack]
    exact hw.nonempty

/-- A frame that was pushed may forget its variables, if what was shown in it mentions only what
stands for itself.  What closing and removing types keeps is kept. -/
theorem Steps.drop
    (hadded : ∀ other ∈ added, Kind.Sturdy frame.unsolvedKinds w₁.store.kinds other)
    {motive : Partition Ty → Prop}
    (hmotive : motive (Ty.closed w₁.store.types (Kind.closed w₁.store.kinds)))
    (hstep : ∀ {types : Partition Ty} (id : Nat), Ty.LaidOut (fun _ => True) types →
      motive types → motive (types.remove (.unsolved id .type) w.store.pickType)) :
    Steps added w { w₁ with store := w₁.store.left frame rest } ∧
      Later w₁ { w₁ with store := w₁.store.left frame rest } ∧
      (w₁.store.left frame rest).stack = w.store.stack ∧
      motive (w₁.store.left frame rest).types := by
  have hshown := h.shown_sturdy hw hframes hadded
  have hlater := h.later_left hw hdrops hframes hshown
  refine ⟨⟨((w.later_pushed kind).trans h.toLater).trans hlater,
    h.kept_left hw hdrops hframes hshown, h.shown, ?_⟩, hlater, h.left_stack hframes,
    (h.types_left hframes hlater hmotive hstep).2⟩
  rw [h.left_stack hframes]
  exact .refl _ _

end Left

/-- A frame in which only kinds were found forgets no types. -/
theorem KindSteps.drop (hw : w.Kept) (h : KindSteps added (w.pushed kind) w₁)
    (hdrops : kind.tag.dropsVariables = true)
    (hframes : w₁.store.stack.frames = frame :: rest)
    (hadded : ∀ other ∈ added, Kind.Sturdy frame.unsolvedKinds w₁.store.kinds other) :
    KindSteps added w { w₁ with store := w₁.store.left frame rest } ∧
      Later w₁ { w₁ with store := w₁.store.left frame rest } ∧
      (w₁.store.left frame rest).stack = w.store.stack := by
  obtain ⟨hsteps, hlater, hstack, -⟩ := h.toSteps.drop hw hdrops hframes hadded
    (motive := fun _ => True) True.intro fun _ _ _ => True.intro
  have hnone : frame.unsolvedTypes = [] := by
    have hstill := h.still
    rw [hframes] at hstill
    exact Option.some.inj hstill
  have htypes : (w₁.store.left frame rest).types =
      Ty.closed w₁.store.types (Kind.closed w₁.store.kinds) := by
    show frame.unsolvedTypes.foldl _ _ = _
    rw [hnone]
    rfl
  refine ⟨⟨hsteps, h.nextType, ?_, ?_⟩, hlater, hstack⟩
  · dsimp only
    rw [htypes]
    exact h.reclosed.trans (.close .refl _)
  · dsimp only
    rw [hstack]

/-! ## Frames that hand variables on -/

section Handed

variable {enclosing : Frame (Located Attributes)} {outer : List (Frame (Located Attributes))}

/-- The enclosing frame with the variables of the frame that is popped. -/
def handedTo (enclosing frame : Frame (Located Attributes)) : Frame (Located Attributes) :=
  (enclosing.addKinds frame.unsolvedKinds).addTypes frame.unsolvedTypes

theorem mem_handedTo {id : Nat} : id ∈ (handedTo enclosing frame).unsolvedKinds ↔
    id ∈ enclosing.unsolvedKinds ∨ id ∈ frame.unsolvedKinds := Frame.mem_addKinds

/-- A variable lasts when its frame hands it on. -/
theorem lasting_handed {s : Store} (hframes : s.stack.frames = frame :: enclosing :: outer)
    {id : Nat} (h : s.stack.Lasting id) :
    (s.handed frame (enclosing :: outer)).stack.Lasting id := by
  have hlast : ∀ {own : Frame (Located Attributes)}, own = enclosing ∨ own = frame →
      id ∈ own.unsolvedKinds → Stack.Firm (enclosing :: outer) →
      (s.handed frame (enclosing :: outer)).stack.Lasting id := by
    intro own howns hid hfirm
    refine ⟨handedTo enclosing frame, outer, List.suffix_refl _, fun other hother => ?_,
      mem_handedTo.2 ?_⟩
    · rcases List.mem_cons.1 hother with rfl | hother
      · exact hfirm enclosing List.mem_cons_self
      · exact hfirm other (List.mem_cons_of_mem _ hother)
    · rcases howns with rfl | rfl
      · exact .inl hid
      · exact .inr hid
  obtain ⟨own, below, hsuffix, hfirm, hid⟩ := h
  rw [hframes] at hsuffix
  rcases List.suffix_cons_iff.1 hsuffix with heq | hsuffix
  · cases heq
    exact hlast (.inr rfl) hid fun other hother => hfirm other (List.mem_cons_of_mem _ hother)
  rcases List.suffix_cons_iff.1 hsuffix with heq | hsuffix
  · cases heq
    exact hlast (.inl rfl) hid hfirm
  · exact ⟨own, below, hsuffix.trans (List.suffix_cons _ _), hfirm, hid⟩

/-- The enclosing frame binds what it bound before. -/
theorem every_handed {good : ScopeTag → Located Attributes → Prop} {s : Store}
    (hframes : s.stack.frames = frame :: enclosing :: outer) (h : s.stack.Every good) :
    (s.handed frame (enclosing :: outer)).stack.Every good := by
  refine ⟨fun other hother => ?_, h.builtIns⟩
  rcases List.mem_cons.1 hother with rfl | hother
  · intro slot item hitem
    refine h.frames enclosing (by simp [hframes]) slot item ?_
    cases slot <;> exact hitem
  · exact h.frames other (by simp [hframes, hother])

/-- The variables of the frame that is popped are registered with the enclosing one. -/
theorem registered_handed {s : Store} {created : Nat}
    (hframes : s.stack.frames = frame :: enclosing :: outer)
    (h : ∀ own ∈ s.stack.frames, ∀ id ∈ own.unsolvedKinds, id < created) :
    ∀ own ∈ (s.handed frame (enclosing :: outer)).stack.frames,
      ∀ id ∈ own.unsolvedKinds, id < created := by
  rw [hframes] at h
  intro own hown id hid
  rcases List.mem_cons.1 hown with rfl | hown
  · rcases mem_handedTo.1 hid with hid | hid
    · exact h enclosing (by simp) id hid
    · exact h frame (by simp) id hid
  · exact h own (by simp [hown]) id hid

/-- What was known inside of the frame is known once it is popped. -/
theorem later_handed (hframes : w₁.store.stack.frames = frame :: enclosing :: outer) :
    Later w₁ { w₁ with store := w₁.store.handed frame (enclosing :: outer) } :=
  later_of_same (fun _ => rfl) (lasting_handed hframes) (Nat.le_refl _) (Nat.le_refl _)

theorem Kept.handed (h : w₁.Kept)
    (hframes : w₁.store.stack.frames = frame :: enclosing :: outer) :
    (World.mk w₁.params w₁.shown (w₁.store.handed frame (enclosing :: outer))).Kept where
  kinds := h.kinds
  parted := h.parted
  shown := h.shown
  params id hid := lasting_handed hframes (h.params id hid)
  stands id hid := lasting_handed hframes (h.stands id hid)
  types := h.types.mono fun _ htype => (later_handed hframes).fits htype
  stack := every_handed hframes ((later_handed hframes).stack h.stack)
  registered := registered_handed hframes h.registered
  nonempty := List.cons_ne_nil _ _

end Handed

/-- A frame that hands its variables on. -/
theorem Steps.handOn (hw : w.Kept) (h : Steps added (w.pushed kind) w₁)
    (hframes : w₁.store.stack.frames = frame :: rest) :
    Steps added w { w₁ with store := w₁.store.handed frame rest } ∧
      Later w₁ { w₁ with store := w₁.store.handed frame rest } := by
  obtain ⟨rfl, hbuiltIns, -, hfresh⟩ := h.pushed_frames hframes
  cases hfound : w.store.stack.frames with
  | nil => exact (hw.nonempty hfound).elim
  | cons enclosing outer =>
  rw [hfound] at hframes
  have hlater := later_handed hframes
  refine ⟨⟨((w.later_pushed kind).trans h.toLater).trans hlater, h.kept.handed hframes, h.shown,
    ⟨hbuiltIns, ?_, fun other hother id hid => ?_⟩, fun other hother => ?_⟩, hlater⟩
  · rw [hfound]
    rfl
  · cases hother
    rw [hfound]
    exact (mem_handedTo.1 hid).imp (fun hid => ⟨enclosing, rfl, hid⟩) fun hid => hfresh id hid
  · rw [hfound] at hother
    cases hother
    exact ⟨_, rfl, rfl, fun id hid => mem_handedTo.2 (.inl hid)⟩

end World

end PolyFront
