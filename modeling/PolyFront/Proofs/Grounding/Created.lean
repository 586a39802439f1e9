import PolyFront.Proofs.Grounding.Scopes

/-!
# Bindings and fresh variables

Binding a name and creating a variable change the innermost frame only.  A fresh kind may be that of
a type parameter when no frame on the stack forgets its variables.
-/

namespace PolyFront

open Run

namespace Store

variable (s : Store) (frame : Frame (Located Attributes)) (rest : List (Frame (Located Attributes)))

/-- The store with a fresh kind that the innermost frame registers. -/
def newKind : Store :=
  { s with
    stack := { s.stack with frames := frame.addKinds [s.nextKind] :: rest }
    kinds := s.kinds.add (.unsolved s.nextKind)
    nextKind := s.nextKind + 1 }

/-- The store with a fresh type that the innermost frame registers. -/
def newType (kind : Kind) : Store :=
  { s with
    stack := { s.stack with frames := frame.addTypes [s.nextType] :: rest }
    types := s.types.add (.unsolved s.nextType kind)
    nextType := s.nextType + 1 }

end Store

namespace World

variable {w : World} {frame frame' : Frame (Located Attributes)}
  {rest : List (Frame (Located Attributes))}

theorem extends_top {created : Nat} {stack : Stack (Located Attributes)}
    (hframes : stack.frames = frame :: rest) (htag : frame'.tag = frame.tag)
    (hsub : frame.unsolvedKinds ⊆ frame'.unsolvedKinds)
    (hfresh : ∀ id ∈ frame'.unsolvedKinds, id ∈ frame.unsolvedKinds ∨ created ≤ id) :
    Stack.Extends created stack { stack with frames := frame' :: rest } := by
  refine ⟨⟨rfl, by rw [hframes]; rfl, fun other hother id hid => ?_⟩, fun other hother => ?_⟩
  · cases hother
    rw [hframes]
    exact (hfresh id hid).imp_left fun hid => ⟨frame, rfl, hid⟩
  · rw [hframes] at hother
    cases hother
    exact ⟨frame', rfl, htag, hsub⟩

/-- The innermost frame binds another name. -/
theorem Kept.put (h : w.Kept) (hframes : w.store.stack.frames = frame :: rest)
    {item : Located Attributes} (hitem : w.Bound frame.tag item) (slot : Slot) :
    KindSteps [] w { w with store := { w.store with
      stack := { w.store.stack with frames := frame.put item slot :: rest } } } := by
  have htag : (frame.put item slot).tag = frame.tag := by cases slot <;> rfl
  have hkinds : (frame.put item slot).unsolvedKinds = frame.unsolvedKinds := by cases slot <;> rfl
  have htypes : (frame.put item slot).unsolvedTypes = frame.unsolvedTypes := by cases slot <;> rfl
  have hext : Stack.Extends w.store.nextKind w.store.stack
      { w.store.stack with frames := frame.put item slot :: rest } :=
    extends_top hframes htag (hkinds ▸ List.Subset.refl _) fun id hid => .inl (hkinds ▸ hid)
  have hlater : Later w { w with store := { w.store with
      stack := { w.store.stack with frames := frame.put item slot :: rest } } } :=
    later_of_same (fun _ => rfl) (fun hid => hid.extends hext) (Nat.le_refl _) (Nat.le_refl _)
  have hold := hlater.stack h.stack
  have hregistered := h.registered
  have hframe := hold.frames
  rw [hframes] at hregistered hframe
  refine ⟨⟨hlater, ?_, (List.append_nil _).symm, hext⟩, rfl, .refl, by rw [hframes]; simp [htypes]⟩
  refine ⟨h.kinds, h.parted, h.shown, fun id hid => (h.params id hid).extends hext,
    fun id hid => (h.stands id hid).extends hext, h.types.mono fun _ htype => hlater.fits htype,
    ⟨fun other hother => ?_, hold.builtIns⟩, fun other hother id hid => ?_, List.cons_ne_nil _ _⟩
  · rcases List.mem_cons.1 hother with rfl | hother
    · rw [htag]
      exact (hframe frame List.mem_cons_self).put (hlater.bound hitem) slot
    · exact hframe other (List.mem_cons_of_mem _ hother)
  · rcases List.mem_cons.1 hother with rfl | hother
    · exact hregistered frame List.mem_cons_self id (hkinds ▸ hid)
    · exact hregistered other (List.mem_cons_of_mem _ hother) id hid

/-! ## Fresh kinds -/

section Kinds

variable (h : w.Kept) (hframes : w.store.stack.frames = frame :: rest)

include h in
theorem Kept.final_of_le {id : Nat} (hid : w.store.nextKind ≤ id) :
    w.store.kinds.Final (.unsolved id) := by
  refine Kind.final_iff.2 (Partition.find_of_absent (Partition.classOf?_eq_none_iff.2 ?_))
  intro c hc hhas
  obtain ⟨kind, hkind, heq⟩ := Class.has_iff.1 hhas
  obtain rfl := eq_of_beq heq
  have hlt := (h.kinds.sound.good c hc).1 _ hkind id (by simp)
  exact Nat.not_lt.2 hid hlt

include hframes in
theorem every_top {good : ScopeTag → Located Attributes → Prop}
    (hevery : w.store.stack.Every good) (htag : frame'.tag = frame.tag)
    (hslots : ∀ slot, frame'.slot? slot = frame.slot? slot) :
    Stack.Every good { w.store.stack with frames := frame' :: rest } := by
  have hold := hevery.frames
  rw [hframes] at hold
  refine ⟨fun other hother => ?_, hevery.builtIns⟩
  rcases List.mem_cons.1 hother with rfl | hother
  · intro slot item hitem
    rw [hslots] at hitem
    rw [htag]
    exact hold frame List.mem_cons_self slot item hitem
  · exact hold other (List.mem_cons_of_mem _ hother)

include h in
theorem Kept.substitute_newKind (kind : Kind) :
    kind.substitute (w.store.newKind frame rest).kinds = kind.substitute w.store.kinds :=
  Kind.substitute_add (h.kinds.mono (Nat.le_succ _)) (Nat.lt_succ_self _) kind

include hframes in
theorem extends_newKind : Stack.Extends w.store.nextKind w.store.stack
    (w.store.newKind frame rest).stack :=
  extends_top hframes rfl (fun _ hid => Frame.mem_addKinds.2 (.inl hid)) fun _ hid =>
    (Frame.mem_addKinds.1 hid).imp_right fun hid => Nat.le_of_eq (List.mem_singleton.1 hid).symm

include h hframes in
theorem Kept.addKind : KindSteps [] w { w with store := w.store.newKind frame rest } := by
  have hext := extends_newKind hframes
  have hlater : Later w { w with store := w.store.newKind frame rest } :=
    later_of_same h.substitute_newKind (fun hid => hid.extends hext) (Nat.le_succ _)
      (Nat.le_refl _)
  have hacyclic := (h.kinds.mono (Nat.le_succ _)).add (Kind.proper_unsolved.2 (Nat.lt_succ_self _))
  have hregistered := h.registered
  rw [hframes] at hregistered
  refine ⟨⟨hlater, ?_, (List.append_nil _).symm, hext⟩, rfl, .refl, by rw [hframes]; rfl⟩
  refine ⟨hacyclic, h.parted.add (h.kinds.mono (Nat.le_succ _)) (Nat.lt_succ_self _),
    fun kind hkind => (h.shown kind hkind).mono (Nat.le_succ _),
    fun id hid => (h.params id hid).extends hext, fun id hid => ?_,
    h.types.mono fun _ htype => hlater.fits htype,
    every_top hframes (hlater.stack h.stack) rfl fun slot => by cases slot <;> rfl,
    fun other hother id hid => ?_, List.cons_ne_nil _ _⟩
  · obtain ⟨param, hparam, heq⟩ := hid
    exact (h.stands id ⟨param, hparam, (h.substitute_newKind _).symm.trans heq⟩).extends hext
  · rcases List.mem_cons.1 hother with rfl | hother
    · rcases Frame.mem_addKinds.1 hid with hid | hid
      · exact Nat.lt_succ_of_lt (hregistered frame List.mem_cons_self id hid)
      · rw [List.mem_singleton.1 hid]
        exact Nat.lt_succ_self _
    · exact Nat.lt_succ_of_lt (hregistered other (List.mem_cons_of_mem _ hother) id hid)

/-- The world in which a fresh kind is that of a type parameter. -/
def withParam (w : World) (frame : Frame (Located Attributes))
    (rest : List (Frame (Located Attributes))) : World where
  params id := w.params id ∨ id = w.store.nextKind
  shown := w.shown
  store := w.store.newKind frame rest

include h in
/-- What a parameter stands for is the fresh kind, or it was stood for before. -/
theorem Kept.stands_withParam {v : Nat} (hv : Kind.Stands (w.withParam frame rest).params
    (w.withParam frame rest).store.kinds v) :
    v = w.store.nextKind ∨ Kind.Stands w.params (w.store.newKind frame rest).kinds v := by
  obtain ⟨param, hparam | rfl, heq⟩ := hv
  · exact .inr ⟨param, hparam, heq⟩
  · have hself := (Kind.final_iff_substitute h.wellFounded).1 (h.final_of_le (Nat.le_refl _))
    rw [withParam, h.substitute_newKind, hself, Kind.unsolved.injEq] at heq
    exact .inl heq.symm

include h in
/-- Kinds that were created before do not mention the fresh one. -/
theorem Kept.not_mem_newKind {kind : Kind} (hkind : kind.Proper w.store.nextKind) :
    w.store.nextKind ∉ (kind.substitute (w.store.newKind frame rest).kinds).unknowns := by
  intro hmem
  rw [h.substitute_newKind] at hmem
  exact Nat.lt_irrefl _ (h.kinds.substitute_proper hkind _ hmem)

include h in
/-- A kind is as free as before if it does not mention the fresh one. -/
theorem Kept.free_withParam {kind : Kind} (hnot : w.store.nextKind ∉
      (kind.substitute (w.store.newKind frame rest).kinds).unknowns)
    (hkind : Kind.Free w.params w.shown (w.store.newKind frame rest).kinds kind) :
    (w.withParam frame rest).Free kind := by
  intro v hv hstands
  refine hkind v hv ((h.stands_withParam hstands).resolve_left ?_)
  rintro rfl
  exact hnot hv

theorem lasting_param (hfirm : Stack.Firm (frame :: rest)) :
    (w.withParam frame rest).store.stack.Lasting w.store.nextKind := by
  refine ⟨_, rest, List.suffix_refl _, fun other hother => ?_,
    Frame.mem_addKinds.2 (.inr (List.mem_singleton.2 rfl))⟩
  rcases List.mem_cons.1 hother with rfl | hother
  · exact hfirm frame List.mem_cons_self
  · exact hfirm other (List.mem_cons_of_mem _ hother)

include h hframes in
theorem Kept.later_withParam : Later w (w.withParam frame rest) := by
  have hadded := h.addKind hframes
  refine ⟨Nat.le_succ _, Nat.le_refl _, fun hproper hkind => ?_, fun hlive => ?_⟩
  · exact h.free_withParam (h.not_mem_newKind hproper) (hadded.free hproper hkind)
  · have hlive' := hadded.live hlive
    refine ⟨hlive'.proper, ?_, hlive'.lasting⟩
    rcases hlive'.live with ⟨v, heq, param, hparam, hstand⟩ | ⟨hsolid, hkind⟩
    · exact .inl ⟨v, heq, param, .inl hparam, hstand⟩
    · exact .inr ⟨hsolid, h.free_withParam (h.not_mem_newKind hlive.proper) hkind⟩

include h hframes in
/-- No solution and no other variable mentions the fresh kind. -/
theorem Kept.parted_withParam : Kind.Parted (w.withParam frame rest).params w.shown
    (w.withParam frame rest).store.kinds := by
  have hparted := (h.addKind hframes).kept.parted
  refine ⟨fun c hc hsolid => ?_, fun id hid => ?_⟩
  · refine h.free_withParam ?_ (hparted.classes c hc hsolid)
    rcases Partition.mem_classes_add hc with hc | rfl
    · exact h.not_mem_newKind (h.kinds.sound.good c hc).2
    · cases hsolid
  · obtain ⟨hother, hne⟩ := not_or.1 hid
    refine h.free_withParam ?_ (hparted.others id hother)
    by_cases hlt : id < w.store.nextKind
    · exact h.not_mem_newKind (Kind.proper_unsolved.2 hlt)
    · have hfinal := h.final_of_le (Nat.le_of_not_lt hlt)
      rw [h.substitute_newKind, (Kind.final_iff_substitute h.wellFounded).1 hfinal]
      simpa using fun heq : w.store.nextKind = id => hne heq.symm

include h hframes in
/-- A fresh kind becomes that of a type parameter. -/
theorem Kept.addParam (hfirm : Stack.Firm (frame :: rest)) :
    Steps [] w (w.withParam frame rest) := by
  have hadded := h.addKind hframes
  have hlater := h.later_withParam hframes
  refine ⟨hlater, ?_, (List.append_nil _).symm, hadded.stack⟩
  refine ⟨hadded.kept.kinds, h.parted_withParam hframes, hadded.kept.shown, fun id hid => ?_,
    fun id hid => ?_, h.types.mono fun _ htype => hlater.fits htype, ?_,
    hadded.kept.registered, hadded.kept.nonempty⟩
  · rcases hid with hid | rfl
    · exact hadded.kept.params id hid
    · exact lasting_param hfirm
  · rcases h.stands_withParam hid with rfl | hid
    · exact lasting_param hfirm
    · exact hadded.kept.stands id hid
  · exact every_top hframes (hlater.stack h.stack) rfl fun slot => by cases slot <;> rfl

end Kinds

/-! ## Fresh types -/

section Types

variable {kind : Kind} (h : w.Kept) (hframes : w.store.stack.frames = frame :: rest)
  (hkind : w.Live kind)

include h in
/-- A variable that was not created yet is in no class. -/
theorem Kept.absent_of_le {id : Nat} (hid : w.store.nextType ≤ id) :
    w.store.types.classOf? (.unsolved id .type) = none := by
  refine Partition.classOf?_eq_none_iff.2 fun c hc hhas => ?_
  obtain ⟨type, htype, heq⟩ := Class.has_iff.1 hhas
  obtain ⟨own, hmem⟩ := (Ty.mem_mentions_of_beq heq).1
    ⟨.type, by rw [Ty.mentions]; exact List.mem_singleton.2 rfl⟩
  exact Nat.not_lt.2 hid (((h.types.sound.good c hc).1 type htype).lt hmem)

include h hframes hkind in
theorem Kept.addType : Steps [] w { w with store := w.store.newType frame rest kind } := by
  have hext : Stack.Extends w.store.nextKind w.store.stack
      (w.store.newType frame rest kind).stack :=
    extends_top hframes rfl (List.Subset.refl _) fun _ hid => .inl hid
  have hlater : Later w { w with store := w.store.newType frame rest kind } :=
    later_of_same (fun _ => rfl) (fun hid => hid.extends hext) (Nat.le_refl _) (Nat.le_succ _)
  have hregistered := h.registered
  rw [hframes] at hregistered
  refine ⟨hlater, ?_, (List.append_nil _).symm, hext⟩
  refine ⟨h.kinds, h.parted, h.shown, fun id hid => (h.params id hid).extends hext,
    fun id hid => (h.stands id hid).extends hext,
    (h.types.mono fun _ htype => hlater.fits htype).add
      (Ty.fits_unsolved.2 ⟨Nat.lt_succ_self _, hlater.live hkind⟩),
    every_top hframes (hlater.stack h.stack) rfl fun slot => by cases slot <;> rfl,
    fun other hother id hid => ?_, List.cons_ne_nil _ _⟩
  rcases List.mem_cons.1 hother with rfl | hother
  · exact hregistered frame List.mem_cons_self id hid
  · exact hregistered other (List.mem_cons_of_mem _ hother) id hid

end Types

end World

end PolyFront
