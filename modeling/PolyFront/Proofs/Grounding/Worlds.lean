import PolyFront.Checking.Store
import PolyFront.Proofs.Grounding.Fits
import PolyFront.Proofs.Grounding.Solved
import PolyFront.Proofs.Naming.Slots

/-!
# What is known while checking

A store is seen together with the kinds of type parameters that may still be unknown and with the
kinds that a written type has shown so far.  The kinds in types are live: a variable that a
parameter stands for, or a kind that is none and mentions no such variable.  What is known later
keeps kinds live, so that a type which fitted once fits from then on.
-/

namespace PolyFront

/-! ## What frames bind -/

/-- All bindings of the frame are good. -/
def Frame.Every {α : Type} (good : α → Prop) (frame : Frame α) : Prop :=
  ∀ slot item, frame.slot? slot = some item → good item

/-- All bindings of the stack are good for the construct whose frame they are in. -/
structure Stack.Every {α : Type} (good : ScopeTag → α → Prop) (stack : Stack α) : Prop where
  frames : ∀ frame ∈ stack.frames, frame.Every (good frame.tag)
  builtIns : ∀ frame, stack.builtIns = some frame → frame.Every (good .builtIn)

section Every

variable {α : Type} {good good' : α → Prop}

theorem Frame.Every.empty (kind : ScopeKind) : (Frame.empty kind : Frame α).Every good := by
  intro slot item h
  rw [Frame.slot?_empty] at h
  cases h

theorem Frame.Every.mono {frame : Frame α} (h : frame.Every good) (himp : ∀ a, good a → good' a) :
    frame.Every good' :=
  fun slot item hitem => himp item (h slot item hitem)

theorem Frame.Every.put {frame : Frame α} (h : frame.Every good) {item : α} (hitem : good item)
    (slot : Slot) : (frame.put item slot).Every good := by
  intro other found hfound
  rw [Frame.slot?_put] at hfound
  split at hfound
  · obtain rfl := Option.some.inj hfound
    exact hitem
  · exact h other found hfound

theorem Stack.Every.mono {good good' : ScopeTag → α → Prop} {stack : Stack α}
    (h : stack.Every good) (himp : ∀ tag a, good tag a → good' tag a) : stack.Every good' :=
  ⟨fun frame hframe => (h.frames frame hframe).mono (himp _),
    fun frame hframe => (h.builtIns frame hframe).mono (himp _)⟩

/-- What is found is good for the construct in whose frame it is found. -/
theorem Stack.Every.lookup {good : ScopeTag → α → Prop} {stack : Stack α} (h : stack.Every good)
    (slot : Slot) {item : α}
    (hfound : stack.lookup (fun frame => frame.slot? slot) = some item) :
    ∃ tag, good tag item ∧ (tag = .builtIn ∨ ∃ frame ∈ stack.frames, frame.tag = tag) := by
  rcases Option.or_eq_some_iff.1 hfound with hframe | ⟨-, hbuiltIn⟩
  · obtain ⟨frame, hmem, hframe⟩ := List.exists_of_findSome?_eq_some hframe
    exact ⟨frame.tag, h.frames frame hmem slot item hframe, .inr ⟨frame, hmem, rfl⟩⟩
  · obtain ⟨frame, hframe, hitem⟩ := Option.bind_eq_some_iff.1 hbuiltIn
    exact ⟨.builtIn, h.builtIns frame hframe slot item hitem, .inl rfl⟩

end Every

/-! ## Variables that last -/

namespace Stack

variable {α : Type} {stack stack' : Stack α} {created : Nat}

/-- No frame forgets its variables. -/
def Firm (frames : List (Frame α)) : Prop :=
  ∀ frame ∈ frames, frame.tag.dropsVariables = false

/-- The variable is registered outside of all frames that forget their variables. -/
def Lasting (stack : Stack α) (id : Nat) : Prop :=
  ∃ frame outer, frame :: outer <:+ stack.frames ∧ Firm (frame :: outer) ∧ id ∈ frame.unsolvedKinds

/-- Only the innermost frame changed.  It is of the same construct, and it registered more
variables, all of them created since. -/
structure Extends (created : Nat) (stack stack' : Stack α) : Prop
    extends Registers created stack stack' where
  keeps : ∀ frame ∈ stack.frames.head?, ∃ frame' ∈ stack'.frames.head?,
    frame'.tag = frame.tag ∧ frame.unsolvedKinds ⊆ frame'.unsolvedKinds

theorem Extends.refl (created : Nat) (stack : Stack α) : Extends created stack stack :=
  ⟨.refl created stack, fun frame hframe => ⟨frame, hframe, rfl, List.Subset.refl _⟩⟩

theorem Extends.trans {created' : Nat} {stack'' : Stack α} (h : Extends created stack stack')
    (h' : Extends created' stack' stack'') (hle : created ≤ created') :
    Extends created stack stack'' := by
  refine ⟨h.toRegisters.trans h'.toRegisters hle, fun frame hframe => ?_⟩
  obtain ⟨frame', hframe', htag, hsub⟩ := h.keeps frame hframe
  obtain ⟨frame'', hframe'', htag', hsub'⟩ := h'.keeps frame' hframe'
  exact ⟨frame'', hframe'', htag'.trans htag, List.Subset.trans hsub hsub'⟩

/-- A frame stays below the frames that are its own. -/
theorem Extends.frames {frame : Frame α} {rest : List (Frame α)} (h : Extends created stack stack')
    (hframes : stack.frames = frame :: rest) : ∃ frame', stack'.frames = frame' :: rest ∧
      frame'.tag = frame.tag ∧ frame.unsolvedKinds ⊆ frame'.unsolvedKinds ∧
      ∀ id ∈ frame'.unsolvedKinds, id ∈ frame.unsolvedKinds ∨ created ≤ id := by
  obtain ⟨frame', hhead, htag, hsub⟩ := h.keeps frame (by rw [hframes]; rfl)
  have htail := h.tail
  rw [hframes, List.tail_cons] at htail
  have hframes' : stack'.frames = frame' :: rest := by
    rw [← htail]
    exact (List.cons_head?_tail hhead).symm
  refine ⟨frame', hframes', htag, hsub, fun id hid => ?_⟩
  rcases h.fresh frame' hhead id hid with ⟨old, hold, hin⟩ | hnew
  · rw [hframes, List.head?_cons, Option.mem_some_iff] at hold
    exact .inl (hold ▸ hin)
  · exact .inr hnew

theorem Lasting.push {id : Nat} (h : stack.Lasting id) (frame : Frame α) :
    (stack.push frame).Lasting id := by
  obtain ⟨own, outer, hsuffix, hfirm, hid⟩ := h
  exact ⟨own, outer, hsuffix.trans (List.suffix_cons _ _), hfirm, hid⟩

/-- What lasts where frames forget their variables lasts outside of them. -/
theorem Lasting.drop {frame : Frame α} {rest : List (Frame α)} {builtIns : Option (Frame α)}
    {id : Nat} (h : Lasting ⟨frame :: rest, builtIns⟩ id)
    (hdrops : frame.tag.dropsVariables = true) : Lasting ⟨rest, builtIns⟩ id := by
  obtain ⟨own, outer, hsuffix, hfirm, hid⟩ := h
  rcases List.suffix_cons_iff.1 hsuffix with heq | hsuffix
  · cases heq
    rw [hfirm frame List.mem_cons_self] at hdrops
    cases hdrops
  · exact ⟨own, outer, hsuffix, hfirm, hid⟩

/-- A variable lasts when its frame is replaced by one that registers it too. -/
theorem Lasting.replace {frame frame' : Frame α} {rest : List (Frame α)}
    {builtIns builtIns' : Option (Frame α)} {id : Nat}
    (h : Lasting ⟨frame :: rest, builtIns⟩ id) (htag : frame'.tag = frame.tag)
    (hsub : frame.unsolvedKinds ⊆ frame'.unsolvedKinds) :
    Lasting ⟨frame' :: rest, builtIns'⟩ id := by
  obtain ⟨own, outer, hsuffix, hfirm, hid⟩ := h
  rcases List.suffix_cons_iff.1 hsuffix with heq | hsuffix
  · cases heq
    refine ⟨frame', rest, List.suffix_refl _, fun other hother => ?_, hsub hid⟩
    rcases List.mem_cons.1 hother with rfl | hother
    · rw [htag]
      exact hfirm frame List.mem_cons_self
    · exact hfirm other (List.mem_cons_of_mem _ hother)
  · exact ⟨own, outer, hsuffix.trans (List.suffix_cons _ _), hfirm, hid⟩

theorem Lasting.of_frames {id : Nat} (h : stack.Lasting id)
    (hframes : stack'.frames = stack.frames) :
    stack'.Lasting id := by
  obtain ⟨own, outer, hsuffix, hfirm, hid⟩ := h
  exact ⟨own, outer, hframes ▸ hsuffix, hfirm, hid⟩

theorem Lasting.extends {id : Nat} (h : stack.Lasting id) (hext : Extends created stack stack') :
    stack'.Lasting id := by
  cases hframes : stack.frames with
  | nil =>
    obtain ⟨own, outer, hsuffix, -, -⟩ := h
    rw [hframes] at hsuffix
    cases List.suffix_nil.1 hsuffix
  | cons frame rest =>
    obtain ⟨frame', hframes', htag, hsub, -⟩ := hext.frames hframes
    have hold : Lasting ⟨frame :: rest, none⟩ id := h.of_frames hframes.symm
    exact (hold.replace htag hsub : Lasting ⟨frame' :: rest, none⟩ id).of_frames hframes'

/-- Variables that last are found before all others when frames are searched from the outermost. -/
theorem Lasting.of_depth_le {a b : Nat} (h : stack.Lasting b)
    (hle : stack.outermostFirst.findIdx (fun frame => frame.unsolvedKinds.contains a) ≤
      stack.outermostFirst.findIdx fun frame => frame.unsolvedKinds.contains b) :
    stack.Lasting a := by
  obtain ⟨own, outer, ⟨inner, hframes⟩, hfirm, hid⟩ := h
  have hreverse : stack.outermostFirst = (own :: outer).reverse ++ inner.reverse := by
    rw [outermostFirst, ← hframes, List.reverse_append]
  have hregistered : (own :: outer).reverse.findIdx (fun frame => frame.unsolvedKinds.contains b) <
      (own :: outer).reverse.length := List.findIdx_lt_length.2 ⟨own, by simp, by simpa using hid⟩
  rw [hreverse, List.findIdx_append, List.findIdx_append, if_pos hregistered] at hle
  have hfound : (own :: outer).reverse.findIdx (fun frame => frame.unsolvedKinds.contains a) <
      (own :: outer).reverse.length := by
    by_contra hnot
    rw [if_neg hnot] at hle
    omega
  obtain ⟨frame, hframe, ha⟩ := List.findIdx_lt_length.1 hfound
  rw [List.mem_reverse] at hframe
  obtain ⟨before, after, hsplit⟩ := List.append_of_mem hframe
  refine ⟨frame, after, ⟨inner ++ before, ?_⟩, fun other hother => hfirm other ?_,
    by simpa using ha⟩
  · rw [← hframes, hsplit, List.append_assoc]
  · rw [hsplit]
    exact List.mem_append_right _ hother

end Stack

/-- The representative of two variables lasts if one of them does. -/
theorem Stack.Lasting.pickKind {α : Type} {stack : Stack α} {a b c : Nat}
    (h : stack.Lasting a ∨ stack.Lasting b)
    (hpick : PolyFront.pickKind stack.outermostFirst (.unsolved a) (.unsolved b) = .unsolved c) :
    stack.Lasting c := by
  rw [PolyFront.pickKind] at hpick
  split at hpick
  · rename_i hcase
    cases hpick
    rcases h with h | h
    · exact h
    · refine h.of_depth_le ?_
      dsimp only at hcase
      rw [Bool.or_eq_true, decide_eq_true_eq, Bool.and_eq_true, beq_iff_eq] at hcase
      omega
  · rename_i hcase
    cases hpick
    rcases h with h | h
    · refine h.of_depth_le ?_
      dsimp only at hcase
      rw [Bool.or_eq_true, decide_eq_true_eq, Bool.and_eq_true, beq_iff_eq] at hcase
      omega
    · exact h

/-! ## Live kinds -/

namespace Kind

variable {params : Nat → Prop} {shown : List Kind} {kinds kinds' : Partition Kind} {kind : Kind}
  {created : Nat}

/-- The kind stands for a variable that a parameter stands for, or for a kind that is none and
mentions no such variable. -/
def Live (params : Nat → Prop) (shown : List Kind) (kinds : Partition Kind) (kind : Kind) : Prop :=
  (∃ v, kind.substitute kinds = .unsolved v ∧ Stands params kinds v) ∨
    shape.unknown (kind.substitute kinds) = false ∧ Free params shown kinds kind

theorem live_congr (hsame : ∀ kind : Kind, kind.substitute kinds' = kind.substitute kinds) :
    Live params shown kinds' kind ↔ Live params shown kinds kind := by
  simp only [Live, Free, Revealed, Stands, hsame]

theorem Ground.live (h : kind.Ground) : Live params shown kinds kind := by
  refine .inr ⟨?_, free_iff_forall.2 fun id hid => ?_⟩
  · rw [h.substitute]
    cases kind with
    | unsolved id => exact (not_ground_unsolved id h).elim
    | _ => rfl
  · rw [h] at hid
    exact (List.not_mem_nil hid).elim

theorem live_substitute (hkinds : WellFounded (Within kinds)) :
    Live params shown kinds (kind.substitute kinds) ↔ Live params shown kinds kind := by
  rw [Live, substitute_substitute hkinds, free_substitute hkinds, Live]

/-- A solution is as free as what it solves. -/
theorem Parted.free_of_solved (h : Parted params shown kinds) (hkinds : Acyclic created kinds)
    {id : Nat} (hsolid : shape.unknown (substitute kinds (.unsolved id)) = false) :
    Free params shown kinds (.unsolved id) := by
  have hfind := substitute_find hkinds.wellFounded id
  cases hclass : kinds.classOf? (.unsolved id) with
  | none =>
    rw [Partition.find_of_absent hclass] at hfind
    rw [(final_iff_substitute hkinds.wellFounded).1
      (final_iff.2 (Partition.find_of_absent hclass))] at hsolid
    cases hsolid
  | some c =>
    rw [Partition.find_of_classOf? hclass] at hfind
    obtain ⟨hc, -⟩ := Partition.mem_of_classOf? hclass
    have hrepresentative : shape.unknown c.representative = false := by
      rw [← Bool.not_eq_true]
      intro hunknown
      rw [← hfind, substitute_representative hkinds hc hunknown, hunknown] at hsolid
      cases hsolid
    have hfree := h.classes c hc hrepresentative
    rwa [Free, hfind] at hfree

theorem Parted.live_param (h : Parted params shown kinds) (hkinds : Acyclic created kinds)
    {id : Nat} (hid : params id) : Live params shown kinds (.unsolved id) := by
  rcases hsolid : shape.unknown (substitute kinds (.unsolved id)) with _ | _
  · exact .inr ⟨hsolid, h.free_of_solved hkinds hsolid⟩
  · obtain ⟨v, hv⟩ := unknown_iff.1 hsolid
    exact .inl ⟨v, hv, id, hid, hv⟩

/-- A live kind that is a variable is one that a parameter stands for, or it is solved. -/
theorem Live.stands (h : Live params shown kinds kind) {v : Nat}
    (hkind : kind.substitute kinds = .unsolved v) : Stands params kinds v := by
  rcases h with ⟨other, heq, hstands⟩ | ⟨hsolid, -⟩
  · rw [hkind] at heq
    cases heq
    exact hstands
  · rw [hkind] at hsolid
    cases hsolid

/-- Live kinds stay live when variables are replaced in all substitutions. -/
theorem Live.bind {f : Nat → Kind} (h : Live params shown kinds kind)
    (hkinds' : Acyclic created kinds') (hparted' : Parted params shown kinds')
    (hbind : ∀ kind : Kind, kind.substitute kinds' = (kind.substitute kinds).bind f)
    (hfree : ∀ kind, Free params shown kinds kind → Free params shown kinds' kind) :
    Live params shown kinds' kind := by
  rcases h with ⟨v, heq, param, hparam, hstands⟩ | ⟨hsolid, hkind⟩
  · have hsame : kind.substitute kinds' = substitute kinds' (.unsolved param) := by
      rw [hbind, hbind, heq, hstands]
    rcases hparted'.live_param hkinds' hparam with ⟨w, hw, hstands'⟩ | ⟨hsolid', hfree'⟩
    · exact .inl ⟨w, hsame.trans hw, hstands'⟩
    · refine .inr ⟨hsame ▸ hsolid', ?_⟩
      rwa [Free, hsame]
  · refine .inr ⟨?_, hfree kind hkind⟩
    rw [hbind]
    cases hcase : kind.substitute kinds with
    | unsolved v => rw [hcase] at hsolid; cases hsolid
    | type => rw [bind_type]; rfl
    | higher args result => rw [bind_higher]; rfl

end Kind

/-! ## Worlds -/

/-- A store, the kinds of type parameters that may be unknown, and the kinds shown so far. -/
structure World where
  params : Nat → Prop
  shown : List Kind
  store : Store

namespace World

variable {w w' w'' : World}

def Free (w : World) (kind : Kind) : Prop := Kind.Free w.params w.shown w.store.kinds kind

/-- A live kind whose variables were created. A kind that is written as a variable lasts. -/
structure Live (w : World) (kind : Kind) : Prop where
  proper : kind.Proper w.store.nextKind
  live : Kind.Live w.params w.shown w.store.kinds kind
  lasting : ∀ id, kind = .unsolved id → w.store.stack.Lasting id

/-- The kinds in the type are live, its variables were created and its binders are named. -/
def Fits (w : World) (type : Ty) : Prop := type.Fits w.Live w.store.nextType

end World

/-- A kind whose variables were created, or a type that fits. -/
def Classifier.Fits (w : World) : Classifier → Prop
  | .ofKind kind => kind.Proper w.store.nextKind
  | .ofType type => w.Fits type

namespace World

variable {w w' w'' : World}

/-- What a frame of the construct binds fits. Kinds are free, except for those of the parameters of
a function. -/
structure Bound (w : World) (tag : ScopeTag) (here : Located Attributes) : Prop where
  fits : here.info.classifier.Fits w
  free : tag ≠ .binding → ∀ kind, here.info.classifier = .ofKind kind → w.Free kind

/-- Variables were created, and kinds that were live or free are so still. -/
structure Later (w w' : World) : Prop where
  kinds : w.store.nextKind ≤ w'.store.nextKind
  types : w.store.nextType ≤ w'.store.nextType
  free : ∀ {kind}, kind.Proper w.store.nextKind → w.Free kind → w'.Free kind
  live : ∀ {kind}, w.Live kind → w'.Live kind

theorem Later.refl (w : World) : Later w w :=
  ⟨Nat.le_refl _, Nat.le_refl _, fun _ h => h, fun h => h⟩

theorem Later.trans (h : Later w w') (h' : Later w' w'') : Later w w'' where
  kinds := Nat.le_trans h.kinds h'.kinds
  types := Nat.le_trans h.types h'.types
  free hproper hfree := h'.free (hproper.mono h.kinds) (h.free hproper hfree)
  live hlive := h'.live (h.live hlive)

theorem Later.fits (h : Later w w') {type : Ty} (htype : w.Fits type) : w'.Fits type :=
  htype.mono (fun _ hkind => h.live hkind) h.types

theorem Later.classifier (h : Later w w') {classifier : Classifier} (hfits : classifier.Fits w) :
    classifier.Fits w' := by
  cases classifier with
  | ofKind kind => exact Kind.Proper.mono hfits h.kinds
  | ofType type => exact h.fits hfits

theorem Later.bound (h : Later w w') {tag : ScopeTag} {here : Located Attributes}
    (hbound : w.Bound tag here) : w'.Bound tag here where
  fits := h.classifier hbound.fits
  free htag kind heq := by
    have hproper := hbound.fits
    rw [heq] at hproper
    exact h.free hproper (hbound.free htag kind heq)

theorem Later.stack (h : Later w w') {stack : Stack (Located Attributes)}
    (hstack : stack.Every w.Bound) : stack.Every w'.Bound :=
  hstack.mono fun _ _ hbound => h.bound hbound

/-- The same kinds are live and free when the same kinds are substituted. -/
theorem later_of_same {s : Store}
    (hsame : ∀ kind : Kind, kind.substitute s.kinds = kind.substitute w.store.kinds)
    (hlasting : ∀ {id}, w.store.stack.Lasting id → s.stack.Lasting id)
    (hkinds : w.store.nextKind ≤ s.nextKind) (htypes : w.store.nextType ≤ s.nextType) :
    Later w { w with store := s } where
  kinds := hkinds
  types := htypes
  free _ hfree := (Kind.Free.congr hsame).2 hfree
  live hlive := ⟨hlive.proper.mono hkinds, (Kind.live_congr hsame).2 hlive.live,
    fun id heq => hlasting (hlive.lasting id heq)⟩

theorem live_of_ground (w : World) {kind : Kind} (h : kind.Ground) : w.Live kind where
  proper := h.proper _
  live := h.live
  lasting id heq := by
    rw [heq, Kind.Ground, Kind.unknowns_unsolved] at h
    cases h

theorem fits_of_ground (w : World) {type : Ty} {created : Nat}
    (h : type.Fits Kind.Ground created) (hle : created ≤ w.store.nextType) : w.Fits type :=
  h.mono (fun _ hkind => w.live_of_ground hkind) hle

theorem Fits.kind {type : Ty} (h : w.Fits type) : w.Live type.kind :=
  Ty.Fits.kind h fun _ => w.live_of_ground

theorem Fits.function {args : List Ty} {result : Ty} (hargs : ∀ arg ∈ args, w.Fits arg)
    (hresult : w.Fits result) : w.Fits (Ty.function args result) :=
  Ty.Fits.function hargs hresult (w.live_of_ground Kind.ground_type)

/-- The state of checking is in order. -/
structure Kept (w : World) : Prop where
  kinds : Kind.Acyclic w.store.nextKind w.store.kinds
  parted : Kind.Parted w.params w.shown w.store.kinds
  shown : ∀ kind ∈ w.shown, kind.Proper w.store.nextKind
  params : ∀ id, w.params id → w.store.stack.Lasting id
  stands : ∀ id, Kind.Stands w.params w.store.kinds id → w.store.stack.Lasting id
  types : Ty.LaidOut w.Fits w.store.types
  stack : w.store.stack.Every w.Bound
  registered : ∀ frame ∈ w.store.stack.frames, ∀ id ∈ frame.unsolvedKinds, id < w.store.nextKind
  nonempty : w.store.stack.frames ≠ []

theorem Kept.wellFounded (h : w.Kept) : WellFounded (Kind.Within w.store.kinds) :=
  h.kinds.wellFounded

theorem Kept.live_substitute (h : w.Kept) {kind : Kind} (hkind : w.Live kind) :
    w.Live (kind.substitute w.store.kinds) where
  proper := h.kinds.substitute_proper hkind.proper
  live := (Kind.live_substitute h.wellFounded).2 hkind.live
  lasting id heq := h.stands id (hkind.live.stands heq)

theorem Kept.fits_substitute (h : w.Kept) {type : Ty} (htype : w.Fits type) :
    w.Fits (type.substitute w.store.types w.store.kinds) :=
  Ty.Fits.substitute htype h.types.sound fun _ => h.live_substitute

theorem Kept.lt_of_lasting (h : w.Kept) {id : Nat} (hid : w.store.stack.Lasting id) :
    id < w.store.nextKind := by
  obtain ⟨frame, outer, hsuffix, -, hmem⟩ := hid
  exact h.registered frame (hsuffix.subset List.mem_cons_self) id hmem

theorem Kept.live_param (h : w.Kept) (id : Nat) (hid : w.params id) : w.Live (.unsolved id) where
  proper := Kind.proper_unsolved.2 (h.lt_of_lasting (h.params id hid))
  live := h.parted.live_param h.kinds hid
  lasting other heq := by
    obtain rfl := Kind.unsolved.inj heq
    exact h.params id hid

/-- One world comes to another, in which more kinds are shown. -/
structure Steps (added : List Kind) (w w' : World) : Prop extends Later w w' where
  kept : w'.Kept
  shown : w'.shown = w.shown ++ added
  stack : Stack.Extends w.store.nextKind w.store.stack w'.store.stack

theorem Kept.steps (h : w.Kept) : Steps [] w w where
  toLater := .refl w
  kept := h
  shown := (List.append_nil _).symm
  stack := .refl _ _

theorem Steps.trans {added added' : List Kind} (h : Steps added w w') (h' : Steps added' w' w'') :
    Steps (added ++ added') w w'' where
  toLater := h.toLater.trans h'.toLater
  kept := h'.kept
  shown := by rw [h'.shown, h.shown, List.append_assoc]
  stack := h.stack.trans h'.stack h.kinds

end World

end PolyFront
