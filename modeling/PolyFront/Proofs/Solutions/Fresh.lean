import PolyFront.Proofs.Solutions.Store

/-!
# Frames and fresh variables

A fresh variable is in no class until it is created, so that it stands for itself, and no kind or
type that mentions it can have been solved before.  Frames come and go without touching any
solution but those of the variables that they drop.
-/

namespace PolyFront

namespace Store

variable {s s' s'' : Store}

/-! ## Variables that were not created yet -/

theorem Sound.kind_absent (h : s.Sound) {kind : Kind} {id : Nat} (hmem : id ∈ kind.unknowns)
    (hid : s.nextKind ≤ id) : s.kinds.classOf? kind = none := by
  refine Partition.classOf?_eq_none_iff.2 fun c hc hhas => ?_
  obtain ⟨m, hm, heq⟩ := Class.has_iff.1 hhas
  obtain rfl := eq_of_beq heq
  have hproper := (h.kinds.sound.good c hc).1 kind hm id hmem
  omega

theorem Sound.kind_final (h : s.Sound) {id : Nat} (hid : s.nextKind ≤ id) :
    s.kinds.Final (.unsolved id) := by
  have habsent : s.kinds.classOf? (.unsolved id) = none := h.kind_absent (by simp) hid
  rw [Kind.final_iff, Partition.find_of_absent habsent]

theorem Sound.type_absent (h : s.Sound) {type : Ty} {id : Nat} {kind : Kind}
    (hmem : (id, kind) ∈ type.mentions) (hid : s.nextType ≤ id) :
    s.types.classOf? type = none := by
  refine Partition.classOf?_eq_none_iff.2 fun c hc hhas => ?_
  obtain ⟨m, hm, heq⟩ := Class.has_iff.1 hhas
  obtain ⟨kind', hmem'⟩ := (Ty.mem_mentions_of_beq heq).1 ⟨kind, hmem⟩
  have hproper := ((h.types.sound.good c hc).1 m hm).lt hmem'
  omega

theorem Sound.type_final (h : s.Sound) {id : Nat} (hid : s.nextType ≤ id) :
    Ty.IsFinal s.types id := by
  have hmem : (id, Kind.type) ∈ (Ty.unsolved id .type).mentions := by simp [Ty.mentions]
  have habsent : s.types.classOf? (.unsolved id .type) = none := h.type_absent hmem hid
  rw [Ty.IsFinal, Partition.Final, Partition.find_of_absent habsent]
  exact BEq.refl _

/-! ## Creating variables -/

/-- Nothing but variables was created. -/
structure Grows (s s' : Store) : Prop where
  sound : s'.Sound
  kinds : s.nextKind ≤ s'.nextKind
  types : s.nextType ≤ s'.nextType
  findKind : ∀ kind, s'.kinds.find kind = s.kinds.find kind
  classOfKind : ∀ kind, Kind.shape.unknown kind = false →
    s'.kinds.classOf? kind = s.kinds.classOf? kind
  findType : ∀ type, (s'.types.find type == s.types.find type) = true
  classOfType : ∀ type, Ty.shape.unknown type = false →
    s'.types.classOf? type = s.types.classOf? type

theorem Sound.grows_of_eq (h : s.Sound) (hkinds : s'.kinds = s.kinds)
    (htypes : s'.types = s.types) (hnextKind : s'.nextKind = s.nextKind)
    (hnextType : s'.nextType = s.nextType) : Grows s s' where
  sound := (h.settles_of_eq hkinds htypes hnextKind hnextType).sound
  kinds := Nat.le_of_eq hnextKind.symm
  types := Nat.le_of_eq hnextType.symm
  findKind _ := by rw [hkinds]
  classOfKind _ _ := by rw [hkinds]
  findType _ := by
    rw [htypes]
    exact BEq.refl _
  classOfType _ _ := by rw [htypes]

theorem Grows.trans (h : Grows s s') (h' : Grows s' s'') : Grows s s'' where
  sound := h'.sound
  kinds := Nat.le_trans h.kinds h'.kinds
  types := Nat.le_trans h.types h'.types
  findKind kind := (h'.findKind kind).trans (h.findKind kind)
  classOfKind kind hkind := (h'.classOfKind kind hkind).trans (h.classOfKind kind hkind)
  findType type := BEq.trans (h'.findType type) (h.findType type)
  classOfType type htype := (h'.classOfType type htype).trans (h.classOfType type htype)

theorem Grows.settles (h : Grows s s') : Settles s s' where
  sound := h.sound
  kinds := h.kinds
  types := h.types
  spares id _ _ := by
    refine Ty.spares_of_within (fun hfinal => BEq.trans (h.findType _) hfinal) ?_
    intro _ inner outer hwithin
    exact .inl (.step (Ty.within_of_find_beq (h.findType _) hwithin) (.refl inner))

theorem Grows.finalKind (h : Grows s s') {kind : Kind} (hfinal : s.kinds.Final kind) :
    s'.kinds.Final kind := by
  rw [Partition.Final, h.findKind]
  exact hfinal

theorem Grows.finalType (h : Grows s s') {id : Nat} (hfinal : Ty.IsFinal s.types id) :
    Ty.IsFinal s'.types id :=
  BEq.trans (h.findType _) hfinal

/-- A kind that mentions a variable created since has no class. -/
theorem Grows.kind_absent (h : Grows s s') (hs : s.Sound) {kind : Kind}
    (hsolved : Kind.shape.unknown kind = false) {id : Nat} (hmem : id ∈ kind.unknowns)
    (hid : s.nextKind ≤ id) : s'.kinds.classOf? kind = none := by
  rw [h.classOfKind kind hsolved]
  exact hs.kind_absent hmem hid

/-- A type that mentions a variable created since has no class. -/
theorem Grows.type_absent (h : Grows s s') (hs : s.Sound) {type : Ty}
    (hsolved : Ty.shape.unknown type = false) {id : Nat} {kind : Kind}
    (hmem : (id, kind) ∈ type.mentions) (hid : s.nextType ≤ id) :
    s'.types.classOf? type = none := by
  rw [h.classOfType type hsolved]
  exact hs.type_absent hmem hid

theorem Sound.addKind (h : s.Sound) (stack : Stack (Located Attributes)) :
    Grows s { s with
      stack := stack
      kinds := s.kinds.add (.unsolved s.nextKind)
      nextKind := s.nextKind + 1 } where
  sound := by
    refine ⟨(h.kinds.mono (Nat.le_succ _)).add ?_, h.types.mono (Nat.le_succ _) (Nat.le_refl _)⟩
    exact Kind.proper_unsolved.2 (Nat.lt_succ_self _)
  kinds := Nat.le_succ _
  types := Nat.le_refl _
  findKind kind := eq_of_beq (Partition.find_add_beq s.kinds _ kind)
  classOfKind kind hkind := by
    have hne : (kind == .unsolved s.nextKind) = false := by
      rw [← Bool.not_eq_true]
      intro heq
      rw [Kind.shape.unknown_congr heq] at hkind
      cases hkind
    dsimp only
    rw [Partition.classOf?_add, hne]
    exact Option.or_none
  findType type := BEq.refl _
  classOfType type _ := rfl

theorem Sound.addType (h : s.Sound) (stack : Stack (Located Attributes)) {kind : Kind}
    (hkind : kind.Proper s.nextKind) :
    Grows s { s with
      stack := stack
      types := s.types.add (.unsolved s.nextType kind)
      nextType := s.nextType + 1 } where
  sound := by
    refine ⟨h.kinds, (h.types.mono (Nat.le_refl _) (Nat.le_succ _)).add ?_⟩
    exact Ty.proper_unsolved.2 ⟨Nat.lt_succ_self _, hkind⟩
  kinds := Nat.le_refl _
  types := Nat.le_succ _
  findKind kind := rfl
  classOfKind kind _ := rfl
  findType type := Partition.find_add_beq s.types _ type
  classOfType type htype := by
    have hne : (type == .unsolved s.nextType kind) = false := by
      rw [← Bool.not_eq_true]
      intro heq
      rw [Ty.shape.unknown_congr heq] at htype
      cases htype
    dsimp only
    rw [Partition.classOf?_add, hne]
    exact Option.or_none

end Store

namespace Solve

open Run Store

variable {s : Store}

/-- Work on the frames leaves the solutions alone. -/
theorem onStack_ends {α : Type} {run : Run (Stack (Located Attributes)) α} {post : α → Store → Prop}
    (h : ∀ a stack, post a { s with stack := stack }) : Ends (onStack run) s post :=
  Ends.within fun a stack _ => h a stack

theorem freshKind_ends (hs : s.Sound) :
    Ends freshKind s fun kind s' =>
      Grows s s' ∧ kind = .unsolved s.nextKind ∧ s'.nextKind = s.nextKind + 1 := by
  refine Ends.bind (Ends.get ?_)
  refine Ends.bind (Ends.modify ?_)
  refine Ends.bind (Ends.bind (Ends.modify ?_))
  refine onStack_ends fun _ stack => Ends.pure ?_
  exact ⟨hs.addKind stack, rfl, rfl⟩

theorem freshVariable_ends (hs : s.Sound) {kind : Kind} (hkind : kind.Proper s.nextKind) :
    Ends (freshVariable kind) s fun hole s' =>
      Grows s s' ∧ hole = (s.nextType, kind) ∧ s'.nextType = s.nextType + 1 := by
  refine Ends.bind (Ends.get ?_)
  refine Ends.bind (Ends.modify ?_)
  refine Ends.bind (Ends.bind (Ends.modify ?_))
  refine onStack_ends fun _ stack => Ends.pure ?_
  exact ⟨hs.addType stack hkind, rfl, rfl⟩

theorem popScope_ends (hs : s.Sound) (tag : ScopeTag) :
    Ends (popScope tag) s fun _ s' => Settles s s' := by
  unfold popScope
  split
  · refine Ends.bind (Ends.modify ?_)
    refine Ends.bind (onStack_ends fun frame stack => ?_)
    refine Ends.bind (Ends.modify (Ends.pure ?_))
    have hclosed := hs.closeSolutions
    have hpopped : Settles s { s.closeSolutions with stack := stack } :=
      hclosed.trans (hclosed.sound.settles_of_eq rfl rfl rfl rfl)
    exact hpopped.trans (hpopped.sound.forget frame)
  · refine Ends.bind (onStack_ends fun frame stack => ?_)
    refine Ends.bind (Ends.modify (Ends.pure ?_))
    unfold Store.handOn
    split
    · exact hs.settles_of_eq rfl rfl rfl rfl
    · exact hs.settles_of_eq rfl rfl rfl rfl

/-- The work done inside of a frame is all that a scope does. -/
theorem withScope_ends {α : Type} {kind : ScopeKind} {body : Solve α} {touched : Nat → Prop}
    (h : Ends body { s with stack := s.stack.push (Frame.empty kind) } fun _ s' =>
      Evolves touched s s') :
    Ends (withScope kind body) s fun _ s' => Evolves touched s s' := by
  refine Ends.bind (Ends.modify ?_)
  refine Ends.bind (h.mono fun _ s' hbody => ?_)
  refine Ends.bind ((popScope_ends hbody.sound kind.tag).mono fun _ s'' hpop => ?_)
  exact Ends.pure (hbody.settles hpop)

end Solve

end PolyFront
