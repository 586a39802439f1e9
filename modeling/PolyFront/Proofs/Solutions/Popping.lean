import PolyFront.Proofs.Solutions.Dropping
import PolyFront.Proofs.Solutions.Histories
import PolyFront.Proofs.Solutions.Masks

/-!
# Popping a frame that drops its variables

Two kinds, or two types, may be substituted to the same before a frame is popped that drops its
variables.  A variable that a dropped one represents gets another representative then, while a
solution that mentions the dropped variable goes on mentioning it.  So the two are still
substituted to the same afterwards exactly when variables of the first sort stand in the same
places in both.  A variable that no frame registers any more can be represented by a dropped
one, and then popping does undo a unification.
-/

namespace PolyFront

/-! ## Kinds -/

namespace Kind

/-- The kind mentions none of the variables. -/
def Outlives (dropped : List Nat) (kind : Kind) : Prop := ∀ id ∈ kind.unknowns, id ∉ dropped

instance (dropped : List Nat) (kind : Kind) : Decidable (kind.Outlives dropped) :=
  inferInstanceAs (Decidable (∀ id ∈ kind.unknowns, id ∉ dropped))

/-- The kind is a variable of the list. -/
def IsDropped (dropped : List Nat) (kind : Kind) : Prop := ∃ id ∈ dropped, kind = .unsolved id

/-- What is left of the substitution of a variable when dropped variables are blanked out. -/
def blanked (dropped : List Nat) : Kind → Kind
  | .unsolved id => if id ∈ dropped then .type else .unsolved id
  | solution => solution

theorem blanked_of_not_isDropped {dropped : List Nat} {kind : Kind}
    (h : ¬kind.IsDropped dropped) : blanked dropped kind = kind := by
  cases kind with
  | unsolved id =>
    rw [blanked, if_neg]
    intro hid
    exact h ⟨id, hid, rfl⟩
  | _ => rfl

theorem blanked_of_isDropped {dropped : List Nat} {kind : Kind} (h : kind.IsDropped dropped) :
    blanked dropped kind = .type := by
  obtain ⟨id, hid, rfl⟩ := h
  rw [blanked, if_pos hid]

theorem among_iff_isDropped {dropped : List Nat} {kind : Kind} :
    Partition.Among (dropped.map .unsolved) kind ↔ kind.IsDropped dropped := by
  simp only [Partition.Among, IsDropped, List.mem_map, beq_iff_eq]
  constructor
  · rintro ⟨_, ⟨id, hid, rfl⟩, rfl⟩
    exact ⟨id, hid, rfl⟩
  · rintro ⟨id, hid, rfl⟩
    exact ⟨_, ⟨id, hid, rfl⟩, rfl⟩

theorem not_among_unsolved {dropped : List Nat} {id : Nat} (hid : id ∉ dropped) :
    ¬Partition.Among (dropped.map .unsolved) (Kind.unsolved id) := by
  rw [among_iff_isDropped]
  rintro ⟨other, hother, heq⟩
  cases heq
  exact hid hother

variable {created : Nat} {kinds : Partition Kind}

theorem substitute_eq_bind (kinds : Partition Kind) (kind : Kind) :
    kind.substitute kinds = kind.bind fun id => substitute kinds (.unsolved id) := by
  simp only [substitute, bind_unsolved]

theorem substitute_closed (h : WellFounded (Within kinds)) (kind : Kind) :
    kind.substitute (closed kinds) = kind.substitute kinds := by
  rw [substitute_eq_bind, substitute_eq_bind kinds]
  refine bind_congr fun id _ => ?_
  rw [← substitute_find (wellFounded_closed h), find_closed h]
  refine substitute_of_final (wellFounded_closed h) fun other hother => ?_
  exact final_closed h (final_of_mem_substitute h hother)

section Dropping

variable {kinds' : Partition Kind} {dropped : List Nat}

/-- Once variables are dropped, a kept variable is substituted by its representative. -/
theorem substitute_dropped (h : Acyclic created kinds) (h' : Acyclic created kinds')
    (hdrops : Partition.Drops shape (dropped.map .unsolved) (closed kinds) kinds') {id : Nat}
    (hid : id ∉ dropped) : substitute kinds' (.unsolved id) = kinds'.find (.unsolved id) := by
  rw [← substitute_find h'.wellFounded]
  refine substitute_of_final h'.wellFounded fun other hother => ?_
  by_cases hrep : Partition.Among (dropped.map .unsolved) ((closed kinds).find (.unsolved id))
  · have hunknown := (hdrops.heir (not_among_unsolved hid) hrep).1
    have hfinal := h'.sound.final_find hunknown
    obtain ⟨heir, hheir⟩ := unknown_iff.1 hunknown
    rw [hheir] at hother hfinal
    obtain rfl : other = heir := by simpa using hother
    exact hfinal
  · rw [hdrops.stays (not_among_unsolved hid) hrep, find_closed h.wellFounded] at hother
    have hfinal := final_of_mem_substitute h.wellFounded hother
    exact hdrops.final (final_closed h.wellFounded hfinal)

/-- Dropping variables changes the substitution of those variables only that a dropped one
represents. -/
theorem masks_dropped (h : Acyclic created kinds) (h' : Acyclic created kinds')
    (hdrops : Partition.Drops shape (dropped.map .unsolved) (closed kinds) kinds') :
    Masks (· ∉ dropped) (fun id => (substitute kinds (.unsolved id)).IsDropped dropped)
      (fun id => substitute kinds (.unsolved id)) fun id => substitute kinds' (.unsolved id) := by
  have hclosed := fun id => find_closed h.wellFounded id
  refine ⟨?_, ?_, ?_, ?_⟩
  · intro id hid hshown
    rw [← among_iff_isDropped, ← hclosed] at hshown
    rw [substitute_dropped h h' hdrops hid, hdrops.stays (not_among_unsolved hid) hshown, hclosed]
  · rintro id ⟨other, -, heq⟩
    rw [heq]
    rfl
  · intro id hid hhidden heq
    have hrep := hhidden
    rw [← among_iff_isDropped, ← hclosed] at hrep
    obtain ⟨-, hkept, -⟩ := hdrops.heir (not_among_unsolved hid) hrep
    rw [← substitute_dropped h h' hdrops hid, heq, among_iff_isDropped] at hkept
    exact hkept hhidden
  · intro a b ha hb _ _ heq
    rw [substitute_dropped h h' hdrops ha, substitute_dropped h h' hdrops hb]
    refine eq_of_beq (hdrops.same (not_among_unsolved ha) (not_among_unsolved hb) ?_)
    rw [hclosed, hclosed, heq]
    exact BEq.refl _

theorem masks_blanked (kinds : Partition Kind) (dropped : List Nat) :
    Masks (· ∉ dropped) (fun id => (substitute kinds (.unsolved id)).IsDropped dropped)
      (fun id => substitute kinds (.unsolved id))
      fun id => blanked dropped (substitute kinds (.unsolved id)) := by
  refine ⟨fun _ hshown => blanked_of_not_isDropped hshown, ?_, ?_, ?_⟩
  · rintro id ⟨other, -, heq⟩
    rw [heq]
    rfl
  · intro id _ hhidden heq
    rw [blanked_of_isDropped hhidden] at heq
    obtain ⟨other, -, hother⟩ := hhidden
    rw [hother] at heq
    cases heq
  · intro a b _ _ _ _ heq
    rw [heq]

end Dropping

end Kind

/-- The substitution of a kind in which the variables are blanked out that a dropped variable
represents. -/
def Store.outlineKind (s : Store) (dropped : List Nat) (kind : Kind) : Kind :=
  kind.bind fun id => (s.substituteKind (.unsolved id)).blanked dropped

/-! ## Types -/

namespace Ty

/-- The type mentions none of the variables. -/
structure Outlives (droppedKinds droppedTypes : List Nat) (type : Ty) : Prop where
  mentioned : ∀ id kind, (id, kind) ∈ type.mentions → id ∉ droppedTypes
  kinds : ∀ kind ∈ type.carried, kind.Outlives droppedKinds

/-- The type is a variable of the list. -/
def IsDropped (dropped : List Nat) (type : Ty) : Prop :=
  ∃ id ∈ dropped, (type == .unsolved id .type) = true

/-- What is left of the substitution of a variable when dropped variables are blanked out. -/
def blanked (dropped : List Nat) : Ty → Ty
  | .unsolved id kind => if id ∈ dropped then .builtIn .unit else .unsolved id kind
  | solution => solution

theorem blanked_of_not_isDropped {dropped : List Nat} {type : Ty}
    (h : ¬type.IsDropped dropped) : blanked dropped type = type := by
  cases type with
  | unsolved id kind =>
    rw [blanked, if_neg]
    intro hid
    exact h ⟨id, hid, unsolved_beq.2 rfl⟩
  | _ => rfl

theorem IsDropped.unknown {dropped : List Nat} {type : Ty} (h : type.IsDropped dropped) :
    shape.unknown type = true := by
  obtain ⟨id, -, heq⟩ := h
  rw [shape.unknown_congr heq]
  rfl

theorem blanked_of_isDropped {dropped : List Nat} {type : Ty} (h : type.IsDropped dropped) :
    blanked dropped type = .builtIn .unit := by
  obtain ⟨id, kind, rfl⟩ := unknown_iff.1 h.unknown
  obtain ⟨other, hother, heq⟩ := h
  rw [blanked, if_pos]
  rwa [unsolved_beq.1 heq]

theorem among_iff_isDropped {dropped : List Nat} {type : Ty} :
    Partition.Among (dropped.map (.unsolved · .type)) type ↔ type.IsDropped dropped := by
  simp only [Partition.Among, IsDropped, List.mem_map]
  constructor
  · rintro ⟨_, ⟨id, hid, rfl⟩, heq⟩
    exact ⟨id, hid, heq⟩
  · rintro ⟨id, hid, heq⟩
    exact ⟨_, ⟨id, hid, rfl⟩, heq⟩

theorem not_among_unsolved {dropped : List Nat} {id : Nat} {kind : Kind} (hid : id ∉ dropped) :
    ¬Partition.Among (dropped.map (.unsolved · .type)) (Ty.unsolved id kind) := by
  rw [among_iff_isDropped]
  rintro ⟨other, hother, heq⟩
  rw [unsolved_beq.1 heq] at hid
  exact hid hother

theorem IsDropped.congr {dropped : List Nat} {a b : Ty} (heq : (a == b) = true)
    (h : a.IsDropped dropped) : b.IsDropped dropped := by
  obtain ⟨id, hid, ha⟩ := h
  exact ⟨id, hid, BEq.trans (BEq.symm heq) ha⟩

theorem erased_beq (type : Ty) : (type.erased == type) = true := by
  rw [beq_iff, erased, erased, bind_bind]
  exact bind_congr (fun _ _ _ => bind_unsolved ..) fun _ _ => rfl

variable {kindsCreated typesCreated : Nat} {kinds kinds' : Partition Kind}
  {types types' : Partition Ty}

theorem substitute_congr_kinds (h : ∀ kind, Kind.substitute kinds' kind = kind.substitute kinds)
    (type : Ty) : type.substitute types kinds' = type.substitute types kinds := by
  have hkinds : Kind.substitute kinds' = Kind.substitute kinds := funext h
  have hexpand : ∀ fuel seen id kind, expand types kinds' fuel seen id kind =
      expand types kinds fuel seen id kind := by
    intro fuel
    induction fuel with
    | zero =>
      intro seen id kind
      rw [expand, expand, hkinds]
    | succ fuel ih =>
      intro seen id kind
      have hrest : expand types kinds' fuel (id :: seen) =
          expand types kinds fuel (id :: seen) := by
        funext other otherKind
        exact ih _ other otherKind
      simp only [expand, hrest, hkinds]
  exact bind_congr (fun id kind _ => hexpand _ _ id kind) fun kind _ => h kind

/-- The substitution of a type, its variables' kinds blanked out, from those of its variables. -/
theorem erased_substitute (types : Partition Ty) (kinds : Partition Kind) (type : Ty) :
    (type.substitute types kinds).erased =
      type.bind (fun id kind => (substitute types kinds (.unsolved id kind)).erased)
        (Kind.substitute kinds) := by
  rw [substitute, erased, bind_bind]
  simp only [substitute, bind_unsolved, erased, id]

theorem Acyclic.find_closed_of_solved (h : Acyclic kindsCreated typesCreated types)
    {kinds : Partition Kind} {id : Nat} {kind : Kind}
    (hsolved : shape.unknown ((Ty.closed types kinds).find (.unsolved id kind)) = false) :
    (Ty.closed types kinds).find (.unsolved id kind) =
      substitute types kinds (.unsolved id kind) := by
  rw [Ty.closed, Partition.find_mapRepresentatives] at hsolved ⊢
  cases hclass : types.classOf? (.unsolved id kind) with
  | some c =>
    dsimp only
    rw [← Partition.find_of_classOf? hclass, h.substitute_find]
  | none =>
    rw [hclass] at hsolved
    cases hsolved

section Dropping

variable {droppedKinds droppedTypes : List Nat}

/-- Once variables are dropped, a kept variable is substituted by its representative. -/
theorem erased_substitute_dropped (hkinds : Kind.Acyclic kindsCreated kinds)
    (hkinds' : Kind.Acyclic kindsCreated kinds')
    (h : Acyclic kindsCreated typesCreated types) (h' : Acyclic kindsCreated typesCreated types')
    (hdropsKinds : Partition.Drops Kind.shape (droppedKinds.map .unsolved) (Kind.closed kinds)
      kinds')
    (hdrops : Partition.Drops shape (droppedTypes.map (.unsolved · .type))
      (Ty.closed types (Kind.closed kinds)) types') {id : Nat} (kind : Kind)
    (hid : id ∉ droppedTypes) :
    (substitute types' kinds' (.unsolved id kind)).erased =
      (types'.find (.unsolved id kind)).erased := by
  rw [← h'.substitute_find]
  cases hunknown : shape.unknown (types'.find (.unsolved id kind)) with
  | true =>
    have hfinal := h'.sound.final_find hunknown
    obtain ⟨other, otherKind, hother⟩ := unknown_iff.1 hunknown
    rw [hother] at hfinal ⊢
    exact beq_iff.1 (substitute_final_beq h'.wellFounded kinds' otherKind (final_unsolved.1 hfinal))
  | false =>
    have hshown : ¬Partition.Among (droppedTypes.map (.unsolved · .type))
        ((Ty.closed types (Kind.closed kinds)).find (.unsolved id kind)) := by
      intro hrep
      rw [(hdrops.heir (not_among_unsolved hid) hrep).1] at hunknown
      cases hunknown
    have hstays := hdrops.stays (not_among_unsolved hid) hshown
    rw [hstays] at hunknown ⊢
    rw [h.find_closed_of_solved hunknown, erased_substitute]
    refine bind_congr (fun other otherKind hmem => ?_) fun carriedKind hmem => ?_
    · -- The variables of a closed solution stand for themselves.
      have hfinal := h.final_closed (Kind.closed kinds) (final_of_mem_substitute h hmem)
      exact beq_iff.1 (substitute_final_beq h'.wellFounded kinds' otherKind (hdrops.final hfinal))
    · have hself := substitute_of_mem_carried hkinds.closed.wellFounded h.wellFounded hmem
      refine Kind.substitute_of_final hkinds'.wellFounded fun other hother => ?_
      rw [← hself] at hother
      exact hdropsKinds.final (Kind.final_of_mem_substitute hkinds.closed.wellFounded hother)

/-- Dropping variables changes the substitution of those variables only that a dropped one
represents. -/
theorem masks_dropped (hkinds : Kind.Acyclic kindsCreated kinds)
    (hkinds' : Kind.Acyclic kindsCreated kinds')
    (h : Acyclic kindsCreated typesCreated types) (h' : Acyclic kindsCreated typesCreated types')
    (hdropsKinds : Partition.Drops Kind.shape (droppedKinds.map .unsolved) (Kind.closed kinds)
      kinds')
    (hdrops : Partition.Drops shape (droppedTypes.map (.unsolved · .type))
      (Ty.closed types (Kind.closed kinds)) types') :
    Masks (fun id _ => id ∉ droppedTypes)
      (fun id kind => (substitute types kinds (.unsolved id kind)).IsDropped droppedTypes)
      (fun id kind => (substitute types kinds (.unsolved id kind)).erased)
      fun id kind => (substitute types' kinds' (.unsolved id kind)).erased := by
  have hclosed : ∀ id kind, ((Ty.closed types (Kind.closed kinds)).find (.unsolved id kind) ==
      substitute types kinds (.unsolved id kind)) = true := by
    intro id kind
    rw [← substitute_congr_kinds (Kind.substitute_closed hkinds.wellFounded)]
    exact h.find_closed_beq (Kind.closed kinds) id kind
  have hafter : ∀ id kind, id ∉ droppedTypes →
      (substitute types' kinds' (.unsolved id kind)).erased =
        (types'.find (.unsolved id kind)).erased := fun id kind hid =>
    erased_substitute_dropped hkinds hkinds' h h' hdropsKinds hdrops kind hid
  refine ⟨?_, fun hhidden => ?_, ?_, ?_⟩
  · intro id kind hid hshown
    have hrep : ¬Partition.Among (droppedTypes.map (.unsolved · .type))
        ((Ty.closed types (Kind.closed kinds)).find (.unsolved id kind)) := by
      rw [among_iff_isDropped]
      exact fun hdropped => hshown (hdropped.congr (hclosed id kind))
    rw [hafter id kind hid, hdrops.stays (not_among_unsolved hid) hrep]
    exact beq_iff.1 (hclosed id kind)
  · rw [shape.unknown_congr (erased_beq _)]
    exact hhidden.unknown
  · intro id kind hid hhidden heq
    have hrep : Partition.Among (droppedTypes.map (.unsolved · .type))
        ((Ty.closed types (Kind.closed kinds)).find (.unsolved id kind)) := by
      rw [among_iff_isDropped]
      exact hhidden.congr (BEq.symm (hclosed id kind))
    obtain ⟨-, hkept, -⟩ := hdrops.heir (not_among_unsolved hid) hrep
    rw [among_iff_isDropped] at hkept
    rw [hafter id kind hid] at heq
    exact hkept (hhidden.congr (beq_iff.2 heq.symm))
  · intro a b kind kind' ha hb _ _ heq
    rw [hafter a kind ha, hafter b kind' hb]
    refine beq_iff.1 (hdrops.same (not_among_unsolved ha) (not_among_unsolved hb) ?_)
    exact BEq.trans (hclosed a kind) (BEq.trans (beq_iff.2 heq) (BEq.symm (hclosed b kind')))

theorem masks_blanked (types : Partition Ty) (kinds : Partition Kind) (droppedTypes : List Nat) :
    Masks (fun id _ => id ∉ droppedTypes)
      (fun id kind => (substitute types kinds (.unsolved id kind)).IsDropped droppedTypes)
      (fun id kind => (substitute types kinds (.unsolved id kind)).erased)
      fun id kind => (blanked droppedTypes (substitute types kinds (.unsolved id kind))).erased :=
          by
  refine ⟨fun _ hshown => ?_, fun hhidden => ?_, ?_, ?_⟩
  · rw [blanked_of_not_isDropped hshown]
  · rw [shape.unknown_congr (erased_beq _)]
    exact hhidden.unknown
  · intro id kind _ hhidden heq
    rw [blanked_of_isDropped hhidden] at heq
    have hunknown := hhidden.unknown
    rw [← shape.unknown_congr (beq_iff.2 heq)] at hunknown
    cases hunknown
  · intro a b kind kind' _ _ ha hb _
    rw [blanked_of_isDropped ha, blanked_of_isDropped hb]

end Dropping

end Ty

/-- The substitution of a type in which the variables are blanked out that a dropped variable
represents. -/
def Store.outlineType (s : Store) (droppedKinds droppedTypes : List Nat) (type : Ty) : Ty :=
  type.bind (fun id kind => (s.substituteType (.unsolved id kind)).blanked droppedTypes)
    (s.outlineKind droppedKinds)

theorem Ty.erased_outline (s : Store) (droppedKinds droppedTypes : List Nat) (type : Ty) :
    (s.outlineType droppedKinds droppedTypes type).erased =
      type.bind (fun id kind =>
          (blanked droppedTypes (s.substituteType (.unsolved id kind))).erased)
        (s.outlineKind droppedKinds) := by
  rw [Store.outlineType, erased, bind_bind]
  rfl

/-! ## Popping -/

namespace Solve

open Run

variable {s : Store}

/-- Popping a frame that drops its variables closes the solutions and removes the variables. -/
theorem popScope_drops (hs : s.Sound) {tag : ScopeTag} (htag : tag.dropsVariables = true) :
    Ends (popScope tag) s fun frame s' =>
      Partition.Drops Kind.shape (frame.unsolvedKinds.map .unsolved) (Kind.closed s.kinds)
          s'.kinds ∧
        Partition.Drops Ty.shape (frame.unsolvedTypes.map (.unsolved · .type))
          (Ty.closed s.types (Kind.closed s.kinds)) s'.types := by
  rw [popScope, if_pos htag]
  refine Ends.bind (Ends.modify ?_)
  refine Ends.bind (onStack_ends fun frame stack => ?_)
  refine Ends.bind (Ends.modify (Ends.pure ?_))
  have hclosed := hs.closeSolutions.sound
  refine ⟨?_, ?_⟩
  · have hdrops := hclosed.kinds.sound.drops (Kind.picks_pickKind stack.outermostFirst)
      (fun kind (hkind : kind ∈ frame.unsolvedKinds.map .unsolved) => by
        obtain ⟨id, -, rfl⟩ := List.mem_map.1 hkind
        rfl)
    rw [Partition.removeAll, List.foldl_map] at hdrops
    exact hdrops
  · have hdrops := hclosed.types.sound.drops (Ty.picks_pickType stack.outermostFirst)
      (fun type (htype : type ∈ frame.unsolvedTypes.map (.unsolved · .type)) => by
        obtain ⟨id, -, rfl⟩ := List.mem_map.1 htype
        rfl)
    rw [Partition.removeAll, List.foldl_map] at hdrops
    exact hdrops

end Solve

/-- Kinds or types that are substituted to the same before a frame drops its variables, and that
mention none of these, are substituted to the same afterwards exactly when their outlines are
the same. -/
theorem Reached.popScope_agree_iff {s s' : Store} (h : Reached Operation.Proper s) {tag : ScopeTag}
    (htag : tag.dropsVariables = true) {frame : Frame (Located Attributes)}
    (hpop : Solve.popScope tag s = .ok frame s') :
    (∀ a b : Kind, a.Outlives frame.unsolvedKinds → b.Outlives frame.unsolvedKinds →
      s.substituteKind a = s.substituteKind b →
      (s'.substituteKind a = s'.substituteKind b ↔
        s.outlineKind frame.unsolvedKinds a = s.outlineKind frame.unsolvedKinds b)) ∧
    ∀ a b : Ty, a.Outlives frame.unsolvedKinds frame.unsolvedTypes →
      b.Outlives frame.unsolvedKinds frame.unsolvedTypes →
      (s.substituteType a == s.substituteType b) = true →
      ((s'.substituteType a == s'.substituteType b) = true ↔
        (s.outlineType frame.unsolvedKinds frame.unsolvedTypes a ==
          s.outlineType frame.unsolvedKinds frame.unsolvedTypes b) = true) := by
  have hs := h.sound
  obtain ⟨hdropsKinds, hdropsTypes⟩ := Solve.popScope_drops hs htag frame s' hpop
  have hsettles := Solve.popScope_ends hs tag frame s' hpop
  have hkinds := hs.kinds.mono hsettles.kinds
  have hkinds' := hsettles.sound.kinds
  have hmasks := Kind.masks_dropped hkinds hkinds' hdropsKinds
  have hblanks := Kind.masks_blanked s.kinds frame.unsolvedKinds
  have hbefore := funext (Kind.substitute_eq_bind s.kinds)
  have hafter := funext (Kind.substitute_eq_bind s'.kinds)
  refine ⟨fun a b ha hb hab => ?_, fun a b ha hb hab => ?_⟩
  · rw [Store.substituteKind, Store.substituteKind, hbefore] at hab
    rw [Store.substituteKind, Store.substituteKind, hafter]
    exact ⟨hmasks.bind_eq_bind hblanks ha hb hab, hblanks.bind_eq_bind hmasks ha hb hab⟩
  · have htypes := hs.types.mono hsettles.kinds hsettles.types
    have hmasksTypes := Ty.masks_dropped hkinds hkinds' htypes hsettles.sound.types hdropsKinds
      hdropsTypes
    have hblanksTypes := Ty.masks_blanked s.types s.kinds frame.unsolvedTypes
    have hfollows := Ty.kindsFollow hmasks hblanks
    have hfollows' := Ty.kindsFollow hblanks hmasks
    rw [← hbefore, ← hafter] at hfollows hfollows'
    have huses : ∀ {type : Ty}, type.Outlives frame.unsolvedKinds frame.unsolvedTypes →
        type.Uses (fun id _ => id ∉ frame.unsolvedTypes)
          fun kind => ∀ id ∈ kind.unknowns, id ∉ frame.unsolvedKinds :=
      fun htype => ⟨htype.mentioned, htype.kinds⟩
    rw [Ty.beq_iff, Store.substituteType, Store.substituteType, Ty.erased_substitute,
      Ty.erased_substitute] at hab
    rw [Ty.beq_iff, Ty.beq_iff, Ty.erased_outline, Ty.erased_outline, Store.substituteType,
      Store.substituteType, Ty.erased_substitute, Ty.erased_substitute]
    exact ⟨hmasksTypes.bind_eq_bind hblanksTypes hfollows (huses ha) (huses hb) hab,
      hblanksTypes.bind_eq_bind hmasksTypes hfollows' (huses ha) (huses hb) hab⟩

/-! ## A unification that is undone -/

namespace Operation

/-- A variable is solved by a kind that mentions a variable of an inner frame, which outlives its
frame in the solution only.  In a second inner frame that variable is unified with a new one. -/
def outlived : List Operation :=
  [.pushScope .block, .freshKind, .pushScope .checkSubKind, .freshKind,
    .checkSubKind (.unsolved 0) (.higher [.unsolved 1] .type), .popScope .checkSubKind,
    .pushScope .checkSubKind, .freshKind,
    .checkSubKind (.unsolved 0) (.higher [.unsolved 4] .type)]

/-- The kinds mention none of the variables of the innermost frame and are substituted to the
same, but their outlines differ. -/
def outlinesDiffer (tag : ScopeTag) (a b : Kind) (s : Store) : Bool :=
  match Solve.popScope tag s with
  | .ok frame _ =>
    decide (a.Outlives frame.unsolvedKinds ∧ b.Outlives frame.unsolvedKinds ∧
      s.substituteKind a = s.substituteKind b ∧
      s.outlineKind frame.unsolvedKinds a ≠ s.outlineKind frame.unsolvedKinds b)
  | .error _ _ => false

/-- Two kinds that mention no variable of a frame are substituted to the same until it is
popped, and not any more then. -/
theorem told_apart_outlived : ∃ s s' frame, runAll outlived Store.start = .ok () s ∧
    Reached Operation.Proper s ∧ Solve.popScope .checkSubKind s = .ok frame s' ∧
    Kind.Outlives frame.unsolvedKinds (.unsolved 0) ∧
    Kind.Outlives frame.unsolvedKinds (.higher [.unsolved 1] .type) ∧
    s.substituteKind (.unsolved 0) = s.substituteKind (.higher [.unsolved 1] .type) ∧
    s'.substituteKind (.unsolved 0) ≠ s'.substituteKind (.higher [.unsolved 1] .type) := by
  have htest : test (fun s operation => decide (operation.Proper s))
      (outlinesDiffer .checkSubKind (.unsolved 0) (.higher [.unsolved 1] .type)) outlived
      Store.start = true := by decide +kernel
  obtain ⟨s, hrun, hreached, hdiffer⟩ := exists_of_test .start htest
  have hproper : Reached Operation.Proper s :=
    reached_mono (fun _ _ hallowed => of_decide_eq_true hallowed) hreached
  unfold outlinesDiffer at hdiffer
  split at hdiffer
  · rename_i frame s' hpop
    obtain ⟨ha, hb, hsame, houtlines⟩ := of_decide_eq_true hdiffer
    refine ⟨s, s', frame, hrun, hproper, hpop, ha, hb, hsame, fun hagree => houtlines ?_⟩
    exact ((Reached.popScope_agree_iff hproper rfl hpop).1 _ _ ha hb hsame).1 hagree
  · cases hdiffer

end Operation

end PolyFront
