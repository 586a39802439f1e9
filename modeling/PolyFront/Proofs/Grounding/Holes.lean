import PolyFront.Proofs.Grounding.Subkinds

/-!
# Solving variables of types

A variable is solved by a type part by part: fresh variables stand for the parts and are solved
one after another.  The type may mention variables that are solved, as long as these stand in their
own solutions, so that the occurrence check does not see everything that the type reaches.  What
carries the argument is a set of variables that the type does not leave, that solutions and classes
do not leave either, and to which the variable that is to be solved does not belong.  Solving a
variable then makes no solution reach itself anew, and spares the variables that are outside.
-/

namespace PolyFront

open Run

namespace Ty

variable {types : Partition Ty} {type : Ty} {id : Nat} {good : Ty → Prop}

/-- Created variables that solutions and classes do not leave. -/
structure Room (types : Partition Ty) (created : Nat) (inside : Nat → Prop) : Prop
    extends Shut types inside where
  lt : ∀ v, inside v → v < created

theorem room_empty (types : Partition Ty) (created : Nat) : Room types created fun _ => False where
  inner h := h.elim
  mates h := h.elim
  lt _ h := h.elim

/-- Only a variable is represented by a variable. -/
theorem find_solid (hsound : types.Sound plainShape good) (hsolid : shape.unknown type = false) :
    shape.unknown (types.find type) = false := by
  cases hclass : types.classOf? type with
  | none => rwa [Partition.find_of_absent hclass]
  | some c =>
    rw [Partition.find_of_classOf? hclass]
    obtain ⟨hc, hhas⟩ := Partition.mem_of_classOf? hclass
    obtain ⟨member, hmember, heq⟩ := Class.has_iff.1 hhas
    rw [← Bool.not_eq_true]
    intro hunknown
    have hvariable := (hsound.ofUnknown c hc hunknown).1 member hmember
    rw [shape.unknown_congr heq] at hsolid
    rw [unknown_plain] at hvariable
    rw [hvariable] at hsolid
    cases hsolid

theorem isFinal_of_absent (h : types.classOf? (.unsolved id .type) = none) : IsFinal types id := by
  rw [IsFinal, Partition.Final, Partition.find_of_absent h]
  exact BEq.rfl

theorem loose_of_final (h : ∀ {v}, Mentions v type → IsFinal types v) : Loose types type where
  final hv _ := h hv
  again hv hsolved := absurd hsolved (not_solved_of_final (h hv))

theorem mentions_of_function? {args : List Ty} {result : Ty}
    (h : type.function? = some (args, result)) :
    (∀ arg ∈ args, ∀ {v}, Mentions v arg → Mentions v type) ∧
      ∀ {v}, Mentions v result → Mentions v type := by
  unfold function? at h
  split at h
  · rename_i all kind
    obtain ⟨last, hlast, heq⟩ := Option.map_eq_some_iff.1 h
    obtain ⟨rfl, rfl⟩ := Prod.mk.inj heq
    exact ⟨fun arg harg _ hv => mentions_apply.2 (.inr ⟨arg, List.dropLast_subset _ harg, hv⟩),
      fun hv => mentions_apply.2 (.inr ⟨last, List.mem_of_getLast? hlast, hv⟩)⟩
  · cases h

end Ty

namespace World

variable {w w' w'' : World} {inside inside' inside'' : Nat → Prop} {used used' : List Nat}

/-- Some variables are solved, and those outside that were not used are spared. -/
structure Fills (used : List Nat) (inside inside' : Nat → Prop) (w w' : World) : Prop
    extends Steps [] w w' where
  room : Ty.Room w'.store.types w'.store.nextType inside'
  within : ∀ v, inside v → inside' v
  spares : ∀ g, g ∉ used → g < w.store.nextType → Ty.IsFinal w.store.types g → ¬inside g →
    Ty.IsFinal w'.store.types g ∧ ¬inside' g

theorem Kept.fills (h : w.Kept) (hroom : Ty.Room w.store.types w.store.nextType inside)
    (used : List Nat) : Fills used inside inside w w :=
  ⟨h.steps, hroom, fun _ hv => hv, fun _ _ _ hfinal hout => ⟨hfinal, hout⟩⟩

/-- Variables that are used later were used before or not created. -/
theorem Fills.trans (h : Fills used inside inside' w w') (h' : Fills used' inside' inside'' w' w'')
    (hused : ∀ g ∈ used', g ∈ used ∨ w.store.nextType ≤ g) : Fills used inside inside'' w w'' where
  toSteps := h.toSteps.trans h'.toSteps
  room := h'.room
  within v hv := h'.within v (h.within v hv)
  spares g hg hlt hfinal hout := by
    obtain ⟨hfinal', hout'⟩ := h.spares g hg hlt hfinal hout
    refine h'.spares g (fun hmem => ?_) (Nat.lt_of_lt_of_le hlt h.toLater.types) hfinal' hout'
    exact (hused g hmem).elim hg fun hle => Nat.not_lt.2 hle hlt

theorem Fills.mono (h : Fills used inside inside' w w') (hused : used ⊆ used') :
    Fills used' inside inside' w w' :=
  ⟨h.toSteps, h.room, h.within, fun g hg => h.spares g fun hmem => hg (hused hmem)⟩

section Fresh

variable {frame : Frame (Located Attributes)} {rest : List (Frame (Located Attributes))}
  {kind : Kind} (h : w.Kept) (hroom : Ty.Room w.store.types w.store.nextType inside)
  (hframes : w.store.stack.frames = frame :: rest) (hkind : w.Live kind)

include h hroom hframes hkind

/-- A fresh variable is outside. -/
theorem Kept.fills_newType :
    Fills [] inside inside w { w with store := w.store.newType frame rest kind } where
  toSteps := h.addType hframes hkind
  room := ⟨hroom.toShut.add _ _, fun v hv => Nat.lt_succ_of_lt (hroom.lt v hv)⟩
  within _ hv := hv
  spares _ _ _ hfinal hout := ⟨Ty.isFinal_add hfinal, hout⟩

/-- A fresh variable is put inside. -/
theorem Kept.fills_inside : Fills [] inside (fun v => inside v ∨ v = w.store.nextType) w
    { w with store := w.store.newType frame rest kind } where
  toSteps := h.addType hframes hkind
  room := by
    refine ⟨(hroom.toShut.insert h.types.sound (h.absent_of_le (Nat.le_refl _))).add _ _, ?_⟩
    rintro v (hv | rfl)
    · exact Nat.lt_succ_of_lt (hroom.lt v hv)
    · exact Nat.lt_succ_self _
  within _ hv := .inl hv
  spares g _ hlt hfinal hout :=
    ⟨Ty.isFinal_add hfinal, fun hg => hg.elim hout (Nat.ne_of_lt hlt)⟩

end Fresh

/-- The classes of a variable outside and of another type are merged, and solutions are closed. -/
theorem Kept.fills_merge (h : w.Kept) {types : Partition Ty} {id : Nat} {other : Ty}
    (hmerge : Ty.Merge w.store.types types id other) (hsound : types.Sound Ty.plainShape w.Fits)
    (hrecurring : Ty.Recurring types) (hroom : Ty.Room types w.store.nextType inside')
    (hwithin : ∀ v, inside v → inside' v)
    (hspares : ∀ g, g ≠ id → Ty.IsFinal w.store.types g → ¬inside g →
      (w.store.types.find other == .unsolved g .type) = false ∧ ¬inside' g) :
    Fills [id] inside inside' w
      { w with store := Store.closeSolutions { w.store with types := types } } where
  toSteps := h.close hsound hrecurring
  room := ⟨hroom.toShut.closed hsound _, hroom.lt⟩
  within := hwithin
  spares g hg _ hfinal hout := by
    have hne : g ≠ id := fun heq => hg (List.mem_singleton.2 heq)
    obtain ⟨hfind, hout'⟩ := hspares g hne hfinal hout
    exact ⟨Ty.final_closed hsound Ty.unknown_plain (hmerge.final hfinal hne hfind) _, hout'⟩

section Solve

variable {id : Nat} {kind : Kind} {type : Ty} (h : w.Kept)
  (hroom : Ty.Room w.store.types w.store.nextType inside) (hout : ¬inside id)
  (hfinal : Ty.IsFinal w.store.types id) (hvariable : w.Fits (.unsolved id kind))
  (htype : w.Fits type) (hloose : Ty.Loose w.store.types type)

include h hroom hout hfinal hvariable htype hloose

/-- A variable is solved by a type that reaches what is inside or stands for itself. -/
theorem Kept.fills_solid (hsolid : Ty.shape.unknown type = false)
    (hmentions : ∀ {v}, Ty.Mentions v type → inside v ∨ Ty.IsFinal w.store.types v) :
    Fills [id] inside inside w { w with store := w.store.solveType id kind type } := by
  have hne : (type == .unsolved id kind) = false := by
    rw [← Bool.not_eq_true]
    intro heq
    rw [Ty.shape.unknown_congr heq] at hsolid
    cases hsolid
  have hmerge := (Ty.merge_union h.types.sound (Ty.pickType_cases w.store.stack.outermostFirst)
    (Ty.unknown_pickType _) hvariable htype hfinal hne).1
  have hsound := h.types.sound.union_any (fun _ => rfl)
    (Ty.pickType_cases w.store.stack.outermostFirst) (fun _ _ => Ty.unknown_pickType _)
    hvariable htype
  refine h.fills_merge hmerge hsound
    (hmerge.recurring_of_shut h.types.spread hloose hroom.toShut hout hmentions)
    ⟨hmerge.shut hroom.toShut hout fun o own heq => ?_, hroom.lt⟩ (fun _ hv => hv)
    fun g _ _ hg => ⟨?_, hg⟩
  · rw [heq] at hsolid
    cases hsolid
  · have hfound := Ty.find_solid h.types.sound hsolid
    rw [← Bool.not_eq_true]
    intro heq
    rw [Ty.shape.unknown_congr heq] at hfound
    cases hfound

omit htype hloose in
/-- A variable is merged with one inside. -/
theorem Kept.fills_variable {other : Nat} {otherKind : Kind} (hother : inside other)
    (htype : w.Fits (.unsolved other otherKind))
    (hloose : Ty.Loose w.store.types (.unsolved other otherKind)) :
    ∃ inside', Fills [id] inside inside' w
      { w with store := w.store.solveType other otherKind (.unsolved id kind) } := by
  have hne : other ≠ id := fun heq => hout (heq ▸ hother)
  have hbeq : (Ty.unsolved other otherKind == .unsolved id kind) = false := by
    rw [← Bool.not_eq_true]
    exact fun heq => hne (Ty.unsolved_beq.1 heq)
  have hmerge := (Ty.merge_union h.types.sound (Ty.pickType_cases w.store.stack.outermostFirst)
    (Ty.unknown_pickType _) hvariable htype hfinal hbeq).2
  have hsound := h.types.sound.union_any (fun _ => rfl)
    (Ty.pickType_cases w.store.stack.outermostFirst) (fun _ _ => Ty.unknown_pickType _)
    htype hvariable
  have hrecurring := hmerge.recurring_of_shut h.types.spread hloose hroom.toShut hout fun hv =>
    .inl (Ty.mentions_unsolved.1 hv ▸ hother)
  by_cases hsolved : Ty.Solved w.store.types other
  · refine ⟨inside, h.fills_merge hmerge hsound hrecurring
      ⟨hmerge.shut hroom.toShut hout fun o own heq => ?_, hroom.lt⟩ (fun _ hv => hv)
      fun g _ _ hg => ⟨?_, hg⟩⟩
    · cases heq
      exact hsolved
    · have hfound := (Ty.solved_iff otherKind).1 hsolved
      rw [← Bool.not_eq_true]
      intro heq
      rw [Ty.shape.unknown_congr heq] at hfound
      cases hfound
  · have hotherFinal := hloose.final (Ty.mentions_unsolved.2 rfl) hsolved
    refine ⟨_, h.fills_merge hmerge hsound hrecurring
      ⟨hmerge.shut_mates hroom.toShut hother hsolved, ?_⟩ (fun _ hv => .inl hv)
      fun g hg hgFinal hgOut => ⟨?_, ?_⟩⟩
    · rintro v (hv | hv)
      · exact hroom.lt v hv
      · by_contra hle
        have hlt := (Ty.fits_unsolved.1 hvariable).1
        have hid := hv.symm.of_absent h.types.sound (h.absent_of_le (Nat.not_lt.1 hle))
        exact hle (hid ▸ hlt)
    · obtain ⟨own, hown⟩ := hotherFinal.find otherKind
      rw [hown, ← Bool.not_eq_true]
      exact fun heq => hgOut (Ty.unsolved_beq.1 heq ▸ hother)
    · rintro (hv | hv)
      · exact hgOut hv
      · exact hg (hv.eq hfinal hgFinal).symm

end Solve

end World

namespace Solve

open World

variable {w : World} {inside : Nat → Prop}

theorem freshVariable_newType {s : Store} (kind : Kind) :
    Ends (freshVariable kind) s fun hole s' => ∃ frame rest, s.stack.frames = frame :: rest ∧
      hole = (s.nextType, kind) ∧ s' = s.newType frame rest kind := by
  refine Ends.bind (Ends.get (Ends.bind (Ends.modify (Ends.bind (Ends.bind (Ends.modify ?_))))))
  refine Ends.within (Stack.updateTop_ends fun frame rest hframes => Ends.pure ?_)
  exact ⟨frame, rest, hframes, rfl, rfl⟩

/-- A variable that is to be solved. -/
structure Hole (w : World) (inside : Nat → Prop) (hole : Nat × Kind) : Prop where
  final : Ty.IsFinal w.store.types hole.1
  out : ¬inside hole.1
  fits : w.Fits (.unsolved hole.1 hole.2)

theorem Hole.spared {w' : World} {inside' : Nat → Prop} {used : List Nat} {hole : Nat × Kind}
    (h : Hole w inside hole) (hfills : Fills used inside inside' w w') (hused : hole.1 ∉ used) :
    Hole w' inside' hole := by
  obtain ⟨hfinal, hout⟩ := hfills.spares hole.1 hused (Ty.fits_unsolved.1 h.fits).1 h.final h.out
  exact ⟨hfinal, hout, hfills.toLater.fits h.fits⟩

/-- Fresh variables for the parts of a type. -/
theorem freshVariables_fills (types : List Ty) : ∀ {w : World}, w.Kept →
    Ty.Room w.store.types w.store.nextType inside → (∀ type ∈ types, w.Fits type) →
    Ends (types.mapM fun type => freshVariable type.kind) w.store fun fresh s' =>
      ∃ w', w'.store = s' ∧ Fills [] inside inside w w' ∧ (fresh.map Prod.fst).Nodup ∧
        (∀ hole ∈ fresh, w.store.nextType ≤ hole.1 ∧ Hole w' inside hole) ∧
        ∀ {type}, Ty.Loose w.store.types type → Ty.Loose w'.store.types type := by
  induction types with
  | nil =>
    intro w h hroom _
    exact Ends.pure ⟨w, rfl, h.fills hroom [], List.nodup_nil, fun _ hhole =>
      (List.not_mem_nil hhole).elim, id⟩
  | cons type rest ih =>
    intro w h hroom htypes
    have hkind := (htypes type List.mem_cons_self).kind
    rw [List.mapM_cons]
    refine Ends.bind ((freshVariable_newType _).mono ?_)
    rintro _ _ ⟨frame, below, hframes, rfl, rfl⟩
    have hfirst := h.fills_newType hroom hframes hkind
    have hhole : Hole { w with store := w.store.newType frame below type.kind } inside
        (w.store.nextType, type.kind) :=
      ⟨Ty.isFinal_add (Ty.isFinal_of_absent (h.absent_of_le (Nat.le_refl _))),
        fun hin => Nat.lt_irrefl _ (hroom.lt _ hin),
        Ty.fits_unsolved.2 ⟨Nat.lt_succ_self _, hfirst.toLater.live hkind⟩⟩
    refine Ends.bind ((ih hfirst.kept hfirst.room fun other hother =>
      hfirst.toLater.fits (htypes other (List.mem_cons_of_mem _ hother))).mono ?_)
    rintro fresh _ ⟨w', rfl, hfills, hnodup, hfresh, hloose⟩
    have hle : ∀ hole ∈ fresh, w.store.nextType < hole.1 := fun hole hmem => (hfresh hole hmem).1
    refine Ends.pure ⟨w', rfl, hfirst.trans hfills fun _ hmem => (List.not_mem_nil hmem).elim,
      List.nodup_cons.2 ⟨fun hmem => ?_, hnodup⟩, fun hole hmem => ?_,
      fun htype => hloose (htype.add _ _)⟩
    · obtain ⟨hole, hmem, heq⟩ := List.mem_map.1 hmem
      exact Nat.lt_irrefl _ (heq ▸ hle hole hmem)
    · rcases List.mem_cons.1 hmem with rfl | hmem
      · exact ⟨Nat.le_refl _, hhole.spared hfills List.not_mem_nil⟩
      · exact ⟨Nat.le_of_lt (hle hole hmem), (hfresh hole hmem).2⟩

/-- A type that does not leave what is inside. -/
structure Contained (w : World) (inside : Nat → Prop) (type : Ty) : Prop where
  fits : w.Fits type
  loose : Ty.Loose w.store.types type
  mentions : ∀ {v}, Ty.Mentions v type → inside v

/-- The types that binders are replaced by. -/
def Replaces (w : World) (inside : Nat → Prop) (assignment : Table String Ty) : Prop :=
  ∀ name type, assignment.get? name = some type → Contained w inside type

/-- Fresh types for binders, of the kinds that the binders have. -/
theorem freshBinders_fills (isFlexible : Quantifier → Bool) (binders : List Ty) :
    ∀ {w : World} {inside : Nat → Prop} {assignment : Table String Ty}, w.Kept →
    Ty.Room w.store.types w.store.nextType inside → (∀ binder ∈ binders, w.Fits binder) →
    Replaces w inside assignment →
    Ends (binders.foldlM
      (fun assignment binder => do
        match binder with
        | .var quantifier name kind =>
          if isFlexible quantifier then
            pure (assignment.insert name (← freshType (← substituteKind kind)))
          else pure assignment
        | _ => pure assignment) assignment : Solve (Table String Ty)) w.store fun assignment' s' =>
      ∃ w' inside', w'.store = s' ∧ Fills [] inside inside' w w' ∧ Replaces w' inside' assignment' ∧
        ∀ {type}, Ty.Loose w.store.types type → Ty.Loose w'.store.types type := by
  induction binders with
  | nil =>
    intro w inside assignment h hroom _ hassignment
    exact Ends.pure ⟨w, inside, rfl, h.fills hroom [], hassignment, id⟩
  | cons binder rest ih =>
    intro w inside assignment h hroom hbinders hassignment
    have hrest : ∀ other ∈ rest, w.Fits other := fun other hother =>
      hbinders other (List.mem_cons_of_mem _ hother)
    have hbinder := hbinders binder List.mem_cons_self
    rw [List.foldlM_cons]
    refine Ends.bind ?_
    have hskip : Ends (pure assignment : Solve (Table String Ty)) w.store fun assignment s' =>
        Ends (rest.foldlM _ assignment) s' fun assignment' s' => ∃ w' inside', w'.store = s' ∧
          Fills [] inside inside' w w' ∧ Replaces w' inside' assignment' ∧
          ∀ {type}, Ty.Loose w.store.types type → Ty.Loose w'.store.types type :=
      Ends.pure (ih h hroom hrest hassignment)
    split
    · rename_i quantifier name kind
      have hlive := h.live_substitute (Ty.fits_var.1 hbinder)
      split
      · refine Ends.bind (Ends.bind (Ends.get (Ends.pure ?_)))
        refine Ends.bind (Ends.bind ((freshVariable_newType _).mono ?_))
        rintro _ _ ⟨frame, below, hframes, rfl, rfl⟩
        have hfirst := h.fills_inside hroom hframes hlive
        have hfinal : Ty.IsFinal (w.store.types.add (.unsolved w.store.nextType
            (w.store.substituteKind kind))) w.store.nextType :=
          Ty.isFinal_add (Ty.isFinal_of_absent (h.absent_of_le (Nat.le_refl _)))
        refine Ends.pure (Ends.pure ?_)
        refine (ih hfirst.kept hfirst.room (fun other hother => hfirst.toLater.fits
          (hrest other hother)) ?_).mono ?_
        · intro other type hfound
          rw [Table.get?_insert] at hfound
          split at hfound
          · obtain rfl := Option.some.inj hfound
            refine ⟨Ty.fits_unsolved.2 ⟨Nat.lt_succ_self _, hfirst.toLater.live hlive⟩,
              Ty.loose_of_final fun hv => ?_, fun hv => .inr (Ty.mentions_unsolved.1 hv)⟩
            rw [Ty.mentions_unsolved.1 hv]
            exact hfinal
          · obtain ⟨hfits, hloose, hmentions⟩ := hassignment other type hfound
            exact ⟨hfirst.toLater.fits hfits, hloose.add _ _, fun hv => .inl (hmentions hv)⟩
        · rintro assignment' _ ⟨w', inside', rfl, hfills, hassignment', hloose⟩
          exact ⟨w', inside', rfl, hfirst.trans hfills fun _ hmem =>
            (List.not_mem_nil hmem).elim, hassignment', fun htype => hloose (htype.add _ _)⟩
      · exact hskip
    · exact hskip

theorem instantiateBinders_fills (side : Side) {binders : List Ty} {body : Ty} (h : w.Kept)
    (hroom : Ty.Room w.store.types w.store.nextType inside)
    (hbinders : ∀ binder ∈ binders, w.Fits binder) (hbody : Contained w inside body) :
    Ends (instantiateBinders side binders body) w.store fun type s' => ∃ w' inside',
      w'.store = s' ∧ Fills [] inside inside' w w' ∧ Contained w' inside' type := by
  refine Ends.bind ((freshBinders_fills _ binders h hroom hbinders
    fun name type hfound => ?_).mono ?_)
  · rw [Table.get?_empty] at hfound
    cases hfound
  · rintro assignment _ ⟨w', inside', rfl, hfills, hassignment, hloose⟩
    refine Ends.pure ⟨w', inside', rfl, hfills,
      (hfills.toLater.fits hbody.fits).instantiate fun name other hfound =>
        (hassignment name other hfound).fits, ⟨fun hv => ?_, fun hv => ?_⟩, fun hv => ?_⟩
    all_goals
      obtain ⟨kind, hmem⟩ := hv
      rcases Ty.mem_mentions_instantiate hmem with hmem | ⟨name, value, hfound, hmem⟩
    · exact (hloose hbody.loose).final ⟨_, hmem⟩
    · exact (hassignment name value hfound).loose.final ⟨_, hmem⟩
    · exact (hloose hbody.loose).again ⟨_, hmem⟩
    · exact (hassignment name value hfound).loose.again ⟨_, hmem⟩
    · exact hfills.within _ (hbody.mentions ⟨_, hmem⟩)
    · exact (hassignment name value hfound).mentions ⟨_, hmem⟩

/-- A way to solve variables by types that do not leave what is inside. -/
def Filling (solve : Nat × Kind → Ty → Solve Unit) : Prop :=
  ∀ (w : World) (inside : Nat → Prop) (hole : Nat × Kind) (type : Ty), w.Kept →
    Ty.Room w.store.types w.store.nextType inside → Hole w inside hole → Contained w inside type →
    Ends (solve hole type) w.store fun _ s' =>
      ∃ w' inside', w'.store = s' ∧ Fills [hole.1] inside inside' w w'

/-- Fresh variables are solved one after another by parts that are substituted. -/
theorem Filling.parts {solve : Nat × Kind → Ty → Solve Unit} (hsolve : Filling solve)
    (fresh : List (Nat × Kind)) : ∀ (types : List Ty) {w : World} {inside : Nat → Prop}, w.Kept →
    Ty.Room w.store.types w.store.nextType inside → (fresh.map Prod.fst).Nodup →
    (∀ hole ∈ fresh, Hole w inside hole) →
    (∀ type ∈ types, w.Fits type ∧ ∀ {v}, Ty.Mentions v type → inside v) →
    Ends ((fresh.zip types).forM fun (hole, type) => do solve hole (← substituteType type))
      w.store fun _ s' => ∃ w' inside', w'.store = s' ∧
        Fills (fresh.map Prod.fst) inside inside' w w' := by
  induction fresh with
  | nil => exact fun _ w inside h hroom _ _ _ => Ends.pure ⟨w, inside, rfl, h.fills hroom _⟩
  | cons hole rest ih =>
    intro types w inside h hroom hnodup hholes htypes
    obtain ⟨hnew, hnodup⟩ := List.nodup_cons.1 hnodup
    cases types with
    | nil => exact Ends.pure ⟨w, inside, rfl, h.fills hroom _⟩
    | cons type types =>
      obtain ⟨hfits, hmentions⟩ := htypes type List.mem_cons_self
      have hheld : Contained w inside (w.store.substituteType type) :=
        ⟨h.fits_substitute hfits, (h.types.spread.spread_substitute h.types.sound
          Ty.unknown_plain _ _).loose, fun hv => hroom.toShut.substitute h.types.sound hmentions hv⟩
      refine Ends.bind (Ends.bind (Ends.bind (Ends.get (Ends.pure ?_))))
      refine (hsolve w inside hole _ h hroom (hholes hole List.mem_cons_self) hheld).mono ?_
      rintro _ _ ⟨w₁, inside₁, rfl, hfirst⟩
      refine (ih types hfirst.kept hfirst.room hnodup (fun other hother => ?_)
        fun other hother => ?_).mono ?_
      · refine (hholes other (List.mem_cons_of_mem _ hother)).spared hfirst fun hmem => hnew ?_
        exact List.mem_singleton.1 hmem ▸ List.mem_map_of_mem hother
      · obtain ⟨hfits, hmentions⟩ := htypes other (List.mem_cons_of_mem _ hother)
        exact ⟨hfirst.toLater.fits hfits, fun hv => hfirst.within _ (hmentions hv)⟩
      · rintro _ _ ⟨w₂, inside₂, rfl, hfills⟩
        refine ⟨w₂, inside₂, rfl, (hfirst.mono ?_).trans hfills fun g hg => .inl ?_⟩
        · exact List.cons_subset_cons _ (List.nil_subset _)
        · exact List.mem_cons_of_mem _ hg

/-- A variable is solved by a type that mentions what is inside and fresh variables, which are to
be solved then. -/
theorem Hole.solve {w₁ : World} {hole : Nat × Kind} (h : Hole w inside hole)
    (fresh : List (Nat × Kind)) (whole : Ty) (hfills : Fills [] inside inside w w₁)
    (hfresh : ∀ other ∈ fresh, w.store.nextType ≤ other.1 ∧ Hole w₁ inside other)
    (hwhole : w₁.Fits whole) (hsolid : Ty.shape.unknown whole = false)
    (hmentions : ∀ {v}, Ty.Mentions v whole → (inside v ∧
      ∃ type, Ty.Loose w₁.store.types type ∧ Ty.Mentions v type) ∨ ∃ other ∈ fresh, v = other.1) :
    Fills [hole.1] inside inside w
      { w₁ with store := w₁.store.solveType hole.1 hole.2 whole } ∧
    ∀ other ∈ fresh, Hole { w₁ with store := w₁.store.solveType hole.1 hole.2 whole } inside
      other := by
  have hhole := h.spared hfills List.not_mem_nil
  have hsolve := hfills.kept.fills_solid hfills.room hhole.out hhole.final hhole.fits hwhole
    ⟨fun hv hunsolved => ?_, fun hv hsolved => ?_⟩ hsolid fun hv => ?_
  · refine ⟨(hfills.mono (List.nil_subset _)).trans hsolve fun g hg => .inl hg,
      fun other hother => ?_⟩
    refine (hfresh other hother).2.spared hsolve fun hmem => ?_
    have hlt : hole.1 < w.store.nextType := (Ty.fits_unsolved.1 h.fits).1
    exact Nat.not_lt.2 (hfresh other hother).1 (List.mem_singleton.1 hmem ▸ hlt)
  · rcases hmentions hv with ⟨-, type, hloose, hv⟩ | ⟨other, hother, rfl⟩
    · exact hloose.final hv hunsolved
    · exact (hfresh other hother).2.final
  · rcases hmentions hv with ⟨-, type, hloose, hv⟩ | ⟨other, hother, rfl⟩
    · exact hloose.again hv hsolved
    · exact absurd hsolved (Ty.not_solved_of_final (hfresh other hother).2.final)
  · rcases hmentions hv with ⟨hin, -⟩ | ⟨other, hother, rfl⟩
    · exact .inl hin
    · exact .inr (hfresh other hother).2.final

theorem mentions_holes {fresh : List (Nat × Kind)} {v : Nat}
    (h : ∃ type ∈ fresh.map fun hole => Ty.unsolved hole.1 hole.2, Ty.Mentions v type) :
    ∃ other ∈ fresh, v = other.1 := by
  obtain ⟨type, htype, hv⟩ := h
  obtain ⟨other, hother, rfl⟩ := List.mem_map.1 htype
  exact ⟨other, hother, Ty.mentions_unsolved.1 hv⟩

/-- The work done inside of a frame in which types are solved. -/
theorem withScope_fills {α : Type} {kind : ScopeKind} (hdrops : kind.tag.dropsVariables = true)
    {used : List Nat} {body : Solve α} (h : w.Kept)
    (hbody : Ends body (w.pushed kind).store fun _ s' => ∃ w' inside', w'.store = s' ∧
      Fills used inside inside' (w.pushed kind) w') :
    Ends (withScope kind body) w.store fun _ s' => ∃ w' inside', w'.store = s' ∧
      Fills used inside inside' w w' := by
  refine Ends.bind (Ends.modify (Ends.bind (hbody.mono ?_)))
  rintro a _ ⟨w₁, inside', rfl, hfills⟩
  refine Ends.bind ((popScope_left hdrops).mono ?_)
  rintro frame _ ⟨rest, hframes, -, rfl⟩
  obtain ⟨hsteps, -, -, hshut, hfinals⟩ := hfills.toSteps.drop h hdrops hframes
    (fun _ hother => (List.not_mem_nil hother).elim) (motive := fun types => Ty.Shut types inside' ∧
      ∀ {g}, Ty.IsFinal w₁.store.types g → Ty.IsFinal types g)
    ⟨hfills.room.toShut.closed hfills.kept.types.sound _,
      fun hg => Ty.final_closed hfills.kept.types.sound Ty.unknown_plain hg _⟩
    fun id hlaid ⟨hshut, hfinals⟩ =>
      ⟨hshut.remove hlaid.sound (Ty.picks_plain w.store.stack.outermostFirst) id,
        fun hg => Ty.isFinal_remove hlaid.sound Ty.unknown_plain
          (Ty.picks_plain w.store.stack.outermostFirst) id (hfinals hg)⟩
  refine Ends.pure ⟨_, inside', rfl, hsteps, ⟨hshut, hfills.room.lt⟩, hfills.within,
    fun g hg hlt hfinal hout => ?_⟩
  obtain ⟨hfinal', hout'⟩ := hfills.spares g hg hlt hfinal hout
  exact ⟨hfinals hfinal', hout'⟩

/-! ## Solving to a given depth -/

/-- A fresh variable for a result, beside those for the parameters. -/
theorem freshResult_fills {w₁ : World} {fresh : List (Nat × Kind)}
    (hfills : Fills [] inside inside w w₁)
    (hfresh : ∀ hole ∈ fresh, w.store.nextType ≤ hole.1 ∧ Hole w₁ inside hole) :
    Ends (freshVariable .type) w₁.store fun last s' => ∃ w₂, w₂.store = s' ∧
      Fills [] inside inside w w₂ ∧ last.1 ∉ fresh.map Prod.fst ∧
      ∀ hole ∈ fresh ++ [last], w.store.nextType ≤ hole.1 ∧ Hole w₂ inside hole := by
  refine (freshVariable_newType _).mono ?_
  rintro _ _ ⟨frame, rest, hframes, rfl, rfl⟩
  have hlive := w₁.live_of_ground Kind.ground_type
  have hadd := hfills.kept.fills_newType hfills.room hframes hlive
  refine ⟨_, rfl, hfills.trans hadd fun _ hg => (List.not_mem_nil hg).elim, fun hmem => ?_,
    fun hole hmem => ?_⟩
  · obtain ⟨other, hother, heq⟩ := List.mem_map.1 hmem
    exact Nat.lt_irrefl _ (heq ▸ (Ty.fits_unsolved.1 (hfresh other hother).2.fits).1)
  · rcases List.mem_append.1 hmem with hmem | hmem
    · exact ⟨(hfresh hole hmem).1, (hfresh hole hmem).2.spared hadd List.not_mem_nil⟩
    · rw [List.mem_singleton.1 hmem]
      exact ⟨hfills.toLater.types,
        Ty.isFinal_add (Ty.isFinal_of_absent (hfills.kept.absent_of_le (Nat.le_refl _))),
        fun hin => Nat.lt_irrefl _ (hfills.room.lt _ hin),
        Ty.fits_unsolved.2 ⟨Nat.lt_succ_self _, hadd.toLater.live hlive⟩⟩

/-- A variable is solved by a function between fresh variables. -/
theorem Hole.solve_function {w₁ : World} {hole : Nat × Kind} (h : Hole w inside hole)
    {fresh : List (Nat × Kind)} {last : Nat × Kind} {whole : Ty}
    (hwhole : whole = Ty.function (fresh.map fun hole => .unsolved hole.1 hole.2)
      (.unsolved last.1 last.2))
    (hfills : Fills [] inside inside w w₁)
    (hfresh : ∀ other ∈ fresh ++ [last], w.store.nextType ≤ other.1 ∧ Hole w₁ inside other) :
    Fills [hole.1] inside inside w
      { w₁ with store := w₁.store.solveType hole.1 hole.2 whole } ∧
    ∀ other ∈ fresh ++ [last],
      Hole { w₁ with store := w₁.store.solveType hole.1 hole.2 whole } inside other := by
  subst hwhole
  have hlast : last ∈ fresh ++ [last] := List.mem_append_right _ (List.mem_singleton.2 rfl)
  refine h.solve (fresh ++ [last]) _ hfills hfresh (World.Fits.function (fun arg harg => ?_)
    (hfresh last hlast).2.fits) rfl fun hv => .inr ?_
  · obtain ⟨other, hother, rfl⟩ := List.mem_map.1 harg
    exact (hfresh other (List.mem_append_left _ hother)).2.fits
  · rcases Ty.mentions_apply.1 hv with ⟨k, hmem⟩ | ⟨arg, harg, hv⟩
    · rw [Ty.mentions] at hmem
      exact (List.not_mem_nil hmem).elim
    · rcases List.mem_append.1 harg with harg | harg
      · obtain ⟨other, hother, heq⟩ := mentions_holes ⟨arg, harg, hv⟩
        exact ⟨other, List.mem_append_left _ hother, heq⟩
      · rw [List.mem_singleton.1 harg] at hv
        exact ⟨last, hlast, Ty.mentions_unsolved.1 hv⟩

section Parts

variable {hole : Nat × Kind} (h : w.Kept) (hroom : Ty.Room w.store.types w.store.nextType inside)
  (hhole : Hole w inside hole)

include h hroom hhole

/-- A variable is solved by a type without parts. -/
theorem solveType_fills {type : Ty} (htype : Contained w inside type)
    (hsolid : Ty.shape.unknown type = false) :
    Ends (solveType hole.1 hole.2 type) w.store fun _ s' => ∃ w' inside', w'.store = s' ∧
      Fills [hole.1] inside inside' w w' :=
  Ends.modify ⟨_, inside, rfl, h.fills_solid hroom hhole.out hhole.final hhole.fits htype.fits
    htype.loose hsolid fun hv => .inl (htype.mentions hv)⟩

/-- Binders are replaced by fresh types in a frame of their own. -/
theorem quantified_fills {solve : Nat × Kind → Ty → Solve Unit} (hsolve : Filling solve)
    (side : Side) {binders : List Ty} {body : Ty} {kind : Kind}
    (htype : Contained w inside (.quantified binders body kind)) :
    Ends (withScope .instantiateType do
      let body ← instantiateBinders side binders body
      solve hole body) w.store fun _ s' => ∃ w' inside', w'.store = s' ∧
        Fills [hole.1] inside inside' w w' := by
  obtain ⟨hbinders, hbody, -⟩ := Ty.fits_quantified.1 htype.fits
  have hmentions : ∀ {v}, Ty.Mentions v body → Ty.Mentions v (.quantified binders body kind) :=
    fun ⟨k, hmem⟩ => ⟨k, by rw [Ty.mentions]; exact List.mem_append_right _ hmem⟩
  have hlater := w.later_pushed .instantiateType
  have hcontained : Contained (w.pushed .instantiateType) inside body :=
    ⟨hlater.fits hbody, htype.loose.of_mentions hmentions, fun hv => htype.mentions (hmentions hv)⟩
  have hhole' : Hole (w.pushed .instantiateType) inside hole :=
    ⟨hhole.final, hhole.out, hlater.fits hhole.fits⟩
  refine withScope_fills rfl h (Ends.bind ((instantiateBinders_fills side (h.pushed _) hroom
    (fun binder hbinder => hlater.fits (hbinders binder hbinder).2) hcontained).mono ?_))
  rintro body' _ ⟨w₁, inside₁, rfl, hfills, hbody'⟩
  refine (hsolve w₁ inside₁ hole body' hfills.kept hfills.room
    (hhole'.spared hfills List.not_mem_nil) hbody').mono ?_
  rintro _ _ ⟨w₂, inside₂, rfl, hfills'⟩
  exact ⟨w₂, inside₂, rfl, (hfills.mono (List.nil_subset _)).trans hfills' fun g hg => .inl hg⟩

/-- A variable is solved by a function between fresh variables, and these by the parameters and the
result of a function type. -/
theorem function_fills {solve : Side → Nat × Kind → Ty → Solve Unit}
    (hsolve : ∀ side, Filling (solve side)) (side : Side) {type result : Ty} {params : List Ty}
    (htype : Contained w inside type) (hfunction : type.function? = some (params, result)) :
    Ends (do
      let fresh ← params.mapM fun param => freshVariable param.kind
      let last ← freshVariable .type
      solveType hole.1 hole.2
        (Ty.function (fresh.map fun v => .unsolved v.1 v.2) (.unsolved last.1 last.2))
      (fresh.zip params).forM fun (hole, type) => do solve side.flip hole (← substituteType type)
      [(last, result)].forM fun (hole, type) => do solve side hole (← substituteType type))
      w.store fun _ s' => ∃ w' inside', w'.store = s' ∧ Fills [hole.1] inside inside' w w' := by
  obtain ⟨hparams, hresult⟩ := Ty.Fits.of_function? htype.fits hfunction
  obtain ⟨hparamMentions, hresultMentions⟩ := Ty.mentions_of_function? hfunction
  refine Ends.bind ((freshVariables_fills params h hroom hparams).mono ?_)
  rintro fresh _ ⟨w₁, rfl, hfills₁, hnodup, hfresh₁, -⟩
  refine Ends.bind ((freshResult_fills hfills₁ hfresh₁).mono ?_)
  rintro last _ ⟨w₂, rfl, hfills₂, hlast, hfresh₂⟩
  obtain ⟨hsolved, hholes⟩ := hhole.solve_function rfl hfills₂ hfresh₂
  refine Ends.bind (Ends.modify ?_)
  refine Ends.bind (((hsolve side.flip).parts fresh params hsolved.kept hsolved.room hnodup
    (fun hole hmem => hholes hole (List.mem_append_left _ hmem)) fun param hparam =>
      ⟨hsolved.toLater.fits (hparams param hparam), fun hv =>
        htype.mentions (hparamMentions param hparam hv)⟩).mono ?_)
  rintro _ _ ⟨w₃, inside₃, rfl, hfills₃⟩
  have hfilled := hsolved.trans hfills₃ fun g hg => by
    obtain ⟨other, hother, rfl⟩ := List.mem_map.1 hg
    exact .inr (hfresh₁ other hother).1
  have hlastMem : last ∈ fresh ++ [last] := List.mem_append_right _ (List.mem_singleton.2 rfl)
  refine ((hsolve side).parts [last] [result] hfilled.kept hfilled.room (by simp)
    (fun hole hmem => List.mem_singleton.1 hmem ▸ (hholes last hlastMem).spared hfills₃ hlast)
    fun other hother => ?_).mono ?_
  · rw [List.mem_singleton.1 hother]
    exact ⟨hfilled.toLater.fits hresult, fun hv =>
      hfilled.within _ (htype.mentions (hresultMentions hv))⟩
  · rintro _ _ ⟨w₄, inside₄, rfl, hfills₄⟩
    refine ⟨w₄, inside₄, rfl, hfilled.trans hfills₄ fun g hg => .inr ?_⟩
    rw [List.mem_singleton.1 hg]
    exact (hfresh₂ last hlastMem).1

/-- A variable is solved by an application to fresh variables, and these by the arguments. -/
theorem apply_fills {solve : Nat × Kind → Ty → Solve Unit} (hsolve : Filling solve) {head : Ty}
    {args : List Ty} {kind : Kind} (htype : Contained w inside (.apply head args kind)) :
    Ends (do
      let fresh ← args.mapM fun arg => freshVariable arg.kind
      solveType hole.1 hole.2 (.apply head (fresh.map fun v => .unsolved v.1 v.2) kind)
      (fresh.zip args).forM fun (hole, type) => do solve hole (← substituteType type))
      w.store fun _ s' => ∃ w' inside', w'.store = s' ∧ Fills [hole.1] inside inside' w w' := by
  obtain ⟨hhead, hargs, hkind⟩ := Ty.fits_apply.1 htype.fits
  have hheadMentions : ∀ {v}, Ty.Mentions v head → Ty.Mentions v (.apply head args kind) :=
    fun hv => Ty.mentions_apply.2 (.inl hv)
  refine Ends.bind ((freshVariables_fills args h hroom hargs).mono ?_)
  rintro fresh _ ⟨w₁, rfl, hfills, hnodup, hfresh, hloose⟩
  have hwhole : w₁.Fits (.apply head (fresh.map fun v => .unsolved v.1 v.2) kind) := by
    refine Ty.fits_apply.2 ⟨hfills.toLater.fits hhead, fun arg harg => ?_,
      hfills.toLater.live hkind⟩
    obtain ⟨other, hother, rfl⟩ := List.mem_map.1 harg
    exact (hfresh other hother).2.fits
  obtain ⟨hsolved, hholes⟩ := hhole.solve fresh _ hfills hfresh hwhole rfl fun hv =>
    (Ty.mentions_apply.1 hv).imp (fun hv => ⟨htype.mentions (hheadMentions hv), head,
      hloose (htype.loose.of_mentions hheadMentions), hv⟩) mentions_holes
  refine Ends.bind (Ends.modify ?_)
  refine (hsolve.parts fresh args hsolved.kept hsolved.room hnodup hholes fun arg harg =>
    ⟨hsolved.toLater.fits (hargs arg harg), fun hv =>
      htype.mentions (Ty.mentions_apply.2 (.inr ⟨arg, harg, hv⟩))⟩).mono ?_
  rintro _ _ ⟨w₂, inside₂, rfl, hfills'⟩
  refine ⟨w₂, inside₂, rfl, hsolved.trans hfills' fun g hg => .inr ?_⟩
  obtain ⟨other, hother, rfl⟩ := List.mem_map.1 hg
  exact (hfresh other hother).1

end Parts

/-- Variables are solved, to any depth, by types that do not leave what is inside. -/
theorem instantiateTypeWithin_filling (fuel : Nat) :
    ∀ side, Filling (instantiateTypeWithin fuel side) := by
  induction fuel with
  | zero => exact fun _ w inside hole _ h hroom _ _ => Ends.pure ⟨w, inside, rfl, h.fills hroom _⟩
  | succ fuel ih =>
    intro side w inside hole type h hroom hhole htype
    cases type with
    | var quantifier name kind => exact solveType_fills h hroom hhole htype rfl
    | constructor name kind => exact solveType_fills h hroom hhole htype rfl
    | builtIn type => exact solveType_fills h hroom hhole htype rfl
    | unsolved other kind =>
      obtain ⟨inside', hfills⟩ := h.fills_variable hroom hhole.out hhole.final hhole.fits
        (htype.mentions (Ty.mentions_unsolved.2 rfl)) htype.fits htype.loose
      exact Ends.modify ⟨_, inside', rfl, hfills⟩
    | quantified binders body kind => exact quantified_fills h hroom hhole (ih side) side.flip htype
    | apply head args kind =>
      rw [instantiateTypeWithin]
      dsimp only
      cases hfunction : (Ty.apply head args kind).function? with
      | some function => exact function_fills h hroom hhole ih side htype hfunction
      | none => exact apply_fills h hroom hhole (ih side) htype

end Solve

end PolyFront
