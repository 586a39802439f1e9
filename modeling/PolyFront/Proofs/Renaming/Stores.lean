import Mathlib.Data.List.Forall2
import PolyFront.Checking.Subtype
import PolyFront.Proofs.Renaming.Binders

/-!
# Renamed stores

A store in which the variables of all solutions are renamed.  When different names stay different,
what is done to the renamed store is the renamed result of what is done to the store.  The rules
follow the way runs are put together.
-/

namespace PolyFront

/-- The store with the variables of its solutions renamed. The frames are left as they are. -/
def Store.rename (f : String → String) (store : Store) : Store :=
  { store with types := store.types.map (Ty.rename f) }

namespace Store

variable {f : String → String} (hf : Function.Injective f) (store : Store)

theorem pickType_rename (a b : Ty) :
    (store.rename f).pickType (a.rename f) (b.rename f) = (store.pickType a b).rename f :=
  Ty.pickType_rename f _ a b

theorem handOn_rename (frame : Frame (Located Attributes)) :
    (store.rename f).handOn frame = (store.handOn frame).rename f := by
  simp only [handOn, rename]
  split <;> rfl

include hf

theorem substituteType_rename (type : Ty) :
    (store.rename f).substituteType (type.rename f) = (store.substituteType type).rename f :=
  Ty.substitute_rename hf store.types store.kinds type

theorem closeSolutions_rename : (store.rename f).closeSolutions =
    store.closeSolutions.rename f := by
  simp only [closeSolutions, rename, Store.mk.injEq, true_and, and_true]
  exact Partition.mapRepresentatives_map _ (fun _ => Ty.substitute_rename hf _ _) _

theorem solveKind_rename (id : Nat) (kind : Kind) :
    (store.rename f).solveKind id kind = (store.solveKind id kind).rename f := by
  rw [solveKind, solveKind, ← closeSolutions_rename hf]
  rfl

theorem solveType_rename (id : Nat) (kind : Kind) (type : Ty) :
    (store.rename f).solveType id kind (type.rename f) =
      (store.solveType id kind type).rename f := by
  have hunion : (store.types.map (Ty.rename f)).union (.unsolved id kind) (type.rename f)
      (store.rename f).pickType =
        (store.types.union (.unsolved id kind) type store.pickType).map (Ty.rename f) := by
    rw [← Partition.union_map (Ty.beq_rename hf) _ store.pickType_rename, Ty.rename_unsolved]
  rw [solveType, solveType, ← closeSolutions_rename hf]
  refine congrArg closeSolutions ?_
  simp only [rename, Store.mk.injEq, true_and, and_true]
  exact hunion

theorem forget_rename (frame : Frame (Located Attributes)) :
    (store.rename f).forget frame = (store.forget frame).rename f := by
  have hremove : ∀ (ids : List Nat) (types : Partition Ty),
      ids.foldl (fun types id => types.remove (.unsolved id .type) (store.rename f).pickType)
          (types.map (Ty.rename f)) =
        (ids.foldl (fun types id => types.remove (.unsolved id .type) store.pickType)
          types).map (Ty.rename f) := by
    intro ids
    induction ids with
    | nil => exact fun _ => rfl
    | cons id rest ih =>
      intro types
      rw [List.foldl_cons, List.foldl_cons, ← ih,
        ← Partition.remove_map (Ty.beq_rename hf) _ store.pickType_rename, Ty.rename_unsolved]
  simp only [forget, rename, Store.mk.injEq, true_and, and_true]
  exact ⟨rfl, hremove _ _⟩

end Store

/-- The names of the variables in the elements and the solutions of a store. -/
def Store.names (store : Store) : List String :=
  (store.types.elements ++ store.types.representatives).flatMap Ty.names

/-- A renaming that leaves the names of a store alone leaves the store alone. -/
theorem Store.rename_eq_self {f : String → String} {store : Store}
    (h : ∀ name ∈ store.names, f name = name) : store.rename f = store := by
  have hfixed : ∀ type ∈ store.types.elements ++ store.types.representatives,
      type.rename f = type := fun type htype =>
    Ty.rename_eq_self fun name hname => h name (List.mem_flatMap_of_mem htype hname)
  rw [List.forall_mem_append] at hfixed
  rw [rename, Partition.map_eq_self hfixed.1 hfixed.2]

namespace Solve

/-- The second run does to renamed stores what the first one does, with the renamed result. -/
def Mirrors {α β : Type} (f : String → String) (φ : α → β) (run : Solve α) (run' : Solve β) :
    Prop :=
  ∀ store : Store, run' (store.rename f) =
    match run store with
    | .ok a after => .ok (φ a) (after.rename f)
    | .error fault after => .error fault (after.rename f)

section Rules

variable {α α' β β' : Type} {f : String → String} {φ : α → α'} {ψ : β → β'}

theorem Mirrors.pure {a : α} {a' : α'} (h : a' = φ a) : Mirrors f φ (Pure.pure a) (Pure.pure a') :=
  fun _ => h ▸ rfl

theorem Mirrors.bind {run : Solve α} {run' : Solve α'} {next : α → Solve β}
    {next' : α' → Solve β'} (h : Mirrors f φ run run')
    (hnext : ∀ a, Mirrors f ψ (next a) (next' (φ a))) :
    Mirrors f ψ (run >>= next) (run' >>= next') := by
  intro store
  show EStateM.bind run' next' _ = match EStateM.bind run next store with
    | .ok a after => _
    | .error fault after => _
  rw [EStateM.bind, EStateM.bind, h store]
  cases run store with
  | ok a after => exact hnext a after
  | error fault after => rfl

theorem Mirrors.get : Mirrors f (Store.rename f) MonadState.get MonadState.get := fun _ => rfl

theorem Mirrors.modify {change change' : Store → Store}
    (h : ∀ store : Store, change' (store.rename f) = (change store).rename f) :
    Mirrors f id (modify change) (modify change') := by
  intro store
  show EStateM.Result.ok PUnit.unit (change' (store.rename f)) = _
  rw [h]
  rfl

theorem Mirrors.ite {c : Prop} [Decidable c] {run other : Solve α} {run' other' : Solve α'}
    (h : Mirrors f φ run run') (hother : Mirrors f φ other other') :
    Mirrors f φ (if c then run else other) (if c then run' else other') := by
  split
  · exact h
  · exact hother

theorem Mirrors.mapM {run : α → Solve β} {run' : α' → Solve β'} {items : List α}
    {items' : List α'}
    (h : List.Forall₂ (fun item item' => Mirrors f ψ (run item) (run' item')) items items') :
    Mirrors f (List.map ψ) (items.mapM run) (items'.mapM run') := by
  induction h with
  | nil => exact Mirrors.pure rfl
  | cons hitem _ ih =>
    rw [List.mapM_cons, List.mapM_cons]
    exact hitem.bind fun _ => ih.bind fun _ => Mirrors.pure rfl

theorem Mirrors.forM {run : α → Solve PUnit} {run' : α' → Solve PUnit} {items : List α}
    {items' : List α'}
    (h : List.Forall₂ (fun item item' => Mirrors f id (run item) (run' item')) items items') :
    Mirrors f id (items.forM run) (items'.forM run') := by
  induction h with
  | nil => exact Mirrors.pure rfl
  | cons hitem _ ih => exact Mirrors.bind hitem fun _ => ih

theorem Mirrors.foldlM {run : β → α → Solve β} {run' : β' → α' → Solve β'} {items : List α}
    {items' : List α'}
    (h : List.Forall₂ (fun item item' => ∀ b, Mirrors f ψ (run b item) (run' (ψ b) item'))
      items items') (start : β) :
    Mirrors f ψ (items.foldlM run start) (items'.foldlM run' (ψ start)) := by
  induction h generalizing start with
  | nil => exact Mirrors.pure rfl
  | cons hitem _ ih =>
    rw [List.foldlM_cons, List.foldlM_cons]
    exact (hitem start).bind ih

theorem Mirrors.allM {run : α → Solve Bool} {run' : α' → Solve Bool} {items : List α}
    {items' : List α'}
    (h : List.Forall₂ (fun item item' => Mirrors f id (run item) (run' item')) items items') :
    Mirrors f id (items.allM run) (items'.allM run') := by
  induction h with
  | nil => exact Mirrors.pure rfl
  | cons hitem _ ih =>
    refine Mirrors.bind hitem fun holds => ?_
    cases holds with
    | true => exact ih
    | false => exact Mirrors.pure rfl

/-- What is done to the stack of frames does not depend on the solutions. -/
theorem Mirrors.onStack (run : Run (Stack (Located Attributes)) α) :
    Mirrors f id (Solve.onStack run) (Solve.onStack run) := by
  intro store
  have hstack : (store.rename f).stack = store.stack := rfl
  simp only [Solve.onStack, Run.within, hstack]
  cases run store.stack <;> rfl

end Rules

/-! ## The operations on the store -/

section Operations

variable {f : String → String} (hf : Function.Injective f)

theorem pushScope_mirrors (kind : ScopeKind) : Mirrors f id (pushScope kind) (pushScope kind) :=
  Mirrors.modify fun _ => rfl

theorem putUnsolvedKind_mirrors (hole : Nat) :
    Mirrors f id (putUnsolvedKind hole) (putUnsolvedKind hole) :=
  Mirrors.bind (Mirrors.modify fun _ => rfl) fun _ => Mirrors.onStack _

theorem freshKind_mirrors : Mirrors f id freshKind freshKind := by
  refine Mirrors.bind Mirrors.get fun store => Mirrors.bind (Mirrors.modify fun _ =>
      rfl) fun _ => ?_
  exact (putUnsolvedKind_mirrors store.nextKind).bind fun _ => Mirrors.pure rfl

theorem substituteKind_mirrors (kind : Kind) :
    Mirrors f id (substituteKind kind) (substituteKind kind) :=
  Mirrors.get.bind fun _ => Mirrors.pure rfl

theorem kindFuel_mirrors (kinds : List Kind) : Mirrors f id (kindFuel kinds) (kindFuel kinds) :=
  Mirrors.get.bind fun _ => Mirrors.pure rfl

include hf

theorem substituteType_mirrors (type : Ty) :
    Mirrors f (Ty.rename f) (substituteType type) (substituteType (type.rename f)) :=
  Mirrors.get.bind fun store => Mirrors.pure (store.substituteType_rename hf type)

theorem putUnsolvedType_mirrors (hole : Nat) (kind : Kind) :
    Mirrors f id (putUnsolvedType hole kind) (putUnsolvedType hole kind) := by
  refine (Mirrors.modify fun store => ?_).bind fun _ => Mirrors.onStack _
  have hadd := Partition.add_map (Ty.beq_rename hf) store.types (.unsolved hole kind)
  rw [Ty.rename_unsolved] at hadd
  simp only [Store.rename, hadd]

theorem freshVariable_mirrors (kind : Kind) :
    Mirrors f id (freshVariable kind) (freshVariable kind) := by
  refine Mirrors.bind Mirrors.get fun store => Mirrors.bind (Mirrors.modify fun _ =>
      rfl) fun _ => ?_
  exact (putUnsolvedType_mirrors hf store.nextType kind).bind fun _ => Mirrors.pure rfl

theorem freshType_mirrors (kind : Kind) :
    Mirrors f (Ty.rename f) (freshType kind) (freshType kind) :=
  (freshVariable_mirrors hf kind).bind fun _ => Mirrors.pure (Ty.rename_unsolved f _ _).symm

theorem solveKind_mirrors (hole : Nat) (kind : Kind) :
    Mirrors f id (solveKind hole kind) (solveKind hole kind) :=
  Mirrors.modify fun store => store.solveKind_rename hf hole kind

theorem solveType_mirrors (hole : Nat) (kind : Kind) (type : Ty) :
    Mirrors f id (solveType hole kind type) (solveType hole kind (type.rename f)) :=
  Mirrors.modify fun store => store.solveType_rename hf hole kind type

theorem popScope_mirrors (tag : ScopeTag) : Mirrors f id (popScope tag) (popScope tag) := by
  unfold popScope
  split
  · refine Mirrors.bind (Mirrors.modify fun store => store.closeSolutions_rename hf) fun _ => ?_
    refine (Mirrors.onStack _).bind fun frame => ?_
    refine Mirrors.bind (Mirrors.modify fun store => store.forget_rename hf frame) fun _ => ?_
    exact Mirrors.pure rfl
  · refine (Mirrors.onStack _).bind fun frame => ?_
    refine Mirrors.bind (Mirrors.modify fun store => store.handOn_rename frame) fun _ => ?_
    exact Mirrors.pure rfl

theorem withScope_mirrors {α β : Type} {φ : α → β} {run : Solve α} {run' : Solve β}
    (kind : ScopeKind) (h : Mirrors f φ run run') :
    Mirrors f φ (withScope kind run) (withScope kind run') :=
  (pushScope_mirrors kind).bind fun _ => h.bind fun _ =>
    (popScope_mirrors hf kind.tag).bind fun _ => Mirrors.pure rfl

end Operations

end Solve

end PolyFront
