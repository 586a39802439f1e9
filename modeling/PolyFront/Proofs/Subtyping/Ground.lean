import PolyFront.Proofs.Faultless.Run
import PolyFront.Proofs.Subtyping.Paths
import PolyFront.Proofs.Subtyping.Stores

/-!
# Subtypes of ground types

The declared subtype relation is a preorder.  A chain never passes from a function type to another
application, because an arrow is related to itself only.  A check of first-order types whose
variables stand for themselves follows the declaration as long as it meets a variable only on both
sides at once.  It does so when nothing is unsolved and when the types are related already, and
then it decides the relation and changes nothing.
-/

namespace PolyFront

namespace Ty

/-! ## A preorder -/

section Shapes

variable {quantifier : Quantifier} {name : String} {constructor : QualifiedName} {id : Nat}
  {type : BuiltIn} {head head' result result' sub sup : Ty} {args args' params params' : List Ty}
  {kind kind' : Kind}

theorem subtypeOf_var_iff : SubtypeOf (.var quantifier name kind) sup ↔
    ∃ kind', sup = .var quantifier name kind' := by
  constructor
  · intro h
    cases h with
    | var => exact ⟨_, rfl⟩
    | function hsub => cases hsub
  · rintro ⟨kind', rfl⟩
    exact .var _ _ _ _

theorem subtypeOf_unsolved_iff :
    SubtypeOf (.unsolved id kind) sup ↔ ∃ kind', sup = .unsolved id kind' := by
  constructor
  · intro h
    cases h with
    | unsolved => exact ⟨_, rfl⟩
    | function hsub => cases hsub
  · rintro ⟨kind', rfl⟩
    exact .unsolved _ _ _

theorem subtypeOf_constructor_iff : SubtypeOf (.constructor constructor kind) sup ↔
    ∃ kind', sup = .constructor constructor kind' := by
  constructor
  · intro h
    cases h with
    | constructor => exact ⟨_, rfl⟩
    | function hsub => cases hsub
  · rintro ⟨kind', rfl⟩
    exact .constructor _ _ _

theorem subtypeOf_builtIn_iff : SubtypeOf (.builtIn type) sup ↔
    ∃ type', sup = .builtIn type' ∧ type.isSubtypeOf type' = true := by
  constructor
  · intro h
    cases h with
    | builtIn h => exact ⟨_, rfl, h⟩
    | function hsub => cases hsub
  · rintro ⟨type', rfl, h⟩
    exact .builtIn h

theorem not_subtypeOf_quantified {binders : List Ty} {body : Ty} :
    ¬SubtypeOf (.quantified binders body kind) sup := by
  intro h
  cases h with
  | function hsub => cases hsub

theorem exists_apply_of_function? {function : List Ty × Ty} (h : sub.function? = some function) :
    ∃ head args kind, sub = .apply head args kind := by
  cases sub with
  | apply head args kind => exact ⟨_, _, _, rfl⟩
  | _ => cases h

/-- Only applications are related to applications, and they have as many arguments. -/
theorem SubtypeOf.of_apply (h : SubtypeOf (.apply head args kind) sup) :
    ∃ head' args' kind', sup = .apply head' args' kind' ∧ args.length = args'.length := by
  cases h with
  | apply _ hlength => exact ⟨_, _, _, rfl, hlength⟩
  | function hsub hsup hlength =>
    obtain ⟨head', args', kind', rfl⟩ := exists_apply_of_function? hsup
    obtain rfl := Solve.function?_eq_some hsub
    obtain rfl := Solve.function?_eq_some hsup
    exact ⟨_, _, _, rfl, by simp [hlength]⟩

/-- Of two related types both or none are function types. -/
theorem SubtypeOf.isFunction_iff (h : SubtypeOf sub sup) : sub.isFunction = sup.isFunction := by
  cases h with
  | function hsub hsup => rw [isFunction, isFunction, hsub, hsup]; rfl
  | apply _ hlength hhead => exact SubtypeOf.isFunction_eq (hlength ▸ hhead.arrow _) hlength
  | _ => rfl

/-- Function types are related when their arguments and their results are. -/
theorem subtypeOf_functions (hsub : sub.function? = some (params, result))
    (hsup : sup.function? = some (params', result')) : SubtypeOf sub sup ↔
      params.length = params'.length ∧ (∀ pair ∈ params.zip params', SubtypeOf pair.2 pair.1) ∧
        SubtypeOf result result' := by
  constructor
  · intro h
    cases h with
    | function hsub' hsup' hlength hparams hresult =>
      rw [hsub] at hsub'
      rw [hsup] at hsup'
      cases hsub'
      cases hsup'
      exact ⟨hlength, hparams, hresult⟩
    | apply hother =>
      rw [isFunction, isFunction, hsub, hsup] at hother
      cases hother <;> contradiction
    | _ => cases hsub
  · rintro ⟨hlength, hparams, hresult⟩
    exact .function hsub hsup hlength hparams hresult

/-- Other applications are related when their heads and their arguments are. -/
theorem subtypeOf_heads (hother : (Ty.apply head args kind).isFunction = false ∨
    (Ty.apply head' args' kind').isFunction = false) :
    SubtypeOf (.apply head args kind) (.apply head' args' kind') ↔
      args.length = args'.length ∧ SubtypeOf head head' ∧
        ∀ pair ∈ args.zip args', SubtypeOf pair.1 pair.2 := by
  constructor
  · intro h
    cases h with
    | function hsub hsup =>
      rw [isFunction, isFunction, hsub, hsup] at hother
      cases hother <;> contradiction
    | apply _ hlength hhead hargs => exact ⟨hlength, hhead, hargs⟩
  · rintro ⟨hlength, hhead, hargs⟩
    exact .apply hother hlength hhead hargs

end Shapes

/-- Related items of a list and the next, and of that list and a third one, stand at the same
place. -/
theorem exists_between {lower middle upper : List Ty} (hlength : lower.length = middle.length)
    {a c : Ty} (h : (a, c) ∈ lower.zip upper) (hlength' : middle.length = upper.length) :
    ∃ b ∈ middle, (a, b) ∈ lower.zip middle ∧ (b, c) ∈ middle.zip upper := by
  obtain ⟨i, hi, heq⟩ := List.mem_iff_getElem.1 h
  rw [List.length_zip] at hi
  rw [List.getElem_zip, Prod.mk.injEq] at heq
  obtain ⟨rfl, rfl⟩ := heq
  have hmiddle : i < middle.length := by omega
  refine ⟨middle[i], List.getElem_mem hmiddle, ?_, ?_⟩
  · exact List.mem_iff_getElem.2 ⟨i, by rw [List.length_zip]; omega, List.getElem_zip⟩
  · exact List.mem_iff_getElem.2 ⟨i, by rw [List.length_zip]; omega, List.getElem_zip⟩

/-- The induction is on the type in the middle, which is the same on both sides of an arrow. -/
theorem SubtypeOf.trans {a b c : Ty} (hab : SubtypeOf a b) (hbc : SubtypeOf b c) :
    SubtypeOf a c := by
  induction b generalizing a c with
  | var quantifier name kind =>
    obtain ⟨kind', rfl⟩ := subtypeOf_var_iff.1 hbc
    cases hab with
    | var => exact .var _ _ _ _
    | function _ hsup => cases hsup
  | unsolved id kind =>
    obtain ⟨kind', rfl⟩ := subtypeOf_unsolved_iff.1 hbc
    cases hab with
    | unsolved => exact .unsolved _ _ _
    | function _ hsup => cases hsup
  | constructor name kind =>
    obtain ⟨kind', rfl⟩ := subtypeOf_constructor_iff.1 hbc
    cases hab with
    | constructor => exact .constructor _ _ _
    | function _ hsup => cases hsup
  | builtIn type =>
    obtain ⟨upper, rfl, hupper⟩ := subtypeOf_builtIn_iff.1 hbc
    obtain ⟨lower, rfl, hlower⟩ := hab.of_builtIn
    exact .builtIn (BuiltIn.isSubtypeOf_trans hlower hupper)
  | quantified binders body kind => exact (not_subtypeOf_quantified hbc).elim
  | apply head args kind ihHead ihArgs =>
    have hlower := hab.isFunction_iff
    have hupper := hbc.isFunction_iff
    obtain ⟨headC, argsC, kindC, rfl, -⟩ := hbc.of_apply
    obtain ⟨headA, argsA, kindA, rfl⟩ : ∃ headA argsA kindA, a = .apply headA argsA kindA := by
      cases hab with
      | apply => exact ⟨_, _, _, rfl⟩
      | function hsub => exact exists_apply_of_function? hsub
    cases hfunction : (Ty.apply head args kind).function? with
    | some function =>
      have hsome := Option.isSome_of_eq_some hfunction
      obtain ⟨⟨paramsA, resultA⟩, hA⟩ := Option.isSome_iff_exists.1 (hlower.trans hsome)
      obtain ⟨⟨paramsC, resultC⟩, hC⟩ := Option.isSome_iff_exists.1 (hupper.symm.trans hsome)
      obtain ⟨params, result⟩ := function
      obtain rfl := Solve.function?_eq_some hfunction
      obtain ⟨hlength, hparams, hresult⟩ := (subtypeOf_functions hA hfunction).1 hab
      obtain ⟨hlength', hparams', hresult'⟩ := (subtypeOf_functions hfunction hC).1 hbc
      refine (subtypeOf_functions hA hC).2 ⟨hlength.trans hlength', fun pair hpair => ?_, ?_⟩
      · obtain ⟨param, hmem, hlow, hup⟩ := exists_between hlength hpair hlength'
        exact ihArgs param (List.mem_append_left _ hmem) (hparams' _ hup) (hparams _ hlow)
      · exact ihArgs result (by simp) hresult hresult'
    | none =>
      have hnone := isFunction_eq_false.2 hfunction
      obtain ⟨hlength, hhead, hargs⟩ := (subtypeOf_heads (.inr hnone)).1 hab
      obtain ⟨hlength', hhead', hargs'⟩ := (subtypeOf_heads (.inl hnone)).1 hbc
      refine .apply (.inl (hlower.trans hnone)) (hlength.trans hlength') (ihHead hhead hhead') ?_
      intro pair hpair
      obtain ⟨arg, hmem, hlow, hup⟩ := exists_between hlength hpair hlength'
      exact ihArgs arg hmem (hargs _ hlow) (hargs' _ hup)

/-! ## Ground types -/

/-- Nothing is quantified and nothing is unsolved. -/
def Ground : Ty → Prop
  | .var _ _ kind => kind.unknowns = []
  | .unsolved _ _ => False
  | .constructor _ kind => kind.unknowns = []
  | .apply head args kind => head.Ground ∧ (∀ arg ∈ args, arg.Ground) ∧ kind.unknowns = []
  | .quantified _ _ _ => False
  | .builtIn _ => True

theorem ground_apply {head : Ty} {args : List Ty} {kind : Kind} :
    Ground (.apply head args kind) ↔
      head.Ground ∧ (∀ arg ∈ args, arg.Ground) ∧ kind.unknowns = [] := by
  rw [Ground]

theorem Ground.isUnsolved {type : Ty} (h : type.Ground) : type.isUnsolved = false := by
  cases type with
  | unsolved id kind =>
    rw [Ground] at h
    exact h.elim
  | _ => rfl

theorem Ground.firstOrder {type : Ty} (h : type.Ground) : type.FirstOrder := by
  induction type with
  | var quantifier name kind => exact firstOrder_var _ _ _
  | constructor name kind => exact firstOrder_constructor _ _
  | builtIn type => exact firstOrder_builtIn _
  | unsolved id kind =>
    rw [Ground] at h
    exact h.elim
  | quantified binders body kind =>
    rw [Ground] at h
    exact h.elim
  | apply head args kind ihHead ihArgs =>
    obtain ⟨hhead, hargs, -⟩ := ground_apply.1 h
    exact firstOrder_apply.2 ⟨hhead.isUnsolved, ihHead hhead,
      fun arg harg => ihArgs arg harg (hargs arg harg)⟩

theorem Ground.not_mentions {type : Ty} (h : type.Ground) (id : Nat) : ¬type.Mentions id := by
  induction type with
  | var quantifier name kind => simp [Mentions, mentions]
  | constructor name kind => simp [Mentions, mentions]
  | builtIn type => simp [Mentions, mentions]
  | unsolved id kind =>
    rw [Ground] at h
    exact h.elim
  | quantified binders body kind =>
    rw [Ground] at h
    exact h.elim
  | apply head args kind ihHead ihArgs =>
    obtain ⟨hhead, hargs, -⟩ := ground_apply.1 h
    rw [mentions_apply]
    rintro (hmem | ⟨arg, harg, hmem⟩)
    · exact ihHead hhead hmem
    · exact ihArgs arg harg (hargs arg harg) hmem

end Ty

namespace Store

variable {s : Store} {type a b : Ty}

/-- A first-order type whose variables stand for themselves. -/
structure Fixed (s : Store) (type : Ty) : Prop where
  firstOrder : type.FirstOrder
  mentioned : ∀ id, type.Mentions id → s.solution id = .unsolved id .type

theorem fixed_of_ground (s : Store) (h : type.Ground) : s.Fixed type :=
  ⟨h.firstOrder, fun id hmem => (h.not_mentions id hmem).elim⟩

theorem bare_expand {types : Partition Ty} {id : Nat}
    (h : Ty.solutionOf types id = .unsolved id .type)
    (kinds : Partition Kind) (fuel : Nat) (kind : Kind) :
    (Ty.expand types kinds fuel [] id kind).bare = .unsolved id .type := by
  cases fuel with
  | zero => rw [Ty.expand, Ty.bare_unsolved]
  | succ fuel =>
    obtain ⟨kind', hfind⟩ := Ty.bare_eq_unsolved ((Ty.bare_find_unsolved types id kind).trans h)
    rw [Ty.expand]
    simp only [List.not_mem_nil, if_false, hfind, Ty.bare_unsolved]

namespace Fixed

theorem expand (h : s.Fixed type) {id : Nat} {kind : Kind} (hmem : (id, kind) ∈ type.mentions) :
    (Ty.expand s.types s.kinds s.types.size [] id kind).bare = .unsolved id .type :=
  bare_expand (h.mentioned id ⟨kind, hmem⟩) _ _ _

theorem bare_substituteType (h : s.Fixed type) : (s.substituteType type).bare = type.bare := by
  have hsubst : type.bare.subst (fun id => .unsolved id .type) = type.bare :=
    Ty.bare_subst_self fun _ _ => rfl
  refine Eq.trans ?_ hsubst
  exact h.firstOrder.bare_bind fun _ _ hmem => h.expand hmem

theorem substituteType (h : s.Fixed type) : s.Fixed (s.substituteType type) where
  firstOrder := h.firstOrder.bind fun _ _ hmem => by
    obtain ⟨kind, heq⟩ := Ty.bare_eq_unsolved (h.expand hmem)
    rw [heq]
    exact Ty.firstOrder_unsolved _ _
  mentioned id hmem := by
    rw [← Ty.mentions_bare_iff, h.bare_substituteType, Ty.mentions_bare_iff] at hmem
    exact h.mentioned id hmem

end Fixed

/-- A fixed type of limited size. -/
def Sized (s : Store) (limit : Nat) (type : Ty) : Prop := s.Fixed type ∧ type.weight ≤ limit

namespace Sized

variable {limit : Nat} {function : Ty} {args : List Ty} {kind : Kind}

theorem substituteType (h : s.Sized limit type) : s.Sized limit (s.substituteType type) := by
  refine ⟨h.1.substituteType, ?_⟩
  rw [← Ty.weight_bare, h.1.bare_substituteType, Ty.weight_bare]
  exact h.2

theorem head (h : s.Sized (limit + 1) (.apply function args kind)) : s.Sized limit function := by
  obtain ⟨hfixed, hle⟩ := h
  rw [Ty.weight] at hle
  exact ⟨⟨(Ty.firstOrder_apply.1 hfixed.firstOrder).2.1,
    fun id hmem => hfixed.mentioned id (Ty.mentions_apply.2 (.inl hmem))⟩, by omega⟩

theorem arg (h : s.Sized (limit + 1) (.apply function args kind)) {arg : Ty} (harg : arg ∈ args) :
    s.Sized limit arg := by
  obtain ⟨hfixed, hle⟩ := h
  have hweight := Ty.weight_le_weightList harg
  rw [Ty.weight] at hle
  exact ⟨⟨(Ty.firstOrder_apply.1 hfixed.firstOrder).2.2 arg harg,
    fun id hmem => hfixed.mentioned id (Ty.mentions_apply.2 (.inr ⟨arg, harg, hmem⟩))⟩, by omega⟩

end Sized

end Store

namespace Solve

open Store Ty

variable {s : Store} {P Q : Prop} {a b : Ty}

/-- The run leaves the store as it is and answers whether the statement holds. -/
def Decides (s : Store) (run : Solve Bool) (P : Prop) : Prop :=
  ∃ answer, run s = .ok answer s ∧ (answer = true ↔ P)

namespace Decides

theorem pure {answer : Bool} (h : answer = true ↔ P) : Decides s (Pure.pure answer) P :=
  ⟨answer, rfl, h⟩

theorem never (h : ¬P) : Decides s (Pure.pure false) P :=
  .pure ⟨fun hfalse => Bool.noConfusion hfalse, fun hp => (h hp).elim⟩

theorem congr {run : Solve Bool} (h : Decides s run P) (hiff : P ↔ Q) : Decides s run Q := by
  obtain ⟨answer, hrun, hanswer⟩ := h
  exact ⟨answer, hrun, hanswer.trans hiff⟩

theorem substitute {type : Ty} {next : Ty → Solve Bool}
    (h : Decides s (next (s.substituteType type)) P) :
    Decides s (Solve.substituteType type >>= next) P := h

/-- What comes second is carried out only when the first statement holds. -/
theorem bind {first : Solve Bool} {next : Bool → Solve Bool} (hfirst : Decides s first P)
    (hfalse : next false = Pure.pure false) (htrue : P → Decides s (next true) Q) :
    Decides s (first >>= next) (P ∧ Q) := by
  obtain ⟨answer, hrun, hanswer⟩ := hfirst
  cases answer with
  | false =>
    have hnot : ¬P := fun hp => Bool.noConfusion (hanswer.2 hp)
    refine ⟨false, (Run.ok_bind hrun).trans (congrFun hfalse s), ?_⟩
    exact ⟨fun h => Bool.noConfusion h, fun h => (hnot h.1).elim⟩
  | true =>
    have hp : P := hanswer.1 rfl
    obtain ⟨answer', hrun', hanswer'⟩ := htrue hp
    refine ⟨answer', (Run.ok_bind hrun).trans hrun', hanswer'.trans ?_⟩
    exact ⟨fun hq => ⟨hp, hq⟩, And.right⟩

theorem allM {α : Type} {check : α → Solve Bool} {holds : α → Prop} {items : List α}
    (h : ∀ item ∈ items, Decides s (check item) (holds item)) :
    Decides s (items.allM check) (∀ item ∈ items, holds item) := by
  induction items with
  | nil => exact .pure (by simp)
  | cons item rest ih =>
    have hrest := ih fun other hother => h other (List.mem_cons_of_mem _ hother)
    have hall : Decides s ((item :: rest).allM check)
        (holds item ∧ ∀ other ∈ rest, holds other) := by
      refine Decides.bind (h item List.mem_cons_self) ?_ fun _ => hrest
      rfl
    exact hall.congr List.forall_mem_cons.symm

end Decides

/-- No variable meets anything but itself when the types are compared. -/
def Comparable (a b : Ty) : Prop :=
  SubtypeOf a b ∨ (∀ id, ¬a.Mentions id) ∧ ∀ id, ¬b.Mentions id

theorem Comparable.not_unsolved (h : Comparable a b) (hne : ¬SubtypeOf a b) :
    a.isUnsolved = false ∧ b.isUnsolved = false := by
  have hclosed := h.resolve_left hne
  constructor
  · cases a with
    | unsolved id kind => exact (hclosed.1 id (mentions_unsolved.2 rfl)).elim
    | _ => rfl
  · cases b with
    | unsolved id kind => exact (hclosed.2 id (mentions_unsolved.2 rfl)).elim
    | _ => rfl

theorem Comparable.of_bare {a' b' : Ty} (h : Comparable a b) (ha : a'.bare = a.bare)
    (hb : b'.bare = b.bare) : Comparable a' b' := by
  rcases h with hsub | ⟨hclosed, hclosed'⟩
  · refine .inl (subtypeOf_of_bare ?_)
    rw [ha, hb]
    exact hsub.bare
  · refine .inr ⟨fun id hmem => hclosed id ?_, fun id hmem => hclosed' id ?_⟩
    · rwa [← mentions_bare_iff, ← ha, mentions_bare_iff]
    · rwa [← mentions_bare_iff, ← hb, mentions_bare_iff]

/-- Types that are alike up to their kinds are related to the same types. -/
theorem subtypeOf_congr {a' b' : Ty} (ha : a'.bare = a.bare) (hb : b'.bare = b.bare) :
    SubtypeOf a' b' ↔ SubtypeOf a b := by
  constructor
  · intro h
    refine subtypeOf_of_bare ?_
    rw [← ha, ← hb]
    exact h.bare
  · intro h
    refine subtypeOf_of_bare ?_
    rw [ha, hb]
    exact h.bare

/-- A check that has the depth of the substituted types decides whether they are related. -/
def DecidesWithin (s : Store) (fuel : Nat) (check : Ty → Ty → Solve Bool) : Prop :=
  ∀ a b, s.Sized fuel (s.substituteType a) → s.Sized fuel (s.substituteType b) →
    Comparable (s.substituteType a) (s.substituteType b) →
      Decides s (check a b) (SubtypeOf (s.substituteType a) (s.substituteType b))

theorem DecidesWithin.fixed {fuel : Nat} {check : Ty → Ty → Solve Bool}
    (h : DecidesWithin s fuel check) (ha : s.Sized fuel a) (hb : s.Sized fuel b)
    (hcomparable : Comparable a b) : Decides s (check a b) (SubtypeOf a b) := by
  have hbare := ha.1.bare_substituteType
  have hbare' := hb.1.bare_substituteType
  exact (h a b ha.substituteType hb.substituteType (hcomparable.of_bare hbare hbare')).congr
    (subtypeOf_congr hbare hbare')

section Apply

variable {fuel : Nat} {head head' : Ty} {args args' : List Ty} {kind kind' : Kind}

theorem Comparable.of_functions {params params' : List Ty} {result result' : Ty}
    (h : Comparable (.apply head args kind) (.apply head' args' kind'))
    (hsub : (Ty.apply head args kind).function? = some (params, result))
    (hsup : (Ty.apply head' args' kind').function? = some (params', result')) :
    (∀ pair ∈ params.zip params', Comparable pair.2 pair.1) ∧ Comparable result result' := by
  rcases h with h | ⟨hclosed, hclosed'⟩
  · obtain ⟨-, hparams, hresult⟩ := (subtypeOf_functions hsub hsup).1 h
    exact ⟨fun pair hpair => .inl (hparams pair hpair), .inl hresult⟩
  · obtain rfl := function?_eq_some hsub
    obtain rfl := function?_eq_some hsup
    have harg : ∀ arg ∈ params ++ [result], ∀ id, ¬arg.Mentions id := fun arg harg id hmem =>
      hclosed id (mentions_apply.2 (.inr ⟨arg, harg, hmem⟩))
    have harg' : ∀ arg ∈ params' ++ [result'], ∀ id, ¬arg.Mentions id := fun arg harg id hmem =>
      hclosed' id (mentions_apply.2 (.inr ⟨arg, harg, hmem⟩))
    refine ⟨fun pair hpair => ?_, .inr ⟨harg _ (by simp), harg' _ (by simp)⟩⟩
    obtain ⟨hleft, hright⟩ := List.of_mem_zip hpair
    exact .inr ⟨harg' _ (List.mem_append_left _ hright), harg _ (List.mem_append_left _ hleft)⟩

theorem Comparable.of_heads (h : Comparable (.apply head args kind) (.apply head' args' kind'))
    (hother : (Ty.apply head args kind).isFunction = false ∨
      (Ty.apply head' args' kind').isFunction = false) :
    Comparable head head' ∧ ∀ pair ∈ args.zip args', Comparable pair.1 pair.2 := by
  rcases h with h | ⟨hclosed, hclosed'⟩
  · obtain ⟨-, hhead, hargs⟩ := (subtypeOf_heads hother).1 h
    exact ⟨.inl hhead, fun pair hpair => .inl (hargs pair hpair)⟩
  · refine ⟨.inr ⟨fun id hmem => hclosed id (mentions_apply.2 (.inl hmem)),
      fun id hmem => hclosed' id (mentions_apply.2 (.inl hmem))⟩, fun pair hpair => ?_⟩
    obtain ⟨hleft, hright⟩ := List.of_mem_zip hpair
    exact .inr ⟨fun id hmem => hclosed id (mentions_apply.2 (.inr ⟨_, hleft, hmem⟩)),
      fun id hmem => hclosed' id (mentions_apply.2 (.inr ⟨_, hright, hmem⟩))⟩

theorem checkHeads_decides {check : Ty → Ty → Solve Bool} (hcheck : DecidesWithin s fuel check)
    (ha : s.Sized (fuel + 1) (.apply head args kind))
    (hb : s.Sized (fuel + 1) (.apply head' args' kind'))
    (hcomparable : Comparable (.apply head args kind) (.apply head' args' kind'))
    (hother : (Ty.apply head args kind).isFunction = false ∨
      (Ty.apply head' args' kind').isFunction = false) (hlength : args.length = args'.length) :
    Decides s (do
        if ← check head head' then
          (args.zip args').allM fun (arg, arg') => check arg arg'
        else pure false) (SubtypeOf (.apply head args kind) (.apply head' args' kind')) := by
  obtain ⟨hhead, hargs⟩ := hcomparable.of_heads hother
  rw [subtypeOf_heads hother, and_iff_right hlength]
  refine Decides.bind (hcheck.fixed ha.head hb.head hhead) rfl fun _ => Decides.allM ?_
  intro pair hpair
  obtain ⟨hleft, hright⟩ := List.of_mem_zip hpair
  exact hcheck.fixed (ha.arg hleft) (hb.arg hright) (hargs pair hpair)

theorem checkApply_decides {check : Ty → Ty → Solve Bool} (hcheck : DecidesWithin s fuel check)
    (ha : s.Sized (fuel + 1) (.apply head args kind))
    (hb : s.Sized (fuel + 1) (.apply head' args' kind'))
    (hcomparable : Comparable (.apply head args kind) (.apply head' args' kind')) :
    Decides s (if args.length = args'.length then
        match (Ty.apply head args kind).function?, (Ty.apply head' args' kind').function? with
        | some (params, result), some (params', result') => do
          let matched ← (params.zip params').allM fun (param, param') => check param' param
          if matched then check result result' else pure false
        | _, _ => do
          if ← check head head' then
            (args.zip args').allM fun (arg, arg') => check arg arg'
          else pure false
      else pure false) (SubtypeOf (.apply head args kind) (.apply head' args' kind')) := by
  split
  · rename_i hlength
    cases hsub : (Ty.apply head args kind).function? with
    | none =>
      exact checkHeads_decides hcheck ha hb hcomparable (.inl (isFunction_eq_false.2 hsub)) hlength
    | some function =>
      cases hsup : (Ty.apply head' args' kind').function? with
      | none =>
        exact checkHeads_decides hcheck ha hb hcomparable
            (.inr (isFunction_eq_false.2 hsup)) hlength
      | some function' =>
        obtain ⟨params, result⟩ := function
        obtain ⟨params', result'⟩ := function'
        obtain ⟨hparams, hresult⟩ := hcomparable.of_functions hsub hsup
        obtain rfl := function?_eq_some hsub
        obtain rfl := function?_eq_some hsup
        have hcount : params.length = params'.length := by simpa using hlength
        rw [subtypeOf_functions hsub hsup, and_iff_right hcount]
        refine Decides.bind (Decides.allM fun pair hpair => ?_) rfl fun _ => ?_
        · obtain ⟨hleft, hright⟩ := List.of_mem_zip hpair
          exact hcheck.fixed (hb.arg (List.mem_append_left _ hright))
            (ha.arg (List.mem_append_left _ hleft)) (hparams pair hpair)
        · exact hcheck.fixed (ha.arg (by simp)) (hb.arg (by simp)) hresult
  · rename_i hlength
    refine .never fun hsub => ?_
    obtain ⟨_, _, _, heq, hcount⟩ := hsub.of_apply
    cases heq
    exact hlength hcount

end Apply

/-- A check decides whether the substituted types are related as soon as its depth is theirs. -/
theorem checkSubTypeWithin_decides (fuel : Nat) :
    DecidesWithin s fuel (checkSubTypeWithin fuel) := by
  induction fuel with
  | zero =>
    intro a b ha _ _
    have hpos := (s.substituteType a).weight_pos
    have hle := ha.2
    omega
  | succ fuel ih =>
    intro a b ha hb hcomparable
    refine .substitute (.substitute ?_)
    generalize s.substituteType a = a at ha hcomparable ⊢
    generalize s.substituteType b = b at hb hcomparable ⊢
    split
    · exact (not_firstOrder_quantified _ _ _ hb.1.firstOrder).elim
    · exact (not_firstOrder_quantified _ _ _ ha.1.firstOrder).elim
    · -- A variable meets itself.
      rename_i id kind _
      have hsub : SubtypeOf (.unsolved id kind) b := by
        by_contra hne
        cases (hcomparable.not_unsolved hne).1
      obtain ⟨kind', rfl⟩ := subtypeOf_unsolved_iff.1 hsub
      rw [if_pos (unsolved_beq.2 rfl)]
      exact .pure (iff_of_true rfl hsub)
    · rename_i id kind _ hne
      have hsub : SubtypeOf a (.unsolved id kind) := by
        by_contra hnot
        cases (hcomparable.not_unsolved hnot).2
      cases hsub with
      | unsolved => exact (hne _ _ rfl).elim
      | function _ hsup => cases hsup
    · refine .pure ?_
      rw [Bool.and_eq_true, beq_iff_eq, beq_iff_eq]
      constructor
      · rintro ⟨rfl, rfl⟩
        exact .var _ _ _ _
      · intro hsub
        obtain ⟨_, heq⟩ := subtypeOf_var_iff.1 hsub
        cases heq
        exact ⟨rfl, rfl⟩
    · refine .pure ?_
      rw [subtypeOf_builtIn_iff]
      simp
    · refine .pure ?_
      rw [beq_iff_eq]
      constructor
      · rintro rfl
        exact .constructor _ _ _
      · intro hsub
        obtain ⟨_, heq⟩ := subtypeOf_constructor_iff.1 hsub
        cases heq
        rfl
    · exact checkApply_decides ih ha hb hcomparable
    · rename_i hunsolved _ _ hvar hbuiltIn hconstructor happly
      refine .never fun hsub => ?_
      cases a with
      | var quantifier name kind =>
        obtain ⟨_, rfl⟩ := subtypeOf_var_iff.1 hsub
        exact hvar _ _ _ _ _ _ rfl rfl
      | unsolved id kind => exact hunsolved _ _ rfl
      | constructor name kind =>
        obtain ⟨_, rfl⟩ := subtypeOf_constructor_iff.1 hsub
        exact hconstructor _ _ _ _ rfl rfl
      | apply head args kind =>
        obtain ⟨_, _, _, rfl, -⟩ := hsub.of_apply
        exact happly _ _ _ _ _ _ rfl rfl
      | quantified binders body kind => exact not_subtypeOf_quantified hsub
      | builtIn type =>
        obtain ⟨_, rfl, -⟩ := subtypeOf_builtIn_iff.1 hsub
        exact hbuiltIn _ _ rfl rfl

/-- The depth to which types are checked is at least their size. -/
theorem typeFuel_ends (s : Store) (a b : Ty) :
    ∃ fuel, typeFuel [a, b] s = .ok fuel s ∧ a.weight ≤ fuel ∧ b.weight ≤ fuel := by
  refine ⟨_, rfl, ?_⟩
  have hsizes : total Ty.weight [a, b] = a.weight + (b.weight + 0) := rfl
  rw [total_append, hsizes]
  exact ⟨Nat.le_trans (by omega) (Nat.le_mul_self _),
    Nat.le_trans (by omega) (Nat.le_mul_self _)⟩

theorem checkSubType_decides (ha : s.Fixed a) (hb : s.Fixed b) (hcomparable : Comparable a b) :
    Decides s (checkSubType a b) (SubtypeOf a b) := by
  obtain ⟨fuel, hfuel, hle, hle'⟩ := typeFuel_ends s a b
  obtain ⟨answer, hrun, hanswer⟩ :=
    (checkSubTypeWithin_decides fuel).fixed ⟨ha, hle⟩ ⟨hb, hle'⟩ hcomparable
  exact ⟨answer, (Run.ok_bind hfuel).trans hrun, hanswer⟩

end Solve

/-- On types without quantifiers and unsolved variables the declared relation is a preorder, and in
every store a check answers whether it holds and leaves the store as it is. -/
theorem Ty.Ground.checkSubType_preorder {a b : Ty} (ha : a.Ground) (hb : b.Ground) (s : Store) :
    (∃ answer, Solve.checkSubType a b s = .ok answer s ∧ (answer = true ↔ a.SubtypeOf b)) ∧
      a.SubtypeOf a ∧ ∀ c, c.Ground → a.SubtypeOf b → b.SubtypeOf c → a.SubtypeOf c :=
  ⟨Solve.checkSubType_decides (Store.fixed_of_ground s ha) (Store.fixed_of_ground s hb)
    (.inr ⟨ha.not_mentions, hb.not_mentions⟩), .refl ha.firstOrder,
    fun _ _ hab hbc => hab.trans hbc⟩

/-- An arrow that is applied to fewer types than it asks for is still compared as a function type of
as many arguments as it has. -/
theorem Ty.Ground.checkSubType_widened :
    Ty.Ground (.apply (.builtIn (.function 3)) [.builtIn .long, .builtIn .int] .type) ∧
    Ty.Ground (.function [.builtIn .int] (.builtIn .long)) ∧
    Solve.checkSubType (.apply (.builtIn (.function 3)) [.builtIn .long, .builtIn .int] .type)
      (.function [.builtIn .int] (.builtIn .long)) Store.start = .ok true Store.start ∧
    Ty.SubtypeOf (.apply (.builtIn (.function 3)) [.builtIn .long, .builtIn .int] .type)
      (.function [.builtIn .int] (.builtIn .long)) := by
  have hsub : Ty.Ground (.apply (.builtIn (.function 3)) [.builtIn .long,
      .builtIn .int] .type) := by
    simp [Ty.Ground, Kind.unknowns_type]
  have hsup : Ty.Ground (.function [.builtIn .int] (.builtIn .long)) := by
    simp [Ty.function, Ty.Ground, Kind.unknowns_type]
  have hrelated : Ty.SubtypeOf (.apply (.builtIn (.function 3)) [.builtIn .long,
      .builtIn .int] .type)
      (.function [.builtIn .int] (.builtIn .long)) := by
    refine .function rfl rfl rfl (fun pair hpair => ?_) (.builtIn rfl)
    obtain rfl := List.mem_singleton.1 hpair
    exact .builtIn rfl
  obtain ⟨⟨answer, hrun, hanswer⟩, -, -⟩ := hsub.checkSubType_preorder hsup Store.start
  obtain rfl := hanswer.2 hrelated
  exact ⟨hsub, hsup, hrun, hrelated⟩

end PolyFront
