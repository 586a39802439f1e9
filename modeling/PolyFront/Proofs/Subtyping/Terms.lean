import Mathlib.Data.List.Basic
import PolyFront.Proofs.Solutions.Subtype

/-!
# First-order types

A type is first-order when nothing in it is quantified and no application has a variable as its
head.  On such types the subtype relation is declared here.  It looks neither at kinds nor at the
number that the arrow of a function type carries, so that two types are related when they are once
both are blanked out.  Substitution acts on these bare types by solutions of variables alone.
-/

namespace PolyFront

namespace Ty

/-- Nothing is quantified, and no application has an unsolved head. -/
def FirstOrder : Ty → Prop
  | .var _ _ _ => True
  | .unsolved _ _ => True
  | .constructor _ _ => True
  | .apply head args _ =>
    head.isUnsolved = false ∧ head.FirstOrder ∧ ∀ arg ∈ args, arg.FirstOrder
  | .quantified _ _ _ => False
  | .builtIn _ => True

theorem firstOrder_var (quantifier : Quantifier) (name : String) (kind : Kind) :
    FirstOrder (.var quantifier name kind) := by rw [FirstOrder]; trivial

theorem firstOrder_unsolved (id : Nat) (kind : Kind) : FirstOrder (.unsolved id kind) := by
  rw [FirstOrder]
  trivial

theorem firstOrder_constructor (name : QualifiedName) (kind : Kind) :
    FirstOrder (.constructor name kind) := by rw [FirstOrder]; trivial

theorem firstOrder_builtIn (type : BuiltIn) : FirstOrder (.builtIn type) := by
  rw [FirstOrder]
  trivial

theorem firstOrder_apply {head : Ty} {args : List Ty} {kind : Kind} :
    FirstOrder (.apply head args kind) ↔
      head.isUnsolved = false ∧ head.FirstOrder ∧ ∀ arg ∈ args, arg.FirstOrder := by
  rw [FirstOrder]

theorem not_firstOrder_quantified (binders : List Ty) (body : Ty) (kind : Kind) :
    ¬FirstOrder (.quantified binders body kind) := by
  rw [FirstOrder]
  exact not_false

mutual
instance decidableFirstOrder : (type : Ty) → Decidable type.FirstOrder
  | .var quantifier name kind => .isTrue (firstOrder_var quantifier name kind)
  | .unsolved id kind => .isTrue (firstOrder_unsolved id kind)
  | .constructor name kind => .isTrue (firstOrder_constructor name kind)
  | .apply head args _ =>
    have := decidableFirstOrder head
    have := decidableFirstOrderList args
    decidable_of_iff _ firstOrder_apply.symm
  | .quantified binders body kind => .isFalse (not_firstOrder_quantified binders body kind)
  | .builtIn type => .isTrue (firstOrder_builtIn type)
instance decidableFirstOrderList : (list : List Ty) → Decidable (∀ type ∈ list, type.FirstOrder)
  | [] => .isTrue (by simp)
  | type :: rest =>
    have := decidableFirstOrder type
    have := decidableFirstOrderList rest
    decidable_of_iff (type.FirstOrder ∧ ∀ other ∈ rest, other.FirstOrder)
      (by rw [List.forall_mem_cons])
end

/-- First-order types stay first-order when first-order types are put for variables. -/
theorem FirstOrder.bind {type : Ty} {f : Nat → Kind → Ty} {g : Kind → Kind} (h : type.FirstOrder)
    (hf : ∀ id kind, (id, kind) ∈ type.mentions → (f id kind).FirstOrder) :
    (type.bind f g).FirstOrder := by
  induction type with
  | var quantifier name kind =>
    rw [bind_var]
    exact firstOrder_var _ _ _
  | unsolved id kind =>
    rw [bind_unsolved]
    exact hf id kind (by simp [mentions])
  | constructor name kind =>
    rw [bind_constructor]
    exact firstOrder_constructor _ _
  | builtIn type =>
    rw [bind_builtIn]
    exact firstOrder_builtIn _
  | apply head args kind ihHead ihArgs =>
    obtain ⟨hsolved, hhead, hargs⟩ := firstOrder_apply.1 h
    simp only [mentions, List.mem_append, List.mem_flatMap] at hf
    rw [bind_apply]
    refine firstOrder_apply.2 ⟨unknown_bind hsolved,
      ihHead hhead fun id kind hmem => hf id kind (.inl hmem), fun arg' harg' => ?_⟩
    obtain ⟨arg, harg, rfl⟩ := List.mem_map.1 harg'
    exact ihArgs arg harg (hargs arg harg) fun id kind hmem => hf id kind (.inr ⟨arg, harg, hmem⟩)
  | quantified binders body kind ihBinders ihBody => exact (not_firstOrder_quantified _ _ _ h).elim

/-- A type without quantifiers has no binders. -/
theorem FirstOrder.namedBinders {type : Ty} (h : type.FirstOrder) : type.NamedBinders := by
  induction type with
  | apply head args kind ihHead ihArgs =>
    obtain ⟨-, hhead, hargs⟩ := firstOrder_apply.1 h
    rw [NamedBinders]
    exact ⟨ihHead hhead, fun arg harg => ihArgs arg harg (hargs arg harg)⟩
  | quantified binders body kind ihBinders ihBody => exact (not_firstOrder_quantified _ _ _ h).elim
  | _ => rw [NamedBinders]; trivial

/-- A variable stands in the type. -/
def Mentions (id : Nat) (type : Ty) : Prop := ∃ kind, (id, kind) ∈ type.mentions

theorem mentions_unsolved {id other : Nat} {kind : Kind} :
    Mentions id (.unsolved other kind) ↔ id = other := by
  simp [Mentions, mentions]

theorem mentions_apply {id : Nat} {head : Ty} {args : List Ty} {kind : Kind} :
    Mentions id (.apply head args kind) ↔ Mentions id head ∨ ∃ arg ∈ args, Mentions id arg := by
  simp only [Mentions, mentions, List.mem_append, List.mem_flatMap, exists_or]
  refine or_congr_right ⟨?_, ?_⟩
  · rintro ⟨kind, arg, harg, hmem⟩
    exact ⟨arg, harg, kind, hmem⟩
  · rintro ⟨arg, harg, kind, hmem⟩
    exact ⟨kind, arg, harg, hmem⟩

/-- A first-order type whose variables were all created. -/
def Simple (created : Nat) (type : Ty) : Prop :=
  type.FirstOrder ∧ ∀ v ∈ type.unknowns, v.1 < created

instance (created : Nat) (type : Ty) : Decidable (type.Simple created) :=
  inferInstanceAs (Decidable (_ ∧ _))

theorem simple_iff {created : Nat} {type : Ty} :
    type.Simple created ↔ type.FirstOrder ∧ ∀ id, type.Mentions id → id < created := by
  refine and_congr_right fun h => ⟨?_, fun hlt v hv => ?_⟩
  · rintro hlt id ⟨kind, hmem⟩
    exact hlt (id, kind) (h.namedBinders.mem_unknowns.2 hmem)
  · exact hlt v.1 ⟨v.2, h.namedBinders.mem_unknowns.1 hv⟩

theorem Simple.firstOrder {created : Nat} {type : Ty} (h : type.Simple created) :
    type.FirstOrder := h.1

theorem Simple.lt {created : Nat} {type : Ty} (h : type.Simple created) {id : Nat}
    (hmem : type.Mentions id) : id < created :=
  (simple_iff.1 h).2 id hmem

theorem Simple.mono {created created' : Nat} {type : Ty} (h : type.Simple created)
    (hle : created ≤ created') : type.Simple created' :=
  ⟨h.1, fun v hv => Nat.lt_of_lt_of_le (h.2 v hv) hle⟩

theorem simple_unsolved {created id : Nat} {kind : Kind} :
    Simple created (.unsolved id kind) ↔ id < created := by
  simp [simple_iff, firstOrder_unsolved, mentions_unsolved]

theorem simple_apply {created : Nat} {head : Ty} {args : List Ty} {kind : Kind} :
    Simple created (.apply head args kind) ↔
      head.isUnsolved = false ∧ head.Simple created ∧ ∀ arg ∈ args, arg.Simple created := by
  simp only [simple_iff, firstOrder_apply, mentions_apply]
  constructor
  · rintro ⟨⟨hsolved, hhead, hargs⟩, hlt⟩
    exact ⟨hsolved, ⟨hhead, fun id hmem => hlt id (.inl hmem)⟩,
      fun arg harg => ⟨hargs arg harg, fun id hmem => hlt id (.inr ⟨arg, harg, hmem⟩)⟩⟩
  · rintro ⟨hsolved, ⟨hhead, hheadLt⟩, hargs⟩
    refine ⟨⟨hsolved, hhead, fun arg harg => (hargs arg harg).1⟩, ?_⟩
    rintro id (hmem | ⟨arg, harg, hmem⟩)
    · exact hheadLt id hmem
    · exact (hargs arg harg).2 id hmem

/-! ## The subtype relation -/

/-- Built-in types are related by widening, function types contravariantly in their arguments
and covariantly in their results, and other applications part by part. -/
inductive SubtypeOf : Ty → Ty → Prop where
  | var (quantifier : Quantifier) (name : String) (kind kind' : Kind) :
    SubtypeOf (.var quantifier name kind) (.var quantifier name kind')
  | unsolved (id : Nat) (kind kind' : Kind) :
    SubtypeOf (.unsolved id kind) (.unsolved id kind')
  | constructor (name : QualifiedName) (kind kind' : Kind) :
    SubtypeOf (.constructor name kind) (.constructor name kind')
  | builtIn {sub sup : BuiltIn} (h : sub.isSubtypeOf sup = true) :
    SubtypeOf (.builtIn sub) (.builtIn sup)
  | function {sub sup result result' : Ty} {params params' : List Ty}
    (hsub : sub.function? = some (params, result)) (hsup : sup.function? = some (params', result'))
    (hlength : params.length = params'.length)
    (hparams : ∀ pair ∈ params.zip params', SubtypeOf pair.2 pair.1)
    (hresult : SubtypeOf result result') : SubtypeOf sub sup
  | apply {head head' : Ty} {args args' : List Ty} {kind kind' : Kind}
    (hother : (Ty.apply head args kind).isFunction = false ∨
      (Ty.apply head' args' kind').isFunction = false)
    (hlength : args.length = args'.length) (hhead : SubtypeOf head head')
    (hargs : ∀ pair ∈ args.zip args', SubtypeOf pair.1 pair.2) :
    SubtypeOf (.apply head args kind) (.apply head' args' kind')

theorem eq_of_mem_zip_self {α : Type} {items : List α} {pair : α × α}
    (h : pair ∈ items.zip items) : pair.1 = pair.2 ∧ pair.2 ∈ items := by
  induction items with
  | nil => cases h
  | cons item rest ih =>
    rcases List.mem_cons.1 h with rfl | h
    · exact ⟨rfl, List.mem_cons_self⟩
    · obtain ⟨heq, hmem⟩ := ih h
      exact ⟨heq, List.mem_cons_of_mem _ hmem⟩

theorem isFunction_eq_false {type : Ty} : type.isFunction = false ↔ type.function? = none := by
  rw [isFunction, Option.isSome_eq_false_iff, Option.isNone_iff_eq_none]

theorem SubtypeOf.refl {type : Ty} (h : type.FirstOrder) : SubtypeOf type type := by
  induction type with
  | var quantifier name kind => exact .var _ _ _ _
  | unsolved id kind => exact .unsolved _ _ _
  | constructor name kind => exact .constructor _ _ _
  | builtIn type => exact .builtIn type.isSubtypeOf_refl
  | quantified binders body kind => exact (not_firstOrder_quantified _ _ _ h).elim
  | apply head args kind ihHead ihArgs =>
    obtain ⟨-, hhead, hargs⟩ := firstOrder_apply.1 h
    have hself : ∀ arg ∈ args, SubtypeOf arg arg := fun arg harg => ihArgs arg harg (hargs arg harg)
    cases hfunction : (Ty.apply head args kind).function? with
    | none =>
      refine .apply (.inl (isFunction_eq_false.2 hfunction)) rfl (ihHead hhead) fun pair hpair => ?_
      obtain ⟨heq, hmem⟩ := eq_of_mem_zip_self hpair
      rw [heq]
      exact hself _ hmem
    | some function =>
      obtain ⟨params, result⟩ := function
      obtain rfl := Solve.function?_eq_some hfunction
      refine .function hfunction hfunction rfl (fun pair hpair => ?_) (hself result (by simp))
      obtain ⟨heq, hmem⟩ := eq_of_mem_zip_self hpair
      rw [heq]
      exact hself _ (List.mem_append_left _ hmem)

/-- Only a built-in type is a subtype of a built-in type. -/
theorem SubtypeOf.of_builtIn {sub : Ty} {sup : BuiltIn} (h : SubtypeOf sub (.builtIn sup)) :
    ∃ type, sub = .builtIn type ∧ type.isSubtypeOf sup = true := by
  cases h with
  | builtIn h => exact ⟨_, rfl, h⟩
  | function _ hsup => cases hsup

/-- The arguments of applications that are no function types are related. -/
theorem SubtypeOf.args {head head' : Ty} {args args' : List Ty} {kind kind' : Kind}
    (h : SubtypeOf (.apply head args kind) (.apply head' args' kind'))
    (hother : (Ty.apply head args kind).function? = none) :
    ∀ pair ∈ args.zip args', SubtypeOf pair.1 pair.2 := by
  cases h with
  | function hsub =>
    rw [hother] at hsub
    cases hsub
  | apply _ _ _ hargs => exact hargs

/-! ## Bare types -/

/-- The head of an application to that many types: the arrow of a function type counts its
arguments. -/
def arrow (count : Nat) : Ty → Ty
  | .builtIn (.function arity) => .builtIn (.function (if count = 0 then arity else count - 1))
  | head => head

mutual
/-- All kinds are blanked out, and every function type has the arrow of its arity. -/
def bare : Ty → Ty
  | .var quantifier name _ => .var quantifier name .type
  | .unsolved id _ => .unsolved id .type
  | .constructor name _ => .constructor name .type
  | .apply head args _ => .apply (arrow args.length (bare head)) (bareList args) .type
  | .quantified binders body _ => .quantified (bareList binders) (bare body) .type
  | .builtIn type => .builtIn type
def bareList : List Ty → List Ty
  | [] => []
  | type :: rest => bare type :: bareList rest
end

theorem bareList_eq_map (types : List Ty) : bareList types = types.map bare := by
  induction types with
  | nil => rfl
  | cons type rest ih => rw [bareList, ih, List.map_cons]

@[simp]
theorem bare_var (quantifier : Quantifier) (name : String) (kind : Kind) :
    bare (.var quantifier name kind) = .var quantifier name .type := rfl

@[simp]
theorem bare_unsolved (id : Nat) (kind : Kind) :
    bare (.unsolved id kind) = .unsolved id .type := rfl

@[simp]
theorem bare_constructor (name : QualifiedName) (kind : Kind) :
    bare (.constructor name kind) = .constructor name .type := rfl

@[simp]
theorem bare_apply (head : Ty) (args : List Ty) (kind : Kind) :
    bare (.apply head args kind) =
      .apply (arrow args.length (bare head)) (args.map bare) .type := by
  rw [bare, bareList_eq_map]

@[simp]
theorem bare_quantified (binders : List Ty) (body : Ty) (kind : Kind) :
    bare (.quantified binders body kind) =
      .quantified (binders.map bare) (bare body) .type := by
  rw [bare, bareList_eq_map]

@[simp]
theorem bare_builtIn (type : BuiltIn) : bare (.builtIn type) = .builtIn type := rfl

/-- The arrow is the only head that counts its arguments. -/
theorem arrow_cases (count : Nat) (head : Ty) :
    (∃ arity, head = .builtIn (.function arity) ∧
        arrow count head = .builtIn (.function (if count = 0 then arity else count - 1))) ∨
      (∀ arity, head ≠ .builtIn (.function arity)) ∧ arrow count head = head := by
  by_cases h : ∃ arity, head = .builtIn (.function arity)
  · obtain ⟨arity, rfl⟩ := h
    exact .inl ⟨arity, rfl, rfl⟩
  · refine .inr ⟨fun arity heq => h ⟨arity, heq⟩, ?_⟩
    unfold arrow
    split
    · exact (h ⟨_, rfl⟩).elim
    · rfl

theorem mentions_arrow (count : Nat) (head : Ty) : (arrow count head).mentions = head.mentions := by
  rcases arrow_cases count head with ⟨arity, rfl, heq⟩ | ⟨-, heq⟩
  · rw [heq, mentions, mentions]
  · rw [heq]

theorem isUnsolved_arrow (count : Nat) (head : Ty) :
    (arrow count head).isUnsolved = head.isUnsolved := by
  rcases arrow_cases count head with ⟨arity, rfl, heq⟩ | ⟨-, heq⟩
  · rw [heq]
    rfl
  · rw [heq]

theorem FirstOrder.arrow {head : Ty} (h : head.FirstOrder) (count : Nat) :
    (Ty.arrow count head).FirstOrder := by
  rcases arrow_cases count head with ⟨arity, -, heq⟩ | ⟨-, heq⟩
  · rw [heq]
    exact firstOrder_builtIn _
  · rwa [heq]

theorem isUnsolved_bare (type : Ty) : type.bare.isUnsolved = type.isUnsolved := by
  cases type <;> simp [isUnsolved]

theorem bare_eq_unsolved {type : Ty} {id : Nat} (h : type.bare = .unsolved id .type) :
    ∃ kind, type = .unsolved id kind := by
  cases type with
  | unsolved other kind =>
    rw [bare_unsolved, Ty.unsolved.injEq] at h
    exact ⟨kind, by rw [h.1]⟩
  | _ => simp at h

theorem mentions_bare (type : Ty) :
    type.bare.mentions = type.mentions.map fun v => (v.1, Kind.type) := by
  induction type with
  | var quantifier name kind => simp [mentions]
  | unsolved id kind => simp [mentions]
  | constructor name kind => simp [mentions]
  | builtIn type => simp [mentions]
  | apply head args kind ihHead ihArgs =>
    rw [bare_apply, mentions, mentions, mentions_arrow, ihHead, List.map_append, List.map_flatMap,
      List.flatMap_map]
    congr 1
    exact List.flatMap_congr ihArgs
  | quantified binders body kind ihBinders ihBody =>
    rw [bare_quantified, mentions, mentions, ihBody, List.map_append, List.map_flatMap,
      List.flatMap_map]
    congr 1
    exact List.flatMap_congr ihBinders

@[simp]
theorem mentions_bare_iff {id : Nat} {type : Ty} : type.bare.Mentions id ↔ type.Mentions id := by
  rw [Mentions, Mentions, mentions_bare]
  constructor
  · rintro ⟨kind, hmem⟩
    obtain ⟨v, hv, heq⟩ := List.mem_map.1 hmem
    obtain ⟨rfl, -⟩ := Prod.mk.inj heq
    exact ⟨v.2, hv⟩
  · rintro ⟨kind, hmem⟩
    exact ⟨.type, List.mem_map_of_mem hmem⟩

theorem FirstOrder.bare {type : Ty} (h : type.FirstOrder) : type.bare.FirstOrder := by
  induction type with
  | var quantifier name kind =>
    rw [bare_var]
    exact firstOrder_var _ _ _
  | unsolved id kind =>
    rw [bare_unsolved]
    exact firstOrder_unsolved _ _
  | constructor name kind =>
    rw [bare_constructor]
    exact firstOrder_constructor _ _
  | builtIn type =>
    rw [bare_builtIn]
    exact firstOrder_builtIn _
  | apply head args kind ihHead ihArgs =>
    obtain ⟨hsolved, hhead, hargs⟩ := firstOrder_apply.1 h
    rw [bare_apply]
    refine firstOrder_apply.2 ⟨?_, (ihHead hhead).arrow _, fun arg' harg' => ?_⟩
    · rw [isUnsolved_arrow, isUnsolved_bare, hsolved]
    · obtain ⟨arg, harg, rfl⟩ := List.mem_map.1 harg'
      exact ihArgs arg harg (hargs arg harg)
  | quantified binders body kind ihBinders ihBody => exact (not_firstOrder_quantified _ _ _ h).elim

theorem Simple.bare {created : Nat} {type : Ty} (h : type.Simple created) :
    type.bare.Simple created :=
  simple_iff.2 ⟨h.firstOrder.bare, fun _ hmem => h.lt (mentions_bare_iff.1 hmem)⟩

theorem bare_erased (type : Ty) : type.erased.bare = type.bare := by
  unfold erased
  induction type with
  | var quantifier name kind => simp
  | unsolved id kind => simp
  | constructor name kind => simp
  | builtIn type => simp
  | apply head args kind ihHead ihArgs =>
    rw [bind_apply, bare_apply, bare_apply, ihHead, List.length_map, List.map_map]
    congr 1
    exact List.map_congr_left ihArgs
  | quantified binders body kind ihBinders ihBody =>
    rw [bind_quantified, bare_quantified, bare_quantified, ihBody, List.map_map]
    congr 1
    exact List.map_congr_left ihBinders

/-- Types that count as the same are the same once they are bare. -/
theorem bare_eq_of_beq {a b : Ty} (h : (a == b) = true) : a.bare = b.bare := by
  rw [← bare_erased, beq_iff.1 h, bare_erased]

theorem function?_bare (type : Ty) :
    type.bare.function? = type.function?.map fun f => (f.1.map bare, f.2.bare) := by
  cases type with
  | apply head args kind =>
    rw [bare_apply]
    rcases arrow_cases args.length head.bare with ⟨arity, hhead, heq⟩ | ⟨hhead, heq⟩
    · obtain rfl : head = .builtIn (.function arity) := by
        cases head with
        | builtIn type => simpa using hhead
        | _ => simp at hhead
      rw [heq]
      simp only [function?, List.getLast?_map]
      cases args.getLast? <;> simp [List.map_dropLast]
    · rw [heq]
      have hnone : ∀ {head : Ty} {args : List Ty} {kind : Kind},
          (∀ arity, head ≠ .builtIn (.function arity)) →
            (Ty.apply head args kind).function? = none := by
        intro head args kind hne
        unfold function?
        split
        · rename_i arity args' kind' heq
          cases heq
          exact (hne arity rfl).elim
        · rfl
      rw [hnone hhead, hnone]
      · rfl
      · rintro arity rfl
        exact hhead arity (bare_builtIn _)
  | var quantifier name kind => simp [function?]
  | unsolved id kind => simp [function?]
  | constructor name kind => simp [function?]
  | builtIn type => simp [function?]
  | quantified binders body kind => simp [function?]

theorem isFunction_bare (type : Ty) : type.bare.isFunction = type.isFunction := by
  rw [isFunction, isFunction, function?_bare, Option.isSome_map]

/-! ## Substitution of bare types -/

/-- Replace every variable, whatever its kind is. -/
def subst (assignment : Nat → Ty) (type : Ty) : Ty := type.bind (fun id _ => assignment id) id

section Subst

variable (assignment : Nat → Ty)

@[simp]
theorem subst_var (quantifier : Quantifier) (name : String) (kind : Kind) :
    subst assignment (.var quantifier name kind) = .var quantifier name kind := by
  rw [subst, bind_var, id]

@[simp]
theorem subst_unsolved (id : Nat) (kind : Kind) :
    subst assignment (.unsolved id kind) = assignment id := by
  rw [subst, bind_unsolved]

@[simp]
theorem subst_constructor (name : QualifiedName) (kind : Kind) :
    subst assignment (.constructor name kind) = .constructor name kind := by
  rw [subst, bind_constructor, id]

@[simp]
theorem subst_apply (head : Ty) (args : List Ty) (kind : Kind) :
    subst assignment (.apply head args kind) =
      .apply (head.subst assignment) (args.map (subst assignment)) kind := by
  rw [subst, bind_apply, id]
  rfl

@[simp]
theorem subst_builtIn (type : BuiltIn) : subst assignment (.builtIn type) = .builtIn type := by
  rw [subst, bind_builtIn]

theorem subst_subst (assignment' : Nat → Ty) (type : Ty) :
    (type.subst assignment).subst assignment' =
      type.subst fun id => (assignment id).subst assignment' :=
  bind_bind _ _ _ _ type

end Subst

variable {assignment assignment' : Nat → Ty} {type : Ty}

theorem subst_congr (h : ∀ id, type.Mentions id → assignment id = assignment' id) :
    type.subst assignment = type.subst assignment' :=
  bind_congr (fun id kind hmem => h id ⟨kind, hmem⟩) fun _ _ => rfl

theorem subst_self (h : ∀ id kind, (id, kind) ∈ type.mentions → assignment id = .unsolved id kind) :
    type.subst assignment = type :=
  bind_self h fun _ _ => rfl

theorem bare_subst_self (h : ∀ id, type.Mentions id → assignment id = .unsolved id .type) :
    type.bare.subst assignment = type.bare := by
  refine subst_self fun id kind hmem => ?_
  rw [mentions_bare, List.mem_map] at hmem
  obtain ⟨v, hv, heq⟩ := hmem
  obtain ⟨rfl, rfl⟩ := Prod.mk.inj heq
  exact h v.1 ⟨v.2, hv⟩

theorem mentions_subst {id : Nat} :
    (type.subst assignment).Mentions id ↔ ∃ v, type.Mentions v ∧ (assignment v).Mentions id := by
  simp only [Mentions, subst, mem_mentions_bind]
  constructor
  · rintro ⟨kind, v, vkind, hv, hmem⟩
    exact ⟨v, ⟨vkind, hv⟩, kind, hmem⟩
  · rintro ⟨v, ⟨vkind, hv⟩, kind, hmem⟩
    exact ⟨kind, v, vkind, hv, hmem⟩

theorem FirstOrder.subst (h : type.FirstOrder)
    (hassignment : ∀ id, type.Mentions id → (assignment id).FirstOrder) :
    (type.subst assignment).FirstOrder :=
  h.bind fun id kind hmem => hassignment id ⟨kind, hmem⟩

theorem arrow_subst (count : Nat) {head : Ty} (h : head.isUnsolved = false) :
    (arrow count head).subst assignment = arrow count (head.subst assignment) := by
  rcases arrow_cases count head with ⟨arity, rfl, heq⟩ | ⟨hne, heq⟩
  · rw [heq, subst_builtIn, subst_builtIn, heq]
  · rw [heq]
    rcases arrow_cases count (head.subst assignment) with ⟨arity, hhead, -⟩ | ⟨-, heq'⟩
    · cases head with
      | builtIn type =>
        rw [subst_builtIn] at hhead
        exact (hne arity hhead).elim
      | unsolved id kind => cases h
      | quantified binders body kind =>
        rw [Ty.subst, bind_quantified] at hhead
        cases hhead
      | _ => simp at hhead
    · rw [heq']

/-- Replacing variables in a first-order type and blanking kinds out can be done in either
order. -/
theorem FirstOrder.bare_bind (h : type.FirstOrder) {f : Nat → Kind → Ty} {g : Kind → Kind}
    (hf : ∀ id kind, (id, kind) ∈ type.mentions → (f id kind).bare = assignment id) :
    (type.bind f g).bare = type.bare.subst assignment := by
  induction type with
  | var quantifier name kind => simp
  | unsolved id kind => simpa using hf id kind (by simp [mentions])
  | constructor name kind => simp
  | builtIn type => simp
  | apply head args kind ihHead ihArgs =>
    obtain ⟨hsolved, hhead, hargs⟩ := firstOrder_apply.1 h
    simp only [mentions, List.mem_append, List.mem_flatMap] at hf
    have hheadEq := ihHead hhead fun id kind hmem => hf id kind (.inl hmem)
    have hargsEq : ∀ arg ∈ args, (arg.bind f g).bare = arg.bare.subst assignment :=
      fun arg harg => ihArgs arg harg (hargs arg harg) fun id kind hmem =>
        hf id kind (.inr ⟨arg, harg, hmem⟩)
    rw [bind_apply, bare_apply, bare_apply, subst_apply, hheadEq, List.length_map, List.map_map,
      List.map_map, arrow_subst]
    · congr 1
      exact List.map_congr_left hargsEq
    · rw [isUnsolved_bare, hsolved]
  | quantified binders body kind ihBinders ihBody => exact (not_firstOrder_quantified _ _ _ h).elim

/-- What replaces variables makes no built-in type of a type that is no variable. -/
theorem bind_eq_builtIn {f : Nat → Kind → Ty} {g : Kind → Kind} (h : type.isUnsolved = false)
    {builtIn : BuiltIn} : type.bind f g = .builtIn builtIn ↔ type = .builtIn builtIn := by
  cases type with
  | unsolved id kind => cases h
  | var quantifier name kind => simp [bind_var]
  | constructor name kind => simp [bind_constructor]
  | apply head args kind => simp [bind_apply]
  | quantified binders body kind => simp [bind_quantified]
  | builtIn type => rw [bind_builtIn]

/-! ## Subtypes of bare types -/

theorem isSubtypeOf_function {sub sup : BuiltIn} (h : sub.isSubtypeOf sup = true) (arity : Nat) :
    sub = .function arity ↔ sup = .function arity := by
  simp only [BuiltIn.isSubtypeOf, BuiltIn.widenings, Bool.or_eq_true, beq_iff_eq,
    List.contains_iff_mem, List.mem_cons, Prod.mk.injEq, List.not_mem_nil, or_false] at h
  rcases h with rfl | ⟨rfl, rfl⟩ | ⟨rfl, rfl⟩ <;> simp

/-- An arrow is related to itself only. -/
theorem SubtypeOf.arrow_iff {head head' : Ty} (h : SubtypeOf head head') (arity : Nat) :
    head = .builtIn (.function arity) ↔ head' = .builtIn (.function arity) := by
  cases h with
  | var => simp
  | unsolved => simp
  | constructor => simp
  | builtIn h =>
    rw [Ty.builtIn.injEq, Ty.builtIn.injEq]
    exact isSubtypeOf_function h arity
  | function hsub hsup =>
    constructor
    · rintro rfl
      cases hsub
    · rintro rfl
      cases hsup
  | apply => simp

theorem SubtypeOf.arrow {head head' : Ty} (h : SubtypeOf head head') (count : Nat) :
    SubtypeOf (Ty.arrow count head) (Ty.arrow count head') := by
  rcases arrow_cases count head with ⟨arity, hhead, heq⟩ | ⟨hne, heq⟩
  · have hhead' := (h.arrow_iff arity).1 hhead
    rw [hhead, hhead']
    exact .refl ((firstOrder_builtIn _).arrow _)
  · rcases arrow_cases count head' with ⟨arity, hhead', -⟩ | ⟨-, heq'⟩
    · exact (hne arity ((h.arrow_iff arity).2 hhead')).elim
    · rwa [heq, heq']

theorem exists_of_mem_zip_map {left right : List Ty} {pair : Ty × Ty}
    (h : pair ∈ (left.map bare).zip (right.map bare)) :
    ∃ origin ∈ left.zip right, pair = (origin.1.bare, origin.2.bare) := by
  rw [List.zip_map, List.mem_map] at h
  obtain ⟨origin, hmem, rfl⟩ := h
  exact ⟨origin, hmem, rfl⟩

theorem SubtypeOf.bare {sub sup : Ty} (h : SubtypeOf sub sup) : SubtypeOf sub.bare sup.bare := by
  induction h with
  | var quantifier name kind kind' =>
    rw [bare_var, bare_var]
    exact .var _ _ _ _
  | unsolved id kind kind' =>
    rw [bare_unsolved, bare_unsolved]
    exact .unsolved _ _ _
  | constructor name kind kind' =>
    rw [bare_constructor, bare_constructor]
    exact .constructor _ _ _
  | builtIn h =>
    rw [bare_builtIn, bare_builtIn]
    exact .builtIn h
  | function hsub hsup hlength _ _ ihParams ihResult =>
    refine .function (by rw [function?_bare, hsub]; rfl) (by rw [function?_bare, hsup]; rfl)
      (by simpa using hlength) (fun pair hpair => ?_) ihResult
    obtain ⟨origin, hmem, rfl⟩ := exists_of_mem_zip_map hpair
    exact ihParams origin hmem
  | @apply head head' args args' kind kind' hother hlength _ _ ihHead ihArgs =>
    rw [← isFunction_bare, ← isFunction_bare (.apply head' args' kind'), bare_apply, bare_apply]
      at hother
    rw [bare_apply, bare_apply]
    refine .apply hother (by simpa using hlength) ?_ fun pair hpair => ?_
    · rw [← hlength]
      exact ihHead.arrow _
    · obtain ⟨origin, hmem, rfl⟩ := exists_of_mem_zip_map hpair
      exact ihArgs origin hmem

theorem bare_arrow (count : Nat) (head : Ty) : (arrow count head).bare = arrow count head.bare := by
  rcases arrow_cases count head with ⟨arity, rfl, heq⟩ | ⟨hne, heq⟩
  · rw [heq, bare_builtIn, bare_builtIn, heq]
  · rw [heq]
    rcases arrow_cases count head.bare with ⟨arity, hbare, -⟩ | ⟨-, hbare⟩
    · cases head with
      | builtIn type =>
        rw [bare_builtIn] at hbare
        exact (hne arity hbare).elim
      | _ => simp at hbare
    · rw [hbare]

theorem isFunction_apply {head : Ty} {args : List Ty} {kind : Kind} :
    (Ty.apply head args kind).isFunction = true ↔
      (∃ arity, head = .builtIn (.function arity)) ∧ args ≠ [] := by
  rw [isFunction, Option.isSome_iff_exists]
  constructor
  · rintro ⟨⟨params, result⟩, h⟩
    refine ⟨?_, by simp [Solve.function?_eq_some h]⟩
    unfold function? at h
    split at h
    · rename_i arity args' kind' heq
      cases heq
      exact ⟨arity, rfl⟩
    · cases h
  · rintro ⟨⟨arity, rfl⟩, hne⟩
    exact ⟨(args.dropLast, args.getLast hne), by simp [function?,
        List.getLast?_eq_some_getLast hne]⟩

/-- The arrow of an application that is no function type has no arguments to count. -/
theorem arrow_eq_self {head : Ty} {args : List Ty} {kind : Kind}
    (h : (Ty.apply head args kind).isFunction = false) : arrow args.length head = head := by
  rcases arrow_cases args.length head with ⟨arity, rfl, heq⟩ | ⟨-, heq⟩
  · have hargs : args = [] := by
      by_contra hne
      rw [isFunction_apply.2 ⟨⟨arity, rfl⟩, hne⟩] at h
      cases h
    rw [hargs]
    rfl
  · exact heq

/-- Of two applications with related heads, both or none are function types. -/
theorem SubtypeOf.isFunction_eq {head head' : Ty} {args args' : List Ty} {kind kind' : Kind}
    (h : SubtypeOf (Ty.arrow args.length head) (Ty.arrow args'.length head'))
    (hlength : args.length = args'.length) :
    (Ty.apply head args kind).isFunction = (Ty.apply head' args' kind').isFunction := by
  rw [Bool.eq_iff_iff, isFunction_apply, isFunction_apply]
  have hargs : args ≠ [] ↔ args' ≠ [] := by
    rw [← List.length_pos_iff, ← List.length_pos_iff, hlength]
  rw [hargs]
  refine and_congr_left fun _ => ?_
  have hheads := h.arrow_iff
  rcases arrow_cases args.length head with ⟨arity, rfl, heq⟩ | ⟨hne, heq⟩
  · rcases arrow_cases args'.length head' with ⟨arity', rfl, -⟩ | ⟨-, heq'⟩
    · exact ⟨fun _ => ⟨_, rfl⟩, fun _ => ⟨_, rfl⟩⟩
    · rw [heq'] at hheads
      exact ⟨fun _ => ⟨_, (hheads _).1 heq⟩, fun _ => ⟨_, rfl⟩⟩
  · rcases arrow_cases args'.length head' with ⟨arity', rfl, heq'⟩ | ⟨hne', -⟩
    · rw [heq] at hheads
      exact ⟨fun _ => ⟨_, rfl⟩, fun _ => ⟨_, (hheads _).2 heq'⟩⟩
    · constructor
      · rintro ⟨arity, heq⟩
        exact (hne arity heq).elim
      · rintro ⟨arity, heq⟩
        exact (hne' arity heq).elim

/-- Types are related when they are once they are bare. -/
theorem subtypeOf_of_bare {sub sup : Ty} (h : SubtypeOf sub.bare sup.bare) : SubtypeOf sub sup := by
  generalize hsubEq : sub.bare = sub' at h
  generalize hsupEq : sup.bare = sup' at h
  induction h generalizing sub sup with
  | var quantifier name kind kind' =>
    cases sub <;> cases sup <;> simp at hsubEq hsupEq
    obtain ⟨rfl, rfl, -⟩ := hsubEq
    obtain ⟨rfl, rfl, -⟩ := hsupEq
    exact .var _ _ _ _
  | unsolved id kind kind' =>
    cases sub <;> cases sup <;> simp at hsubEq hsupEq
    obtain ⟨rfl, -⟩ := hsubEq
    obtain ⟨rfl, -⟩ := hsupEq
    exact .unsolved _ _ _
  | constructor name kind kind' =>
    cases sub <;> cases sup <;> simp at hsubEq hsupEq
    obtain ⟨rfl, -⟩ := hsubEq
    obtain ⟨rfl, -⟩ := hsupEq
    exact .constructor _ _ _
  | builtIn h =>
    cases sub <;> cases sup <;> simp at hsubEq hsupEq
    obtain rfl := hsubEq
    obtain rfl := hsupEq
    exact .builtIn h
  | function hsub hsup hlength _ _ ihParams ihResult =>
    subst hsubEq hsupEq
    rw [function?_bare, Option.map_eq_some_iff] at hsub hsup
    obtain ⟨⟨params, result⟩, hsub, heq⟩ := hsub
    obtain ⟨rfl, rfl⟩ := Prod.mk.inj heq
    obtain ⟨⟨params', result'⟩, hsup, heq⟩ := hsup
    obtain ⟨rfl, rfl⟩ := Prod.mk.inj heq
    refine .function hsub hsup (by simpa using hlength) (fun pair hpair => ?_) (ihResult rfl rfl)
    refine ihParams (pair.1.bare, pair.2.bare) ?_ rfl rfl
    rw [List.zip_map]
    exact List.mem_map_of_mem hpair
  | @apply head head' args args' kind kind' hother hlength _ _ ihHead ihArgs =>
    cases sub <;> cases sup <;> simp at hsubEq hsupEq
    rename_i subHead subArgs subKind supHead supArgs supKind
    have hfunction := isFunction_bare (.apply subHead subArgs subKind)
    have hfunction' := isFunction_bare (.apply supHead supArgs supKind)
    rw [bare_apply] at hfunction hfunction'
    obtain ⟨rfl, rfl, rfl⟩ := hsubEq
    obtain ⟨rfl, rfl, rfl⟩ := hsupEq
    rw [hfunction, hfunction'] at hother
    have hlength : subArgs.length = supArgs.length := by simpa using hlength
    have hhead := ihHead (bare_arrow _ _) (bare_arrow _ _)
    have hsame : (Ty.apply subHead subArgs subKind).isFunction =
        (Ty.apply supHead supArgs supKind).isFunction := hhead.isFunction_eq hlength
    have hnone : (Ty.apply subHead subArgs subKind).isFunction = false :=
      hother.elim id hsame.trans
    rw [arrow_eq_self hnone, arrow_eq_self (hsame.symm.trans hnone)] at hhead
    refine .apply (.inl hnone) hlength hhead fun pair hpair => ?_
    refine ihArgs (pair.1.bare, pair.2.bare) ?_ rfl rfl
    rw [List.zip_map]
    exact List.mem_map_of_mem hpair

/-! ## Subtypes of substituted types -/

theorem function?_subst {type : Ty} (h : type.FirstOrder) (hsolved : type.isUnsolved = false)
    (assignment : Nat → Ty) : (type.subst assignment).function? =
      type.function?.map fun f => (f.1.map (subst assignment), f.2.subst assignment) := by
  cases type with
  | unsolved id kind => cases hsolved
  | quantified binders body kind => exact (not_firstOrder_quantified _ _ _ h).elim
  | var quantifier name kind => simp [function?]
  | constructor name kind => simp [function?]
  | builtIn type => simp [function?]
  | apply head args kind =>
    rw [subst_apply]
    cases head with
    | builtIn type =>
      rw [subst_builtIn]
      cases type with
      | function arity =>
        simp only [function?, List.getLast?_map]
        cases args.getLast? <;> simp [List.map_dropLast]
      | _ => rfl
    | unsolved id kind => cases (firstOrder_apply.1 h).1
    | quantified binders body kind =>
      exact (not_firstOrder_quantified _ _ _ (firstOrder_apply.1 h).2.1).elim
    | var quantifier name kind => simp [function?]
    | constructor name kind => simp [function?]
    | apply head args kind => simp [function?]

theorem function?_bare_subst {head : Ty} {args : List Ty} {kind : Kind}
    (h : (Ty.apply head args kind).FirstOrder) (assignment : Nat → Ty) :
    ((Ty.apply head args kind).bare.subst assignment).function? =
      (Ty.apply head args kind).function?.map fun f =>
        (f.1.map fun type => type.bare.subst assignment, f.2.bare.subst assignment) := by
  have hsolved : (Ty.apply head args kind).bare.isUnsolved = false := isUnsolved_bare _
  rw [function?_subst h.bare hsolved, function?_bare, Option.map_map]
  congr 1
  funext f
  simp [Function.comp_def]

/-- Function types are related when their arguments and their results are. -/
theorem SubtypeOf.of_functions {head head' result result' : Ty}
    {args args' params params' : List Ty}
    {kind kind' : Kind} {assignment : Nat → Ty} (h : (Ty.apply head args kind).FirstOrder)
    (h' : (Ty.apply head' args' kind').FirstOrder)
    (hsub : (Ty.apply head args kind).function? = some (params, result))
    (hsup : (Ty.apply head' args' kind').function? = some (params', result'))
    (hlength : params.length = params'.length)
    (hparams : ∀ pair ∈ params.zip params',
      SubtypeOf (pair.2.bare.subst assignment) (pair.1.bare.subst assignment))
    (hresult : SubtypeOf (result.bare.subst assignment) (result'.bare.subst assignment)) :
    SubtypeOf ((Ty.apply head args kind).bare.subst assignment)
      ((Ty.apply head' args' kind').bare.subst assignment) := by
  refine .function (by rw [function?_bare_subst h, hsub]; rfl)
    (by rw [function?_bare_subst h', hsup]; rfl) (by simpa using hlength) (fun pair hpair => ?_)
    hresult
  rw [List.zip_map, List.mem_map] at hpair
  obtain ⟨origin, hmem, rfl⟩ := hpair
  exact hparams origin hmem

/-- Other applications are related when their heads and their arguments are. -/
theorem SubtypeOf.of_heads {head head' : Ty} {args args' : List Ty} {kind kind' : Kind}
    {assignment : Nat → Ty} (h : (Ty.apply head args kind).FirstOrder)
    (h' : (Ty.apply head' args' kind').FirstOrder)
    (hother : (Ty.apply head args kind).isFunction = false ∨
      (Ty.apply head' args' kind').isFunction = false) (hlength : args.length = args'.length)
    (hhead : SubtypeOf (head.bare.subst assignment) (head'.bare.subst assignment))
    (hargs : ∀ pair ∈ args.zip args',
      SubtypeOf (pair.1.bare.subst assignment) (pair.2.bare.subst assignment)) :
    SubtypeOf ((Ty.apply head args kind).bare.subst assignment)
      ((Ty.apply head' args' kind').bare.subst assignment) := by
  have hsame : ∀ {head : Ty} {args : List Ty} {kind : Kind}, (Ty.apply head args kind).FirstOrder →
      ((Ty.apply head args kind).bare.subst assignment).isFunction =
        (Ty.apply head args kind).isFunction := by
    intro head args kind h
    rw [isFunction, isFunction, function?_bare_subst h, Option.isSome_map]
  rw [← hsame h, ← hsame h'] at hother
  rw [bare_apply, bare_apply, subst_apply, subst_apply] at hother ⊢
  refine .apply hother (by simpa using hlength) ?_ fun pair hpair => ?_
  · have hsolved : ∀ {head : Ty} {args : List Ty} {kind : Kind},
        (Ty.apply head args kind).FirstOrder → head.bare.isUnsolved = false := by
      intro head args kind h
      rw [isUnsolved_bare]
      exact (firstOrder_apply.1 h).1
    rw [arrow_subst _ (hsolved h), arrow_subst _ (hsolved h'), hlength]
    exact hhead.arrow _
  · rw [List.map_map, List.map_map, List.zip_map, List.mem_map] at hpair
    obtain ⟨origin, hmem, rfl⟩ := hpair
    exact hargs origin hmem

end Ty

end PolyFront
