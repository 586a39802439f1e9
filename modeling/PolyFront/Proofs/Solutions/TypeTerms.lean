import PolyFront.Proofs.Solutions.KindTerms

/-!
# Types as terms

The variables and kinds that a type mentions and how substitution changes them.  A type is
proper when it mentions only variables that were created, its binders are named variables and
every application has an argument.
-/

namespace PolyFront

namespace Ty

/-- Induction over types, with arguments and binders as lists. -/
@[induction_eliminator]
theorem induct {motive : Ty → Prop} (var : ∀ quantifier name kind,
    motive (.var quantifier name kind))
    (unsolved : ∀ id kind, motive (.unsolved id kind))
    (constructor : ∀ name kind, motive (.constructor name kind))
    (apply : ∀ head args kind, motive head → (∀ arg ∈ args, motive arg) →
      motive (.apply head args kind))
    (quantified : ∀ binders body kind, (∀ binder ∈ binders, motive binder) → motive body →
      motive (.quantified binders body kind))
    (builtIn : ∀ type, motive (.builtIn type)) : ∀ type, motive type
  | .var quantifier name kind => var quantifier name kind
  | .unsolved id kind => unsolved id kind
  | .constructor name kind => constructor name kind
  | .apply head args kind =>
    apply head args kind (induct var unsolved constructor apply quantified builtIn head)
      fun arg _ => induct var unsolved constructor apply quantified builtIn arg
  | .quantified binders body kind =>
    quantified binders body kind
      (fun binder _ => induct var unsolved constructor apply quantified builtIn binder)
      (induct var unsolved constructor apply quantified builtIn body)
  | .builtIn type => builtIn type

theorem bindList_eq_map (f : Nat → Kind → Ty) (g : Kind → Kind) (types : List Ty) :
    bindList f g types = types.map (bind f g) := by
  induction types with
  | nil => rfl
  | cons type rest ih => rw [bindList, ih, List.map_cons]

section Bind

variable (f : Nat → Kind → Ty) (g : Kind → Kind)

@[simp]
theorem bind_var (quantifier : Quantifier) (name : String) (kind : Kind) :
    Ty.bind f g (.var quantifier name kind) = .var quantifier name (g kind) := rfl

@[simp]
theorem bind_unsolved (id : Nat) (kind : Kind) :
    Ty.bind f g (.unsolved id kind) = f id kind := rfl

@[simp]
theorem bind_constructor (name : QualifiedName) (kind : Kind) :
    Ty.bind f g (.constructor name kind) = .constructor name (g kind) := rfl

@[simp]
theorem bind_apply (head : Ty) (args : List Ty) (kind : Kind) :
    Ty.bind f g (.apply head args kind) =
      .apply (head.bind f g) (args.map (Ty.bind f g)) (g kind) := by
  rw [Ty.bind, bindList_eq_map]

@[simp]
theorem bind_quantified (binders : List Ty) (body : Ty) (kind : Kind) :
    Ty.bind f g (.quantified binders body kind) =
      .quantified (binders.map (Ty.bind f g)) (body.bind f g) (g kind) := by
  rw [Ty.bind, bindList_eq_map]

@[simp]
theorem bind_builtIn (type : BuiltIn) : Ty.bind f g (.builtIn type) = .builtIn type := rfl

end Bind

/-- A type in which the kinds of unsolved variables are blanked out. -/
def erased (type : Ty) : Ty := type.bind (fun id _ => .unsolved id .type) id

mutual
theorem same_iff (a b : Ty) : same a b = true ↔ a.erased = b.erased := by
  cases a <;> cases b <;> simp [same, erased]
  case var.var => rw [and_assoc]
  case apply.apply head args kind head' args' kind' =>
    rw [same_iff head head', sameList_iff args args', and_assoc]
    rfl
  case quantified.quantified binders body kind binders' body' kind' =>
    rw [sameList_iff binders binders', same_iff body body', and_assoc]
    rfl
theorem sameList_iff (as bs : List Ty) : sameList as bs = true ↔ as.map erased = bs.map erased := by
  cases as <;> cases bs <;> simp [sameList]
  case cons.cons a as b bs => rw [same_iff a b, sameList_iff as bs]
end

theorem beq_iff {a b : Ty} : (a == b) = true ↔ a.erased = b.erased := same_iff a b

instance : EquivBEq Ty where
  rfl := beq_iff.2 rfl
  symm h := beq_iff.2 (beq_iff.1 h).symm
  trans h h' := beq_iff.2 ((beq_iff.1 h).trans (beq_iff.1 h'))

/-- The unsolved variables of a type, those in binders included. -/
def mentions : Ty → List (Nat × Kind)
  | .unsolved id kind => [(id, kind)]
  | .apply head args _ => head.mentions ++ args.flatMap mentions
  | .quantified binders body _ => binders.flatMap mentions ++ body.mentions
  | .var _ _ _ => []
  | .constructor _ _ => []
  | .builtIn _ => []

/-- The kinds that a type carries apart from those of its unsolved variables. -/
def carried : Ty → List Kind
  | .var _ _ kind => [kind]
  | .unsolved _ _ => []
  | .constructor _ kind => [kind]
  | .apply head args kind => kind :: (head.carried ++ args.flatMap carried)
  | .quantified binders body kind => kind :: (binders.flatMap carried ++ body.carried)
  | .builtIn _ => []

theorem bind_congr {f f' : Nat → Kind → Ty} {g g' : Kind → Kind} {type : Ty}
    (hf : ∀ id kind, (id, kind) ∈ type.mentions → f id kind = f' id kind)
    (hg : ∀ kind ∈ type.carried, g kind = g' kind) : type.bind f g = type.bind f' g' := by
  induction type with
  | var quantifier name kind => simp [hg kind (by simp [carried])]
  | unsolved id kind => simp [hf id kind (by simp [mentions])]
  | constructor name kind => simp [hg kind (by simp [carried])]
  | builtIn type => simp
  | apply head args kind ihHead ihArgs =>
    simp only [mentions, List.mem_append, List.mem_flatMap] at hf
    simp only [carried, List.mem_cons, List.mem_append, List.mem_flatMap] at hg
    have hargs : args.map (Ty.bind f g) = args.map (Ty.bind f' g') :=
      List.map_congr_left fun arg harg => ihArgs arg harg
        (fun id kind h => hf id kind (.inr ⟨arg, harg, h⟩))
        fun kind h => hg kind (.inr (.inr ⟨arg, harg, h⟩))
    have hhead := ihHead (fun id kind h => hf id kind (.inl h)) fun kind h =>
      hg kind (.inr (.inl h))
    rw [bind_apply, bind_apply, hhead, hargs, hg kind (.inl rfl)]
  | quantified binders body kind ihBinders ihBody =>
    simp only [mentions, List.mem_append, List.mem_flatMap] at hf
    simp only [carried, List.mem_cons, List.mem_append, List.mem_flatMap] at hg
    have hbinders : binders.map (Ty.bind f g) = binders.map (Ty.bind f' g') :=
      List.map_congr_left fun binder hbinder => ihBinders binder hbinder
        (fun id kind h => hf id kind (.inl ⟨binder, hbinder, h⟩))
        fun kind h => hg kind (.inr (.inl ⟨binder, hbinder, h⟩))
    have hbody := ihBody (fun id kind h => hf id kind (.inr h)) fun kind h =>
      hg kind (.inr (.inr h))
    rw [bind_quantified, bind_quantified, hbody, hbinders, hg kind (.inl rfl)]

theorem bind_unsolved_id (type : Ty) : type.bind .unsolved id = type := by
  induction type with
  | var quantifier name kind => simp
  | unsolved id kind => simp
  | constructor name kind => simp
  | builtIn type => simp
  | apply head args kind ihHead ihArgs =>
    have hargs : args.map (Ty.bind .unsolved id) = args.map id := List.map_congr_left ihArgs
    rw [bind_apply, ihHead, hargs, List.map_id, id]
  | quantified binders body kind ihBinders ihBody =>
    have hbinders : binders.map (Ty.bind .unsolved id) = binders.map id :=
      List.map_congr_left ihBinders
    rw [bind_quantified, ihBody, hbinders, List.map_id, id]

theorem bind_self {f : Nat → Kind → Ty} {g : Kind → Kind} {type : Ty}
    (hf : ∀ id kind, (id, kind) ∈ type.mentions → f id kind = .unsolved id kind)
    (hg : ∀ kind ∈ type.carried, g kind = kind) : type.bind f g = type :=
  (bind_congr hf hg).trans type.bind_unsolved_id

theorem bind_bind (f f' : Nat → Kind → Ty) (g g' : Kind → Kind) (type : Ty) :
    (type.bind f g).bind f' g' =
      type.bind (fun id kind => (f id kind).bind f' g') fun kind => g' (g kind) := by
  induction type with
  | var quantifier name kind => simp
  | unsolved id kind => simp
  | constructor name kind => simp
  | builtIn type => simp
  | apply head args kind ihHead ihArgs =>
    rw [bind_apply, bind_apply, bind_apply, ihHead, List.map_map]
    congr 1
    exact List.map_congr_left ihArgs
  | quantified binders body kind ihBinders ihBody =>
    rw [bind_quantified, bind_quantified, bind_quantified, ihBody, List.map_map]
    congr 1
    exact List.map_congr_left ihBinders

theorem mem_mentions_bind {f : Nat → Kind → Ty} {g : Kind → Kind} {type : Ty}
    {v : Nat × Kind} : v ∈ (type.bind f g).mentions ↔
      ∃ id kind, (id, kind) ∈ type.mentions ∧ v ∈ (f id kind).mentions := by
  induction type with
  | var quantifier name kind => simp [mentions]
  | unsolved id kind =>
    simp only [bind_unsolved, mentions, List.mem_singleton, Prod.mk.injEq]
    constructor
    · intro hv
      exact ⟨id, kind, ⟨rfl, rfl⟩, hv⟩
    · rintro ⟨_, _, ⟨rfl, rfl⟩, hv⟩
      exact hv
  | constructor name kind => simp [mentions]
  | builtIn type => simp [mentions]
  | apply head args kind ihHead ihArgs =>
    simp only [bind_apply, mentions, List.mem_append, List.mem_flatMap, List.mem_map, ihHead]
    constructor
    · rintro (⟨id, kind, hmem, hv⟩ | ⟨_, ⟨arg, harg, rfl⟩, hv⟩)
      · exact ⟨id, kind, .inl hmem, hv⟩
      · obtain ⟨id, kind, hmem, hv⟩ := (ihArgs arg harg).1 hv
        exact ⟨id, kind, .inr ⟨arg, harg, hmem⟩, hv⟩
    · rintro ⟨id, kind, hmem | ⟨arg, harg, hmem⟩, hv⟩
      · exact .inl ⟨id, kind, hmem, hv⟩
      · exact .inr ⟨_, ⟨arg, harg, rfl⟩, (ihArgs arg harg).2 ⟨id, kind, hmem, hv⟩⟩
  | quantified binders body kind ihBinders ihBody =>
    simp only [bind_quantified, mentions, List.mem_append, List.mem_flatMap, List.mem_map, ihBody]
    constructor
    · rintro (⟨_, ⟨binder, hbinder, rfl⟩, hv⟩ | ⟨id, kind, hmem, hv⟩)
      · obtain ⟨id, kind, hmem, hv⟩ := (ihBinders binder hbinder).1 hv
        exact ⟨id, kind, .inl ⟨binder, hbinder, hmem⟩, hv⟩
      · exact ⟨id, kind, .inr hmem, hv⟩
    · rintro ⟨id, kind, ⟨binder, hbinder, hmem⟩ | hmem, hv⟩
      · exact .inl ⟨_, ⟨binder, hbinder, rfl⟩, (ihBinders binder hbinder).2 ⟨id, kind, hmem, hv⟩⟩
      · exact .inr ⟨id, kind, hmem, hv⟩

/-- The carried kinds after substitution: those that were there, mapped, and those that came
with the substituted types. -/
theorem mem_carried_bind {f : Nat → Kind → Ty} {g : Kind → Kind} {type : Ty} {k : Kind}
    (h : k ∈ (type.bind f g).carried) :
    (∃ kind ∈ type.carried, k = g kind) ∨
      ∃ id kind, (id, kind) ∈ type.mentions ∧ k ∈ (f id kind).carried := by
  induction type with
  | var quantifier name kind => simpa [carried, mentions] using h
  | unsolved id kind => exact .inr ⟨id, kind, by simp [mentions], by simpa using h⟩
  | constructor name kind => simpa [carried, mentions] using h
  | builtIn type => simp [carried] at h
  | apply head args kind ihHead ihArgs =>
    simp only [bind_apply, carried, mentions, List.mem_cons, List.mem_append, List.mem_flatMap,
      List.mem_map] at h ⊢
    rcases h with rfl | h | ⟨_, ⟨arg, harg, rfl⟩, h⟩
    · exact .inl ⟨kind, .inl rfl, rfl⟩
    · rcases ihHead h with ⟨k', hk', rfl⟩ | ⟨id, k', hmem, hk⟩
      · exact .inl ⟨k', .inr (.inl hk'), rfl⟩
      · exact .inr ⟨id, k', .inl hmem, hk⟩
    · rcases ihArgs arg harg h with ⟨k', hk', rfl⟩ | ⟨id, k', hmem, hk⟩
      · exact .inl ⟨k', .inr (.inr ⟨arg, harg, hk'⟩), rfl⟩
      · exact .inr ⟨id, k', .inr ⟨arg, harg, hmem⟩, hk⟩
  | quantified binders body kind ihBinders ihBody =>
    simp only [bind_quantified, carried, mentions, List.mem_cons, List.mem_append,
      List.mem_flatMap, List.mem_map] at h ⊢
    rcases h with rfl | ⟨_, ⟨binder, hbinder, rfl⟩, h⟩ | h
    · exact .inl ⟨kind, .inl rfl, rfl⟩
    · rcases ihBinders binder hbinder h with ⟨k', hk', rfl⟩ | ⟨id, k', hmem, hk⟩
      · exact .inl ⟨k', .inr (.inl ⟨binder, hbinder, hk'⟩), rfl⟩
      · exact .inr ⟨id, k', .inl ⟨binder, hbinder, hmem⟩, hk⟩
    · rcases ihBody h with ⟨k', hk', rfl⟩ | ⟨id, k', hmem, hk⟩
      · exact .inl ⟨k', .inr (.inr hk'), rfl⟩
      · exact .inr ⟨id, k', .inr hmem, hk⟩

/-! ## Proper types -/

/-- A named variable. -/
def isVar : Ty → Bool
  | .var _ _ _ => true
  | _ => false

/-- A type whose variables were all created, whose binders are named variables and whose
applications have arguments. -/
def Proper (kinds types : Nat) : Ty → Prop
  | .var _ _ kind => kind.Proper kinds
  | .unsolved id kind => id < types ∧ kind.Proper kinds
  | .constructor _ kind => kind.Proper kinds
  | .apply head args kind =>
    head.Proper kinds types ∧ args ≠ [] ∧ (∀ arg ∈ args, arg.Proper kinds types) ∧
      kind.Proper kinds
  | .quantified binders body kind =>
    (∀ binder ∈ binders, binder.isVar = true ∧ binder.Proper kinds types) ∧
      body.Proper kinds types ∧ kind.Proper kinds
  | .builtIn _ => True

section Proper

variable {kinds types kinds' types' : Nat}

theorem proper_var {quantifier : Quantifier} {name : String} {kind : Kind} :
    Proper kinds types (.var quantifier name kind) ↔ kind.Proper kinds := by rw [Proper]

theorem proper_unsolved {id : Nat} {kind : Kind} :
    Proper kinds types (.unsolved id kind) ↔ id < types ∧ kind.Proper kinds := by rw [Proper]

theorem proper_apply {head : Ty} {args : List Ty} {kind : Kind} :
    Proper kinds types (.apply head args kind) ↔
      head.Proper kinds types ∧ args ≠ [] ∧ (∀ arg ∈ args, arg.Proper kinds types) ∧
        kind.Proper kinds := by rw [Proper]

theorem proper_quantified {binders : List Ty} {body : Ty} {kind : Kind} :
    Proper kinds types (.quantified binders body kind) ↔
      (∀ binder ∈ binders, binder.isVar = true ∧ binder.Proper kinds types) ∧
        body.Proper kinds types ∧ kind.Proper kinds := by rw [Proper]

mutual
instance decidableProper (kinds types : Nat) : (type : Ty) → Decidable (type.Proper kinds types)
  | .var _ _ kind => decidable_of_iff (kind.Proper kinds) (by rw [Proper])
  | .unsolved id kind => decidable_of_iff (id < types ∧ kind.Proper kinds) (by rw [Proper])
  | .constructor _ kind => decidable_of_iff (kind.Proper kinds) (by rw [Proper])
  | .apply head args kind =>
    have := decidableProper kinds types head
    have := decidableProperList kinds types args
    decidable_of_iff (head.Proper kinds types ∧ args.isEmpty = false ∧
      (∀ arg ∈ args, arg.Proper kinds types) ∧ kind.Proper kinds) (by
        rw [proper_apply, List.isEmpty_eq_false_iff])
  | .quantified binders body kind =>
    have := decidableProper kinds types body
    have := decidableProperList kinds types binders
    decidable_of_iff ((∀ binder ∈ binders, binder.isVar = true) ∧
      (∀ binder ∈ binders, binder.Proper kinds types) ∧ body.Proper kinds types ∧
      kind.Proper kinds) (by
        rw [proper_quantified, ← and_assoc]
        refine and_congr_left fun _ => ?_
        exact ⟨fun h binder hbinder => ⟨h.1 binder hbinder, h.2 binder hbinder⟩,
          fun h => ⟨fun binder hbinder => (h binder hbinder).1,
            fun binder hbinder => (h binder hbinder).2⟩⟩)
  | .builtIn _ => .isTrue (by rw [Proper]; trivial)
instance decidableProperList (kinds types : Nat) :
    (list : List Ty) → Decidable (∀ type ∈ list, type.Proper kinds types)
  | [] => .isTrue (by simp)
  | type :: rest =>
    have := decidableProper kinds types type
    have := decidableProperList kinds types rest
    decidable_of_iff (type.Proper kinds types ∧ ∀ other ∈ rest, other.Proper kinds types)
      (by rw [List.forall_mem_cons])
end

theorem Proper.mono {type : Ty} (h : type.Proper kinds types) (hkinds : kinds ≤ kinds')
    (htypes : types ≤ types') : type.Proper kinds' types' := by
  induction type with
  | var quantifier name kind => exact proper_var.2 ((proper_var.1 h).mono hkinds)
  | unsolved id kind =>
    obtain ⟨hid, hkind⟩ := proper_unsolved.1 h
    exact proper_unsolved.2 ⟨Nat.lt_of_lt_of_le hid htypes, hkind.mono hkinds⟩
  | constructor name kind =>
    rw [Proper] at h ⊢
    exact h.mono hkinds
  | builtIn type => rw [Proper]; trivial
  | apply head args kind ihHead ihArgs =>
    obtain ⟨hhead, hne, hargs, hkind⟩ := proper_apply.1 h
    exact proper_apply.2 ⟨ihHead hhead, hne, fun arg harg => ihArgs arg harg (hargs arg harg),
      hkind.mono hkinds⟩
  | quantified binders body kind ihBinders ihBody =>
    obtain ⟨hbinders, hbody, hkind⟩ := proper_quantified.1 h
    exact proper_quantified.2 ⟨fun binder hbinder => ⟨(hbinders binder hbinder).1,
      ihBinders binder hbinder (hbinders binder hbinder).2⟩, ihBody hbody, hkind.mono hkinds⟩

theorem Proper.bind {type : Ty} {f : Nat → Kind → Ty} {g : Kind → Kind}
    (h : type.Proper kinds types)
    (hf : ∀ id kind, (id, kind) ∈ type.mentions → (f id kind).Proper kinds types)
    (hg : ∀ kind : Kind, kind.Proper kinds → (g kind).Proper kinds) :
    (type.bind f g).Proper kinds types := by
  induction type with
  | var quantifier name kind =>
    rw [bind_var]
    exact proper_var.2 (hg kind (proper_var.1 h))
  | unsolved id kind =>
    rw [bind_unsolved]
    exact hf id kind (by simp [mentions])
  | constructor name kind =>
    rw [bind_constructor, Proper]
    rw [Proper] at h
    exact hg kind h
  | builtIn type =>
    rw [bind_builtIn, Proper]
    trivial
  | apply head args kind ihHead ihArgs =>
    obtain ⟨hhead, hne, hargs, hkind⟩ := proper_apply.1 h
    simp only [mentions, List.mem_append, List.mem_flatMap] at hf
    rw [bind_apply]
    refine proper_apply.2 ⟨ihHead hhead fun id kind hmem => hf id kind (.inl hmem),
      by simpa using hne, ?_, hg kind hkind⟩
    intro arg' harg'
    obtain ⟨arg, harg, rfl⟩ := List.mem_map.1 harg'
    exact ihArgs arg harg (hargs arg harg) fun id kind hmem => hf id kind (.inr ⟨arg, harg, hmem⟩)
  | quantified binders body kind ihBinders ihBody =>
    obtain ⟨hbinders, hbody, hkind⟩ := proper_quantified.1 h
    simp only [mentions, List.mem_append, List.mem_flatMap] at hf
    rw [bind_quantified]
    refine proper_quantified.2 ⟨?_, ihBody hbody fun id kind hmem => hf id kind (.inr hmem),
      hg kind hkind⟩
    intro binder' hbinder'
    obtain ⟨binder, hbinder, rfl⟩ := List.mem_map.1 hbinder'
    refine ⟨?_, ihBinders binder hbinder (hbinders binder hbinder).2 fun id kind hmem =>
      hf id kind (.inl ⟨binder, hbinder, hmem⟩)⟩
    have hvar := (hbinders binder hbinder).1
    cases binder with
    | var quantifier name kind =>
      rw [bind_var]
      rfl
    | _ => cases hvar

theorem Proper.kind {type : Ty} (h : type.Proper kinds types) : type.kind.Proper kinds := by
  cases type with
  | var quantifier name kind => exact proper_var.1 h
  | unsolved id kind => exact (proper_unsolved.1 h).2
  | constructor name kind =>
    rw [Proper] at h
    exact h
  | apply head args kind => exact (proper_apply.1 h).2.2.2
  | quantified binders body kind => exact (proper_quantified.1 h).2.2
  | builtIn type =>
    rw [Ty.kind]
    unfold BuiltIn.kind
    split
    · exact Kind.proper_simple _ _
    · exact Kind.proper_type _

theorem Proper.lt {type : Ty} (h : type.Proper kinds types) {id : Nat} {kind : Kind}
    (hmem : (id, kind) ∈ type.mentions) : id < types ∧ kind.Proper kinds := by
  induction type with
  | var quantifier name kind => simp [mentions] at hmem
  | unsolved other kind =>
    obtain ⟨rfl, rfl⟩ := Prod.mk.inj (List.mem_singleton.1 (by simpa [mentions] using hmem))
    exact proper_unsolved.1 h
  | constructor name kind => simp [mentions] at hmem
  | builtIn type => simp [mentions] at hmem
  | apply head args kind ihHead ihArgs =>
    obtain ⟨hhead, -, hargs, -⟩ := proper_apply.1 h
    rw [mentions, List.mem_append, List.mem_flatMap] at hmem
    rcases hmem with hmem | ⟨arg, harg, hmem⟩
    · exact ihHead hhead hmem
    · exact ihArgs arg harg (hargs arg harg) hmem
  | quantified binders body kind ihBinders ihBody =>
    obtain ⟨hbinders, hbody, -⟩ := proper_quantified.1 h
    rw [mentions, List.mem_append, List.mem_flatMap] at hmem
    rcases hmem with ⟨binder, hbinder, hmem⟩ | hmem
    · exact ihBinders binder hbinder (hbinders binder hbinder).2 hmem
    · exact ihBody hbody hmem

theorem Proper.carried {type : Ty} (h : type.Proper kinds types) {kind : Kind}
    (hmem : kind ∈ type.carried) : kind.Proper kinds := by
  induction type with
  | var quantifier name varKind =>
    obtain rfl : kind = varKind := by simpa [Ty.carried] using hmem
    exact proper_var.1 h
  | unsolved id unsolvedKind => simp [Ty.carried] at hmem
  | constructor name constructorKind =>
    obtain rfl : kind = constructorKind := by simpa [Ty.carried] using hmem
    rw [Proper] at h
    exact h
  | builtIn type => simp [Ty.carried] at hmem
  | apply head args applied ihHead ihArgs =>
    obtain ⟨hhead, -, hargs, happlied⟩ := proper_apply.1 h
    rw [Ty.carried, List.mem_cons, List.mem_append, List.mem_flatMap] at hmem
    rcases hmem with rfl | hmem | ⟨arg, harg, hmem⟩
    · exact happlied
    · exact ihHead hhead hmem
    · exact ihArgs arg harg (hargs arg harg) hmem
  | quantified binders body quantifiedKind ihBinders ihBody =>
    obtain ⟨hbinders, hbody, hkind⟩ := proper_quantified.1 h
    rw [Ty.carried, List.mem_cons, List.mem_append, List.mem_flatMap] at hmem
    rcases hmem with rfl | ⟨binder, hbinder, hmem⟩ | hmem
    · exact hkind
    · exact ihBinders binder hbinder (hbinders binder hbinder).2 hmem
    · exact ihBody hbody hmem

end Proper

/-! ## Kinds -/

theorem kindsList_eq_flatMap (types : List Ty) : kindsList types = types.flatMap kinds := by
  induction types with
  | nil => rfl
  | cons type rest ih => rw [kindsList, ih, List.flatMap_cons]

/-- The kinds in a type are carried, belong to a variable or to a built-in type. -/
theorem mem_kinds_cases {type : Ty} {kind : Kind} (h : kind ∈ type.kinds) :
    kind ∈ type.carried ∨ (∃ id, (id, kind) ∈ type.mentions) ∨ ∃ builtIn : BuiltIn,
      kind = builtIn.kind := by
  induction type with
  | var quantifier name varKind => exact .inl (by simpa [kinds, carried] using h)
  | unsolved id unsolvedKind =>
    obtain rfl : kind = unsolvedKind := by simpa [kinds] using h
    exact .inr (.inl ⟨id, by simp [mentions]⟩)
  | constructor name constructorKind => exact .inl (by simpa [kinds, carried] using h)
  | builtIn type => exact .inr (.inr ⟨type, by simpa [kinds] using h⟩)
  | apply head args applied ihHead ihArgs =>
    rw [kinds, kindsList_eq_flatMap, List.mem_cons, List.mem_append, List.mem_flatMap] at h
    simp only [carried, mentions, List.mem_cons, List.mem_append, List.mem_flatMap]
    rcases h with rfl | h | ⟨arg, harg, h⟩
    · exact .inl (.inl rfl)
    · rcases ihHead h with h | ⟨id, h⟩ | h
      · exact .inl (.inr (.inl h))
      · exact .inr (.inl ⟨id, .inl h⟩)
      · exact .inr (.inr h)
    · rcases ihArgs arg harg h with h | ⟨id, h⟩ | h
      · exact .inl (.inr (.inr ⟨arg, harg, h⟩))
      · exact .inr (.inl ⟨id, .inr ⟨arg, harg, h⟩⟩)
      · exact .inr (.inr h)
  | quantified binders body quantifiedKind ihBinders ihBody =>
    rw [kinds, kindsList_eq_flatMap, List.mem_cons, List.mem_append, List.mem_flatMap] at h
    simp only [carried, mentions, List.mem_cons, List.mem_append, List.mem_flatMap]
    rcases h with rfl | ⟨binder, hbinder, h⟩ | h
    · exact .inl (.inl rfl)
    · rcases ihBinders binder hbinder h with h | ⟨id, h⟩ | h
      · exact .inl (.inr (.inl ⟨binder, hbinder, h⟩))
      · exact .inr (.inl ⟨id, .inl ⟨binder, hbinder, h⟩⟩)
      · exact .inr (.inr h)
    · rcases ihBody h with h | ⟨id, h⟩ | h
      · exact .inl (.inr (.inr h))
      · exact .inr (.inl ⟨id, .inr h⟩)
      · exact .inr (.inr h)

/-! ## Unknowns -/

theorem unknowns_unsolved (id : Nat) (kind : Kind) : unknowns (.unsolved id kind) =
    [(id, kind)] := by
  rw [unknowns, Walk.items, Walk.run]
  simp [walk, Walk.run]

theorem unknowns_apply (head : Ty) (args : List Ty) (kind : Kind) :
    unknowns (.apply head args kind) = head.unknowns ++ args.flatMap unknowns := by
  have hrun : unknowns (.apply head args kind) = walk.run (head :: args) := by
    rw [unknowns, Walk.items, Walk.run]
    simp [walk]
  rw [hrun, Walk.run_eq_flatMap, List.flatMap_cons]
  rfl

theorem unknowns_quantified (binders : List Ty) (body : Ty) (kind : Kind) :
    unknowns (.quantified binders body kind) = body.unknowns := by
  rw [unknowns, Walk.items, Walk.run]
  simp [walk]
  rfl

/-- A type whose binders are named variables. -/
def NamedBinders : Ty → Prop
  | .apply head args _ => head.NamedBinders ∧ ∀ arg ∈ args, arg.NamedBinders
  | .quantified binders body _ => (∀ binder ∈ binders, binder.isVar = true) ∧ body.NamedBinders
  | .var _ _ _ => True
  | .unsolved _ _ => True
  | .constructor _ _ => True
  | .builtIn _ => True

/-- Where binders are named variables, the unknowns of a type are all it mentions. -/
theorem NamedBinders.mem_unknowns {type : Ty} (h : type.NamedBinders) {v : Nat × Kind} :
    v ∈ type.unknowns ↔ v ∈ type.mentions := by
  induction type with
  | var quantifier name kind => simp [unknowns, Walk.items, Walk.run, walk, mentions]
  | unsolved other kind => rw [unknowns_unsolved, mentions]
  | constructor name kind => simp [unknowns, Walk.items, Walk.run, walk, mentions]
  | builtIn type => simp [unknowns, Walk.items, Walk.run, walk, mentions]
  | apply head args kind ihHead ihArgs =>
    rw [NamedBinders] at h
    rw [unknowns_apply, mentions, List.mem_append, List.mem_append, ihHead h.1,
      List.mem_flatMap, List.mem_flatMap]
    refine or_congr_right (exists_congr fun arg => and_congr_right fun harg => ?_)
    exact ihArgs arg harg (h.2 arg harg)
  | quantified binders body kind ihBinders ihBody =>
    rw [NamedBinders] at h
    rw [unknowns_quantified, mentions, List.mem_append, ihBody h.2]
    refine ⟨.inr, fun hv => hv.resolve_left fun hin => ?_⟩
    obtain ⟨binder, hbinder, hin⟩ := List.mem_flatMap.1 hin
    have hvar := h.1 binder hbinder
    cases binder with
    | var quantifier name kind => simp [mentions] at hin
    | _ => cases hvar

/-- The occurrence check finds every variable that a type with named binders mentions. -/
theorem NamedBinders.occurs_iff {type : Ty} (h : type.NamedBinders) {id : Nat} :
    type.occurs id = true ↔ ∃ kind, (id, kind) ∈ type.mentions := by
  rw [occurs, List.any_eq_true]
  constructor
  · rintro ⟨⟨other, kind⟩, hmem, heq⟩
    obtain rfl := eq_of_beq heq
    exact ⟨kind, h.mem_unknowns.1 hmem⟩
  · rintro ⟨kind, hmem⟩
    exact ⟨(id, kind), h.mem_unknowns.2 hmem, BEq.refl id⟩

theorem Proper.namedBinders {kinds types : Nat} {type : Ty} (h : type.Proper kinds types) :
    type.NamedBinders := by
  induction type with
  | apply head args kind ihHead ihArgs =>
    obtain ⟨hhead, -, hargs, -⟩ := proper_apply.1 h
    rw [NamedBinders]
    exact ⟨ihHead hhead, fun arg harg => ihArgs arg harg (hargs arg harg)⟩
  | quantified binders body kind ihBinders ihBody =>
    obtain ⟨hbinders, hbody, -⟩ := proper_quantified.1 h
    rw [NamedBinders]
    exact ⟨fun binder hbinder => (hbinders binder hbinder).1, ihBody hbody⟩
  | _ => rw [NamedBinders]; trivial

/-! ## Instantiation -/

theorem instantiateList_eq_map (assignment : Table String Ty) (types : List Ty) :
    instantiateList assignment types = types.map (instantiate assignment) := by
  induction types with
  | nil => rfl
  | cons type rest ih => rw [instantiateList, ih, List.map_cons]

theorem get?_of_get?_erase {assignment : Table String Ty} {key name : String} {type : Ty}
    (h : (assignment.erase key).get? name = some type) : assignment.get? name = some type := by
  rw [Table.get?_erase] at h
  split at h
  · cases h
  · exact h

theorem get?_of_get?_foldl_erase {assignment : Table String Ty} {names : List String}
    {name : String} {type : Ty}
    (h : (names.foldl Table.erase assignment).get? name = some type) :
    assignment.get? name = some type := by
  induction names generalizing assignment with
  | nil => exact h
  | cons key rest ih => exact get?_of_get?_erase (ih h)

/-- A proper type stays proper when proper types are put for named variables. -/
theorem Proper.instantiate {kinds types : Nat} {type : Ty} {assignment : Table String Ty}
    (h : type.Proper kinds types)
    (hassignment : ∀ name value, assignment.get? name = some value → value.Proper kinds types) :
    (type.instantiate assignment).Proper kinds types := by
  induction type generalizing assignment with
  | var quantifier name kind =>
    rw [Ty.instantiate]
    cases hget : assignment.get? name with
    | none => exact h
    | some value => exact hassignment name value hget
  | unsolved id kind => rwa [Ty.instantiate]
  | constructor name kind => rwa [Ty.instantiate]
  | builtIn type => rwa [Ty.instantiate]
  | apply head args kind ihHead ihArgs =>
    obtain ⟨hhead, hne, hargs, hkind⟩ := proper_apply.1 h
    rw [Ty.instantiate, instantiateList_eq_map]
    refine proper_apply.2 ⟨ihHead hhead hassignment, by simpa using hne, ?_, hkind⟩
    intro arg' harg'
    obtain ⟨arg, harg, rfl⟩ := List.mem_map.1 harg'
    exact ihArgs arg harg (hargs arg harg) hassignment
  | quantified binders body kind ihBinders ihBody =>
    obtain ⟨hbinders, hbody, hkind⟩ := proper_quantified.1 h
    rw [Ty.instantiate]
    refine proper_quantified.2 ⟨hbinders, ihBody hbody ?_, hkind⟩
    intro name value hget
    exact hassignment name value (get?_of_get?_foldl_erase hget)

/-- An instantiated type mentions what it mentioned before and what the new types mention. -/
theorem mem_mentions_instantiate {type : Ty} {assignment : Table String Ty} {v : Nat × Kind}
    (h : v ∈ (type.instantiate assignment).mentions) :
    v ∈ type.mentions ∨ ∃ name value, assignment.get? name = some value ∧ v ∈ value.mentions := by
  induction type generalizing assignment with
  | var quantifier name kind =>
    rw [instantiate] at h
    cases hget : assignment.get? name with
    | none =>
      rw [hget] at h
      exact .inl h
    | some value =>
      rw [hget] at h
      exact .inr ⟨name, value, hget, h⟩
  | unsolved id kind =>
    rw [instantiate] at h
    exact .inl h
  | constructor name kind =>
    rw [instantiate] at h
    exact .inl h
  | builtIn type =>
    rw [instantiate] at h
    exact .inl h
  | apply head args kind ihHead ihArgs =>
    rw [instantiate, instantiateList_eq_map, mentions, List.mem_append, List.mem_flatMap] at h
    rw [mentions, List.mem_append, List.mem_flatMap]
    rcases h with h | ⟨_, hmem, h⟩
    · exact (ihHead h).imp_left .inl
    · obtain ⟨arg, harg, rfl⟩ := List.mem_map.1 hmem
      exact (ihArgs arg harg h).imp_left fun hv => .inr ⟨arg, harg, hv⟩
  | quantified binders body kind ihBinders ihBody =>
    rw [instantiate, mentions, List.mem_append] at h
    rw [mentions, List.mem_append]
    rcases h with h | h
    · exact .inl (.inl h)
    · rcases ihBody h with hv | ⟨name, value, hget, hv⟩
      · exact .inl (.inr hv)
      · exact .inr ⟨name, value, get?_of_get?_foldl_erase hget, hv⟩

/-! ## Representatives -/

/-- Unsolved types are the variables; named variables, constructors and built-in types are
leaves. -/
def shape : TermShape Ty where
  unknown := isUnsolved
  leaf
    | .var _ _ _ | .constructor _ _ | .builtIn _ => true
    | .unsolved _ _ | .apply _ _ _ | .quantified _ _ _ => false
  unknown_congr {a b} h := by
    cases a <;> cases b <;> first | rfl | cases h
  leaf_congr {a b} h := by
    cases a <;> cases b <;> first | rfl | cases h
  unknown_of_leaf {a} h := by
    cases a <;> first | rfl | cases h

theorem unknown_iff {type : Ty} : shape.unknown type = true ↔ ∃ id kind,
    type = .unsolved id kind := by
  cases type <;> simp [shape, isUnsolved]

theorem unknown_bind {f : Nat → Kind → Ty} {g : Kind → Kind} {type : Ty}
    (h : shape.unknown type = false) : shape.unknown (type.bind f g) = false := by
  cases type with
  | unsolved id kind => cases h
  | _ => simp [shape, isUnsolved]

theorem leaf_bind {f : Nat → Kind → Ty} {g : Kind → Kind} {type : Ty}
    (h : shape.leaf type = true) : shape.leaf (type.bind f g) = true := by
  cases type with
  | unsolved id kind => cases h
  | apply head args kind => cases h
  | quantified binders body kind => cases h
  | _ => simp [shape]

theorem picks_pickType {α : Type} (frames : List (Frame α)) : shape.Picks (pickType frames) where
  solved {a b} ha hb := by
    obtain ⟨id, kind, rfl⟩ := unknown_iff.1 ha
    cases b with
    | unsolved other kind => cases hb
    | _ => rfl
  chosen {a b} ha hb := by
    obtain ⟨id, kind, rfl⟩ := unknown_iff.1 ha
    obtain ⟨other, otherKind, rfl⟩ := unknown_iff.1 hb
    simp only [pickType]
    split
    · exact .inl rfl
    · exact .inr rfl

/-- Unsolved types are the variables, and no type counts as a leaf. -/
def plainShape : TermShape Ty where
  unknown := isUnsolved
  leaf _ := false
  unknown_congr := shape.unknown_congr
  leaf_congr _ := rfl
  unknown_of_leaf h := by cases h

theorem picks_plain {α : Type} (frames : List (Frame α)) : plainShape.Picks (pickType frames) :=
  ⟨(picks_pickType frames).solved, (picks_pickType frames).chosen⟩

theorem unsolved_beq {id other : Nat} {kind otherKind : Kind} :
    (Ty.unsolved id kind == Ty.unsolved other otherKind) = true ↔ id = other := by
  simp [beq_iff, erased]

theorem mem_mentions_erased {type : Ty} {id : Nat} :
    (∃ kind, (id, kind) ∈ type.erased.mentions) ↔ ∃ kind, (id, kind) ∈ type.mentions := by
  constructor
  · rintro ⟨kind, h⟩
    obtain ⟨other, kind', hmem, h⟩ := mem_mentions_bind.1 h
    obtain ⟨rfl, -⟩ := Prod.mk.inj (List.mem_singleton.1 (by simpa [mentions] using h))
    exact ⟨kind', hmem⟩
  · rintro ⟨kind, h⟩
    exact ⟨.type, mem_mentions_bind.2 ⟨id, kind, h, by simp [mentions]⟩⟩

/-- Types that count as the same mention the same variables. -/
theorem mem_mentions_of_beq {a b : Ty} (h : (a == b) = true) {id : Nat} :
    (∃ kind, (id, kind) ∈ a.mentions) ↔ ∃ kind, (id, kind) ∈ b.mentions := by
  rw [← mem_mentions_erased, beq_iff.1 h, mem_mentions_erased]

end Ty

end PolyFront
