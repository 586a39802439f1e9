import PolyFront.Proofs.Grounding.Laid
import PolyFront.Proofs.Kinding.Ground

/-!
# Types that fit

A type fits when all kinds in it are live, in a sense that depends on what is known of kinds, when
the variables it mentions were created and when its binders are named variables.  Nothing that is
done to types takes them out of that: binders are replaced by types that fit, and so are variables
that are solved.
-/

namespace PolyFront

namespace Kind

theorem ground_simple (arity : Nat) : (simple arity).Ground := by
  unfold simple
  split
  · exact ground_type
  · refine ground_higher.2 ⟨fun arg harg => ?_, ground_type⟩
    rw [List.eq_of_mem_replicate harg]
    exact ground_type

end Kind

theorem BuiltIn.ground_kind (type : BuiltIn) : type.kind.Ground := by
  cases type with
  | function arity => exact Kind.ground_simple (arity + 1)
  | _ => exact Kind.ground_type

namespace Ty

/-- The kinds in the type are live, its variables were created and its binders are named. -/
def Fits (live : Kind → Prop) (created : Nat) : Ty → Prop
  | .var _ _ kind => live kind
  | .unsolved id kind => id < created ∧ live kind
  | .constructor _ kind => live kind
  | .apply head args kind =>
    head.Fits live created ∧ (∀ arg ∈ args, arg.Fits live created) ∧ live kind
  | .quantified binders body kind =>
    (∀ binder ∈ binders, binder.isVar = true ∧ binder.Fits live created) ∧
      body.Fits live created ∧ live kind
  | .builtIn _ => True

section Fits

variable {live live' : Kind → Prop} {created created' : Nat} {type : Ty}

@[simp]
theorem fits_var {quantifier : Quantifier} {name : String} {kind : Kind} :
    Fits live created (.var quantifier name kind) ↔ live kind := by rw [Fits]

@[simp]
theorem fits_unsolved {id : Nat} {kind : Kind} :
    Fits live created (.unsolved id kind) ↔ id < created ∧ live kind := by rw [Fits]

@[simp]
theorem fits_constructor {name : QualifiedName} {kind : Kind} :
    Fits live created (.constructor name kind) ↔ live kind := by rw [Fits]

@[simp]
theorem fits_builtIn (type : BuiltIn) : Fits live created (.builtIn type) := by
  rw [Fits]
  trivial

@[simp]
theorem fits_apply {head : Ty} {args : List Ty} {kind : Kind} :
    Fits live created (.apply head args kind) ↔
      head.Fits live created ∧ (∀ arg ∈ args, arg.Fits live created) ∧ live kind := by rw [Fits]

@[simp]
theorem fits_quantified {binders : List Ty} {body : Ty} {kind : Kind} :
    Fits live created (.quantified binders body kind) ↔
      (∀ binder ∈ binders, binder.isVar = true ∧ binder.Fits live created) ∧
        body.Fits live created ∧ live kind := by rw [Fits]

namespace Fits

theorem mono (h : type.Fits live created) (hlive : ∀ kind, live kind → live' kind)
    (hle : created ≤ created') : type.Fits live' created' := by
  induction type with
  | var quantifier name kind => exact fits_var.2 (hlive kind (fits_var.1 h))
  | unsolved id kind =>
    obtain ⟨hid, hkind⟩ := fits_unsolved.1 h
    exact fits_unsolved.2 ⟨Nat.lt_of_lt_of_le hid hle, hlive kind hkind⟩
  | constructor name kind => exact fits_constructor.2 (hlive kind (fits_constructor.1 h))
  | builtIn type => exact fits_builtIn type
  | apply head args kind ihHead ihArgs =>
    obtain ⟨hhead, hargs, hkind⟩ := fits_apply.1 h
    exact fits_apply.2 ⟨ihHead hhead, fun arg harg => ihArgs arg harg (hargs arg harg),
      hlive kind hkind⟩
  | quantified binders body kind ihBinders ihBody =>
    obtain ⟨hbinders, hbody, hkind⟩ := fits_quantified.1 h
    exact fits_quantified.2 ⟨fun binder hbinder => ⟨(hbinders binder hbinder).1,
      ihBinders binder hbinder (hbinders binder hbinder).2⟩, ihBody hbody, hlive kind hkind⟩

theorem kind (h : type.Fits live created) (hground : ∀ kind : Kind, kind.Ground → live kind) :
    live type.kind := by
  cases type with
  | var quantifier name kind => exact fits_var.1 h
  | unsolved id kind => exact (fits_unsolved.1 h).2
  | constructor name kind => exact fits_constructor.1 h
  | apply head args kind => exact (fits_apply.1 h).2.2
  | quantified binders body kind => exact (fits_quantified.1 h).2.2
  | builtIn type => exact hground _ type.ground_kind

theorem kinds (h : type.Fits live created) (hground : ∀ kind : Kind, kind.Ground → live kind) :
    ∀ kind ∈ type.kinds, live kind := by
  induction type with
  | var quantifier name kind =>
    simp only [Ty.kinds, List.mem_singleton]
    exact fun _ heq => heq ▸ fits_var.1 h
  | unsolved id kind =>
    simp only [Ty.kinds, List.mem_singleton]
    exact fun _ heq => heq ▸ (fits_unsolved.1 h).2
  | constructor name kind =>
    simp only [Ty.kinds, List.mem_singleton]
    exact fun _ heq => heq ▸ fits_constructor.1 h
  | builtIn type =>
    simp only [Ty.kinds, List.mem_singleton]
    exact fun _ heq => heq ▸ hground _ type.ground_kind
  | apply head args kind ihHead ihArgs =>
    obtain ⟨hhead, hargs, hkind⟩ := fits_apply.1 h
    simp only [Ty.kinds, kindsList_eq_flatMap, List.mem_cons, List.mem_append, List.mem_flatMap]
    rintro k (rfl | hk | ⟨arg, harg, hk⟩)
    · exact hkind
    · exact ihHead hhead k hk
    · exact ihArgs arg harg (hargs arg harg) k hk
  | quantified binders body kind ihBinders ihBody =>
    obtain ⟨hbinders, hbody, hkind⟩ := fits_quantified.1 h
    simp only [Ty.kinds, kindsList_eq_flatMap, List.mem_cons, List.mem_append, List.mem_flatMap]
    rintro k (rfl | ⟨binder, hbinder, hk⟩ | hk)
    · exact hkind
    · exact ihBinders binder hbinder (hbinders binder hbinder).2 k hk
    · exact ihBody hbody k hk

theorem lt (h : type.Fits live created) {id : Nat} {kind : Kind}
    (hmem : (id, kind) ∈ type.mentions) : id < created := by
  induction type with
  | var quantifier name kind => simp [mentions] at hmem
  | unsolved other kind =>
    obtain ⟨rfl, rfl⟩ := Prod.mk.inj (List.mem_singleton.1 (by simpa [mentions] using hmem))
    exact (fits_unsolved.1 h).1
  | constructor name kind => simp [mentions] at hmem
  | builtIn type => simp [mentions] at hmem
  | apply head args kind ihHead ihArgs =>
    obtain ⟨hhead, hargs, -⟩ := fits_apply.1 h
    rw [mentions, List.mem_append, List.mem_flatMap] at hmem
    rcases hmem with hmem | ⟨arg, harg, hmem⟩
    · exact ihHead hhead hmem
    · exact ihArgs arg harg (hargs arg harg) hmem
  | quantified binders body kind ihBinders ihBody =>
    obtain ⟨hbinders, hbody, -⟩ := fits_quantified.1 h
    rw [mentions, List.mem_append, List.mem_flatMap] at hmem
    rcases hmem with ⟨binder, hbinder, hmem⟩ | hmem
    · exact ihBinders binder hbinder (hbinders binder hbinder).2 hmem
    · exact ihBody hbody hmem

theorem namedBinders (h : type.Fits live created) : type.NamedBinders := by
  induction type with
  | apply head args kind ihHead ihArgs =>
    obtain ⟨hhead, hargs, -⟩ := fits_apply.1 h
    rw [NamedBinders]
    exact ⟨ihHead hhead, fun arg harg => ihArgs arg harg (hargs arg harg)⟩
  | quantified binders body kind ihBinders ihBody =>
    obtain ⟨hbinders, hbody, -⟩ := fits_quantified.1 h
    rw [NamedBinders]
    exact ⟨fun binder hbinder => (hbinders binder hbinder).1, ihBody hbody⟩
  | _ => rw [NamedBinders]; trivial

/-- What the occurrence check does not find is not mentioned. -/
theorem not_mentions (h : type.Fits live created) {id : Nat} (hoccurs : ¬type.occurs id = true) :
    ¬Mentions id type :=
  fun hmentions => hoccurs (h.namedBinders.occurs_iff.2 hmentions)

theorem function {args : List Ty} {result : Ty} (hargs : ∀ arg ∈ args, arg.Fits live created)
    (hresult : result.Fits live created) (htype : live .type) :
    (Ty.function args result).Fits live created := by
  refine fits_apply.2 ⟨fits_builtIn _, fun arg harg => ?_, htype⟩
  rcases List.mem_append.1 harg with harg | harg
  · exact hargs arg harg
  · rw [List.mem_singleton.1 harg]
    exact hresult

theorem of_function? (h : type.Fits live created) {args : List Ty} {result : Ty}
    (hfunction : type.function? = some (args, result)) :
    (∀ arg ∈ args, arg.Fits live created) ∧ result.Fits live created := by
  unfold function? at hfunction
  split at hfunction
  · rename_i all kind
    obtain ⟨last, hlast, heq⟩ := Option.map_eq_some_iff.1 hfunction
    obtain ⟨rfl, rfl⟩ := Prod.mk.inj heq
    have hall := (fits_apply.1 h).2.1
    exact ⟨fun arg harg => hall arg (List.dropLast_subset _ harg),
      hall last (List.mem_of_getLast? hlast)⟩
  · cases hfunction

/-- Variables and kinds are replaced by what fits. -/
theorem bind (h : type.Fits live created) {f : Nat → Kind → Ty} {g : Kind → Kind}
    (hf : ∀ id kind, id < created → live kind → (f id kind).Fits live' created)
    (hg : ∀ kind, live kind → live' (g kind)) : (type.bind f g).Fits live' created := by
  induction type with
  | var quantifier name kind => simpa using hg kind (fits_var.1 h)
  | unsolved id kind =>
    obtain ⟨hid, hkind⟩ := fits_unsolved.1 h
    simpa using hf id kind hid hkind
  | constructor name kind => simpa using hg kind (fits_constructor.1 h)
  | builtIn type => simp
  | apply head args kind ihHead ihArgs =>
    obtain ⟨hhead, hargs, hkind⟩ := fits_apply.1 h
    rw [bind_apply]
    refine fits_apply.2 ⟨ihHead hhead, fun arg harg => ?_, hg kind hkind⟩
    obtain ⟨old, hold, rfl⟩ := List.mem_map.1 harg
    exact ihArgs old hold (hargs old hold)
  | quantified binders body kind ihBinders ihBody =>
    obtain ⟨hbinders, hbody, hkind⟩ := fits_quantified.1 h
    rw [bind_quantified]
    refine fits_quantified.2 ⟨fun binder hbinder => ?_, ihBody hbody, hg kind hkind⟩
    obtain ⟨old, hold, rfl⟩ := List.mem_map.1 hbinder
    obtain ⟨hvar, hfits⟩ := hbinders old hold
    refine ⟨?_, ihBinders old hold hfits⟩
    cases old with
    | var quantifier name kind => rw [bind_var]; rfl
    | _ => cases hvar

/-- Binders are replaced by types that fit. -/
theorem instantiate (h : type.Fits live created) {assignment : Table String Ty}
    (hassignment : ∀ name other, assignment.get? name = some other → other.Fits live created) :
    (type.instantiate assignment).Fits live created := by
  induction type generalizing assignment with
  | var quantifier name kind =>
    rw [Ty.instantiate]
    cases hfound : assignment.get? name with
    | none => exact h
    | some other => exact hassignment name other hfound
  | unsolved id kind => rwa [Ty.instantiate]
  | constructor name kind => rwa [Ty.instantiate]
  | builtIn type => rwa [Ty.instantiate]
  | apply head args kind ihHead ihArgs =>
    obtain ⟨hhead, hargs, hkind⟩ := fits_apply.1 h
    rw [Ty.instantiate, instantiateList_eq_map]
    refine fits_apply.2 ⟨ihHead hhead hassignment, fun arg harg => ?_, hkind⟩
    obtain ⟨old, hold, rfl⟩ := List.mem_map.1 harg
    exact ihArgs old hold (hargs old hold) hassignment
  | quantified binders body kind ihBinders ihBody =>
    obtain ⟨hbinders, hbody, hkind⟩ := fits_quantified.1 h
    rw [Ty.instantiate]
    refine fits_quantified.2 ⟨hbinders, ihBody hbody fun name other hfound => ?_, hkind⟩
    exact hassignment name other (get?_of_get?_foldl_erase hfound)

/-- Substitution puts solutions in place of variables, which fit themselves. -/
theorem substitute {types : Partition Ty} {kinds : Partition Kind} (h : type.Fits live created)
    (htypes : types.Sound plainShape (Fits live created))
    (hlive : ∀ kind, live kind → live' (kind.substitute kinds)) :
    (type.substitute types kinds).Fits live' created := by
  have hexpand : ∀ fuel seen id kind, id < created → live kind →
      (expand types kinds fuel seen id kind).Fits live' created := by
    intro fuel
    induction fuel with
    | zero => exact fun seen id kind hid hkind => fits_unsolved.2 ⟨hid, hlive kind hkind⟩
    | succ fuel ih =>
      intro seen id kind hid hkind
      have hvariable : Fits live created (.unsolved id kind) := fits_unsolved.2 ⟨hid, hkind⟩
      have hsolution : Fits live created (if id ∈ seen then Ty.unsolved id kind
          else types.find (.unsolved id kind)) := by
        split
        · exact hvariable
        · exact htypes.find_good hvariable
      rw [expand]
      split
      · rename_i other otherKind heq
        rw [heq] at hsolution
        obtain ⟨hother, hotherKind⟩ := fits_unsolved.1 hsolution
        exact fits_unsolved.2 ⟨hother, hlive _ hotherKind⟩
      · exact hsolution.bind (ih (id :: seen)) hlive
  exact h.bind (hexpand types.size []) hlive

end Fits

end Fits

end Ty

end PolyFront
