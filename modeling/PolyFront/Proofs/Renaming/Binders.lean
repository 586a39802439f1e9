import Mathlib.Data.Set.Function
import PolyFront.Proofs.Renaming.Types

/-!
# Renamed binders

A type whose bound variables take other names.  When the bound names are used for nothing else and
the new names are not used at all, this is the type renamed as a whole, by a renaming that keeps
all names apart and every other type as it is.
-/

namespace PolyFront

namespace Ty

mutual
/-- The type with its bound variables renamed, inside binders of the given names. -/
def relabel (f : String → String) (bound : List String) : Ty → Ty
  | .var quantifier name kind => .var quantifier (if name ∈ bound then f name else name) kind
  | .unsolved id kind => .unsolved id kind
  | .constructor name kind => .constructor name kind
  | .apply head args kind => .apply (relabel f bound head) (relabelList f bound args) kind
  | .quantified binders body kind =>
    let inner := binders.filterMap binderName? ++ bound
    .quantified (relabelList f inner binders) (relabel f inner body) kind
  | .builtIn type => .builtIn type
def relabelList (f : String → String) (bound : List String) : List Ty → List Ty
  | [] => []
  | type :: rest => relabel f bound type :: relabelList f bound rest
end

/-- The names of the variables of a type, bound or free. -/
def names : Ty → List String
  | .var _ name _ => [name]
  | .unsolved _ _ => []
  | .constructor _ _ => []
  | .apply head args _ => head.names ++ args.flatMap names
  | .quantified binders body _ => binders.flatMap names ++ body.names
  | .builtIn _ => []

/-- The names that the quantifiers of a type bind. -/
def boundNames : Ty → List String
  | .var _ _ _ => []
  | .unsolved _ _ => []
  | .constructor _ _ => []
  | .apply head args _ => head.boundNames ++ args.flatMap boundNames
  | .quantified binders body _ =>
    binders.filterMap binderName? ++ (binders.flatMap boundNames ++ body.boundNames)
  | .builtIn _ => []

/-- The names of the variables that no quantifier around them binds. -/
def freeNames : Ty → List String
  | .var _ name _ => [name]
  | .unsolved _ _ => []
  | .constructor _ _ => []
  | .apply head args _ => head.freeNames ++ args.flatMap freeNames
  | .quantified binders body _ =>
    (binders.flatMap freeNames ++ body.freeNames).filter fun name =>
      !(binders.filterMap binderName?).contains name
  | .builtIn _ => []

theorem relabelList_eq_map (f : String → String) (bound : List String) (types : List Ty) :
    relabelList f bound types = types.map (relabel f bound) := by
  induction types with
  | nil => rfl
  | cons type rest ih => rw [relabelList, ih, List.map_cons]

/-- A renaming that leaves the names of a type alone leaves the type alone. -/
theorem rename_eq_self {f : String → String} {type : Ty} (h : ∀ name ∈ type.names, f name = name) :
    type.rename f = type := by
  have hlist : ∀ types : List Ty, (∀ type ∈ types, (∀ name ∈ type.names, f name = name) →
      type.rename f = type) → (∀ name ∈ types.flatMap names, f name = name) →
      types.map (rename f) = types := fun types ih h =>
    (List.map_congr_left fun type htype => ih type htype fun name hname =>
      h name (List.mem_flatMap_of_mem htype hname)).trans (List.map_id types)
  induction type with
  | var quantifier name kind => rw [rename_var, h name (by simp [names])]
  | apply head args kind ihHead ihArgs =>
    rw [names, List.forall_mem_append] at h
    rw [rename_apply, ihHead h.1, hlist args ihArgs h.2]
  | quantified binders body kind ihBinders ihBody =>
    rw [names, List.forall_mem_append] at h
    rw [rename_quantified, hlist binders ihBinders h.1, ihBody h.2]
  | _ => simp

theorem mem_names_of_binder {binders : List Ty} {name : String}
    (h : name ∈ binders.filterMap binderName?) : name ∈ binders.flatMap names := by
  obtain ⟨binder, hbinder, hname⟩ := List.mem_filterMap.1 h
  cases binder with
  | var quantifier other kind =>
    obtain rfl := Option.some.inj hname
    exact List.mem_flatMap_of_mem hbinder (by simp [names])
  | _ => cases hname

theorem boundNames_subset_names (type : Ty) : type.boundNames ⊆ type.names := by
  induction type with
  | apply head args kind ihHead ihArgs =>
    rw [boundNames, names]
    intro name hname
    rcases List.mem_append.1 hname with hname | hname
    · exact List.mem_append_left _ (ihHead hname)
    · obtain ⟨arg, harg, hname⟩ := List.mem_flatMap.1 hname
      exact List.mem_append_right _ (List.mem_flatMap_of_mem harg (ihArgs arg harg hname))
  | quantified binders body kind ihBinders ihBody =>
    rw [boundNames, names]
    intro name hname
    rcases List.mem_append.1 hname with hname | hname
    · exact List.mem_append_left _ (mem_names_of_binder hname)
    · rcases List.mem_append.1 hname with hname | hname
      · obtain ⟨binder, hbinder, hname⟩ := List.mem_flatMap.1 hname
        exact List.mem_append_left _ (List.mem_flatMap_of_mem hbinder
            (ihBinders binder hbinder hname))
      · exact List.mem_append_right _ (ihBody hname)
  | _ => simp [boundNames]

theorem freeNames_subset_names (type : Ty) : type.freeNames ⊆ type.names := by
  induction type with
  | apply head args kind ihHead ihArgs =>
    rw [freeNames, names]
    intro name hname
    rcases List.mem_append.1 hname with hname | hname
    · exact List.mem_append_left _ (ihHead hname)
    · obtain ⟨arg, harg, hname⟩ := List.mem_flatMap.1 hname
      exact List.mem_append_right _ (List.mem_flatMap_of_mem harg (ihArgs arg harg hname))
  | quantified binders body kind ihBinders ihBody =>
    rw [freeNames, names]
    intro name hname
    rcases List.mem_append.1 (List.mem_filter.1 hname).1 with hname | hname
    · obtain ⟨binder, hbinder, hname⟩ := List.mem_flatMap.1 hname
      exact List.mem_append_left _ (List.mem_flatMap_of_mem hbinder
          (ihBinders binder hbinder hname))
    · exact List.mem_append_right _ (ihBody hname)
  | _ => simp [freeNames, names]

/-- Bound variables are renamed by any renaming that agrees on them and fixes the free ones. -/
theorem relabel_eq_rename {f g : String → String} {bound : List String} {type : Ty}
    (hfree : ∀ name ∈ type.freeNames, g name = if name ∈ bound then f name else name)
    (hbound : ∀ name ∈ type.boundNames, g name = f name) :
    type.relabel f bound = type.rename g := by
  induction type generalizing bound with
  | var quantifier name kind => rw [relabel, rename_var, hfree name (by simp [freeNames])]
  | apply head args kind ihHead ihArgs =>
    rw [freeNames, List.forall_mem_append] at hfree
    rw [boundNames, List.forall_mem_append] at hbound
    rw [relabel, rename_apply, ihHead hfree.1 hbound.1, relabelList_eq_map]
    refine congrArg (Ty.apply _ · kind) (List.map_congr_left fun arg harg => ?_)
    exact ihArgs arg harg (fun name hname => hfree.2 name (List.mem_flatMap_of_mem harg hname))
      fun name hname => hbound.2 name (List.mem_flatMap_of_mem harg hname)
  | quantified binders body kind ihBinders ihBody =>
    rw [boundNames, List.forall_mem_append, List.forall_mem_append] at hbound
    obtain ⟨hbinders, hinBinders, hinBody⟩ := hbound
    -- What is free below the quantifier is bound by it or free outside of it.
    have hinner : ∀ name ∈ binders.flatMap freeNames ++ body.freeNames,
        g name = if name ∈ binders.filterMap binderName? ++ bound then f name else name := by
      intro name hname
      by_cases hbinder : name ∈ binders.filterMap binderName?
      · rw [if_pos (List.mem_append_left _ hbinder), hbinders name hbinder]
      · have hname : name ∈ (Ty.quantified binders body kind).freeNames := by
          rw [freeNames]
          exact List.mem_filter.2 ⟨hname, by simpa using hbinder⟩
        rw [hfree name hname]
        simp only [List.mem_append, hbinder, false_or]
    rw [List.forall_mem_append] at hinner
    rw [relabel, rename_quantified, relabelList_eq_map, ihBody hinner.2 hinBody]
    refine congrArg (Ty.quantified · _ kind) (List.map_congr_left fun binder hmem => ?_)
    exact ihBinders binder hmem
      (fun name hname => hinner.1 name (List.mem_flatMap_of_mem hmem hname))
      fun name hname => hinBinders name (List.mem_flatMap_of_mem hmem hname)
  | _ => simp [relabel]

end Ty

/-- Names that are replaced by distinct new ones can be exchanged for them. -/
theorem exists_exchange {names : List String} {f : String → String}
    (hdistinct : Set.InjOn f {name | name ∈ names}) (hnew : ∀ name ∈ names, f name ∉ names) :
    ∃ g : String → String, Function.Injective g ∧ (∀ name ∈ names, g name = f name) ∧
      ∀ name, name ∉ names → name ∉ names.map f → g name = name := by
  classical
  let g (name : String) : String :=
    if name ∈ names then f name
    else if h : ∃ old ∈ names, f old = name then h.choose else name
  have hold : ∀ name ∈ names, g name = f name := fun name hname => if_pos hname
  have himage : ∀ name ∈ names, g (f name) = name := by
    intro name hname
    have himage : ∃ old ∈ names, f old = f name := ⟨name, hname, rfl⟩
    show (if f name ∈ names then _ else _) = name
    rw [if_neg (hnew name hname), dif_pos himage]
    exact hdistinct himage.choose_spec.1 hname himage.choose_spec.2
  have hother : ∀ name, name ∉ names → name ∉ names.map f → g name = name := by
    intro name hname hmap
    show (if name ∈ names then _ else _) = name
    rw [if_neg hname, dif_neg fun ⟨old, hmem, heq⟩ => hmap (List.mem_map.2 ⟨old, hmem, heq⟩)]
  have hinvolutive : Function.Involutive g := by
    intro name
    by_cases hname : name ∈ names
    · rw [hold name hname, himage name hname]
    · by_cases hmap : name ∈ names.map f
      · obtain ⟨old, hmem, rfl⟩ := List.mem_map.1 hmap
        rw [himage old hmem, hold old hmem]
      · rw [hother name hname hmap, hother name hname hmap]
  exact ⟨g, hinvolutive.injective, hold, hother⟩

end PolyFront
