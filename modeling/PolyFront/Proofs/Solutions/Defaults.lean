import PolyFront.Proofs.Solutions.Histories
import PolyFront.Proofs.Unification.Merging

/-!
# What defaulting does

Solving a variable by `*` replaces it by `*` in every substitution, since a class holds at most
one solution and no solution mentions itself.  A run over several variables therefore replaces all
of them, and what is defaulted becomes its substitution with every variable that is left read as
`*`.  This needs substitution to be idempotent, and so it needs the same conditions on arguments.
-/

namespace PolyFront

/-! ## Kinds -/

namespace Kind

variable {created : Nat} {kinds : Partition Kind}

/-- Every variable is read as `*`. -/
def starred (kind : Kind) : Kind := kind.bind fun _ => .type

/-- Some variables are read as `*`. -/
def starring (ids : List Nat) (id : Nat) : Kind := if id ∈ ids then .type else .unsolved id

theorem unknowns_starred (kind : Kind) : kind.starred.unknowns = [] := by
  rw [List.eq_nil_iff_forall_not_mem]
  intro id hid
  obtain ⟨v, -, hv⟩ := mem_unknowns_bind.1 hid
  simp at hv

theorem bind_starring_eq_starred {ids : List Nat} {kind : Kind} (h : kind.unknowns ⊆ ids) :
    kind.bind (starring ids) = kind.starred :=
  bind_congr fun _ hid => if_pos (h hid)

theorem bind_starring_of_not_mem {ids : List Nat} {kind : Kind}
    (h : ∀ id ∈ ids, id ∉ kind.unknowns) : kind.bind (starring ids) = kind :=
  bind_self fun id hid => if_neg fun hmem => h id hmem hid

/-- What is in the class of `*` stands for `*`. -/
theorem Acyclic.find_of_type (h : Acyclic created kinds) {id : Nat} {c : Class Kind}
    (hid : kinds.classOf? (.unsolved id) = some c) (htype : kinds.classOf? .type = some c) :
    kinds.find (.unsolved id) = .type := by
  have hleaf : shape.leaf (kinds.find .type) = true := h.sound.leaf_find rfl
  rw [Partition.find_of_classOf? htype] at hleaf
  rw [Partition.find_of_classOf? hid, eq_of_beq hleaf]

/-- Solving one variable by `*` replaces it in every substitution. -/
theorem Acyclic.substitute_defaultVariable (h : Acyclic created kinds) {id : Nat}
    (hid : id < created) (hdefaultable : Defaultable kinds id) (kind : Kind) :
    kind.substitute (kinds.union (.unsolved id) .type preferSolved) =
      (kind.substitute kinds).bind (single id .type) := by
  have hunion := (h.defaultVariable hid hdefaultable).1
  rcases hdefaultable with hfinal | ⟨c, hclass, htype⟩
  · have hvariable := (h.substitute_union picks_preferSolved hid hfinal (proper_type created)
      .type).1 rfl
    rw [substitute_eq_bind, substitute_eq_bind kinds, bind_bind]
    exact bind_congr fun v _ => hvariable v
  · have hnone : id ∉ (kind.substitute kinds).unknowns := by
      intro hmem
      have hself := final_iff.1 (final_of_mem_substitute h.wellFounded hmem)
      rw [h.find_of_type hclass htype] at hself
      cases hself
    rw [bind_single_of_not_mem hnone]
    exact substitute_of_find_eq h.wellFounded hunion.wellFounded
      (fun v => eq_of_beq (Partition.find_union_of_same h.sound.distinct hclass htype _)) kind

/-- Solving variables by `*` replaces them in every substitution. -/
theorem Acyclic.substitute_defaultVariables (h : Acyclic created kinds) {ids : List Nat}
    (hids : ∀ id ∈ ids, id < created ∧ Defaultable kinds id) (kind : Kind) :
    kind.substitute (Kind.defaultVariables kinds ids) =
      (kind.substitute kinds).bind (starring ids) := by
  induction ids generalizing kinds with
  | nil => exact (bind_starring_of_not_mem fun _ hid => (List.not_mem_nil hid).elim).symm
  | cons id rest ih =>
    obtain ⟨hid, hdefaultable⟩ := hids id List.mem_cons_self
    obtain ⟨hacyclic, hothers⟩ := h.defaultVariable hid hdefaultable
    have hrest : ∀ other ∈ rest, other < created ∧
        Defaultable (kinds.union (.unsolved id) .type preferSolved) other := fun other hother =>
      ⟨(hids other (List.mem_cons_of_mem _ hother)).1,
        hothers other (hids other (List.mem_cons_of_mem _ hother)).2⟩
    refine (ih hacyclic hrest).trans ?_
    rw [h.substitute_defaultVariable hid hdefaultable, bind_bind]
    refine bind_congr fun v _ => ?_
    by_cases hv : v = id
    · rw [hv, single_self, bind_type, starring, if_pos List.mem_cons_self]
    · rw [single_of_ne hv, bind_unsolved]
      simp only [starring, List.mem_cons, hv, false_or]

/-- The variables of a substitution can be solved by `*`, whether they were created or not. -/
theorem Acyclic.exists_defaultable (h : Acyclic created kinds) {ids : List Nat}
    (hids : ∀ id ∈ ids, kinds.Final (.unsolved id)) :
    ∃ bound, Acyclic bound kinds ∧ ∀ id ∈ ids, id < bound ∧ Defaultable kinds id := by
  have hbound : ∃ bound, ∀ id ∈ ids, id < bound := by
    clear hids
    induction ids with
    | nil => exact ⟨0, fun _ hid => by cases hid⟩
    | cons first rest ih =>
      obtain ⟨bound, hbound⟩ := ih
      refine ⟨bound + first + 1, fun id hid => ?_⟩
      rcases List.mem_cons.1 hid with rfl | hid
      · omega
      · have hlt := hbound id hid
        omega
  obtain ⟨bound, hbound⟩ := hbound
  refine ⟨created + bound, h.mono (Nat.le_add_right _ _), fun id hid => ⟨?_, .inl (hids id hid)⟩⟩
  exact Nat.lt_of_lt_of_le (hbound id hid) (Nat.le_add_left _ _)

end Kind

/-! ## Types -/

namespace Ty

variable {kinds kinds' : Partition Kind}

/-- Every kind in a type is changed, those of its unsolved variables included. -/
def mapKinds (g : Kind → Kind) (type : Ty) : Ty :=
  type.bind (fun id kind => .unsolved id (g kind)) g

/-- Every kind variable is read as `*`. -/
def starred (type : Ty) : Ty := type.mapKinds Kind.starred

theorem mem_kinds_of_carried {type : Ty} {kind : Kind} (h : kind ∈ type.carried) :
    kind ∈ type.kinds := by
  induction type with
  | var quantifier name varKind => simpa [kinds, carried] using h
  | unsolved id unsolvedKind => simp [carried] at h
  | constructor name constructorKind => simpa [kinds, carried] using h
  | builtIn type => simp [carried] at h
  | apply head args applied ihHead ihArgs =>
    rw [kinds, kindsList_eq_flatMap, List.mem_cons, List.mem_append, List.mem_flatMap]
    simp only [carried, List.mem_cons, List.mem_append, List.mem_flatMap] at h
    rcases h with rfl | h | ⟨arg, harg, h⟩
    · exact .inl rfl
    · exact .inr (.inl (ihHead h))
    · exact .inr (.inr ⟨arg, harg, ihArgs arg harg h⟩)
  | quantified binders body quantifiedKind ihBinders ihBody =>
    rw [kinds, kindsList_eq_flatMap, List.mem_cons, List.mem_append, List.mem_flatMap]
    simp only [carried, List.mem_cons, List.mem_append, List.mem_flatMap] at h
    rcases h with rfl | ⟨binder, hbinder, h⟩ | h
    · exact .inl rfl
    · exact .inr (.inl ⟨binder, hbinder, ihBinders binder hbinder h⟩)
    · exact .inr (.inr (ihBody h))

theorem mem_kinds_of_mentions {type : Ty} {id : Nat} {kind : Kind}
    (h : (id, kind) ∈ type.mentions) : kind ∈ type.kinds := by
  induction type with
  | var quantifier name varKind => simp [mentions] at h
  | unsolved other unsolvedKind =>
    obtain ⟨-, rfl⟩ : id = other ∧ kind = unsolvedKind := by simpa [mentions] using h
    simp [kinds]
  | constructor name constructorKind => simp [mentions] at h
  | builtIn type => simp [mentions] at h
  | apply head args applied ihHead ihArgs =>
    rw [kinds, kindsList_eq_flatMap, List.mem_cons, List.mem_append, List.mem_flatMap]
    simp only [mentions, List.mem_append, List.mem_flatMap] at h
    rcases h with h | ⟨arg, harg, h⟩
    · exact .inr (.inl (ihHead h))
    · exact .inr (.inr ⟨arg, harg, ihArgs arg harg h⟩)
  | quantified binders body quantifiedKind ihBinders ihBody =>
    rw [kinds, kindsList_eq_flatMap, List.mem_cons, List.mem_append, List.mem_flatMap]
    simp only [mentions, List.mem_append, List.mem_flatMap] at h
    rcases h with ⟨binder, hbinder, h⟩ | h
    · exact .inr (.inl ⟨binder, hbinder, ihBinders binder hbinder h⟩)
    · exact .inr (.inr (ihBody h))

theorem mapKinds_congr {g g' : Kind → Kind} {type : Ty}
    (h : ∀ kind ∈ type.kinds, g kind = g' kind) : type.mapKinds g = type.mapKinds g' := by
  refine bind_congr (fun id kind hmem => ?_) fun kind hmem => h kind (mem_kinds_of_carried hmem)
  rw [h kind (mem_kinds_of_mentions hmem)]

/-- Substitution follows a change of all substituted kinds. -/
theorem substitute_mapKinds {g : Kind → Kind}
    (h : ∀ kind, Kind.substitute kinds' kind = g (kind.substitute kinds)) (types : Partition Ty)
    (type : Ty) : type.substitute types kinds' = (type.substitute types kinds).mapKinds g := by
  have hexpand : ∀ fuel seen id kind, expand types kinds' fuel seen id kind =
      (expand types kinds fuel seen id kind).mapKinds g := by
    intro fuel
    induction fuel with
    | zero =>
      intro seen id kind
      rw [expand, expand, mapKinds, bind_unsolved, h]
    | succ fuel ih =>
      intro seen id kind
      rw [expand, expand]
      split
      · rw [mapKinds, bind_unsolved, h]
      · rw [mapKinds, bind_bind]
        exact bind_congr (fun other otherKind _ => ih _ other otherKind) fun kind _ => h kind
  rw [substitute, substitute, mapKinds, bind_bind]
  exact bind_congr (fun id kind _ => hexpand _ _ id kind) fun kind _ => h kind

end Ty

/-! ## Classifiers -/

namespace Classifier

/-- Every kind variable is read as `*`. -/
def starred : Classifier → Classifier
  | .ofKind kind => .ofKind kind.starred
  | .ofType type => .ofType type.starred

/-- The kind variables in a classifier. -/
def kindUnknowns : Classifier → List Nat
  | .ofKind kind => kind.unknowns
  | .ofType type => type.kinds.flatMap Kind.unknowns

end Classifier

/-! ## Stores -/

/-- Defaulting is substitution followed by reading every remaining variable as `*`.  Afterwards
substitution gives that result, and no substitution changes that mentioned none of the defaulted
variables. -/
structure Store.Defaults (s : Store) : Prop where
  kind : ∀ kind, ∃ s', Solve.defaultKind kind s = .ok (s.substituteKind kind).starred s' ∧
    s'.substituteKind kind = (s.substituteKind kind).starred ∧
    ∀ other, (∀ id ∈ (s.substituteKind kind).unknowns, id ∉ (s.substituteKind other).unknowns) →
      s'.substituteKind other = s.substituteKind other
  classifier : ∀ classifier : Classifier, ∃ s',
    Solve.defaultClassifier classifier s =
      .ok (classifier.substitute s.types s.kinds).starred s' ∧
    classifier.substitute s'.types s'.kinds = (classifier.substitute s.types s.kinds).starred ∧
    ∀ other, (∀ id ∈ (classifier.substitute s.types s.kinds).kindUnknowns,
        id ∉ (s.substituteKind other).unknowns) →
      s'.substituteKind other = s.substituteKind other

namespace Store

variable {s : Store}

/-- Solving variables that stand for themselves by `*` replaces them in every substitution. -/
theorem Sound.substitute_default (hs : s.Sound) {ids : List Nat}
    (hids : ∀ id ∈ ids, s.kinds.Final (.unsolved id)) (kind : Kind) :
    kind.substitute (Kind.defaultVariables s.kinds ids) =
      (s.substituteKind kind).bind (Kind.starring ids) := by
  obtain ⟨bound, hacyclic, hbound⟩ := hs.kinds.exists_defaultable hids
  exact hacyclic.substitute_defaultVariables hbound kind

theorem Sound.default_kind (hs : s.Sound) (kind : Kind) :
    (kind.default s.kinds).1 = (s.substituteKind kind).starred ∧
      kind.substitute (kind.default s.kinds).2 = (s.substituteKind kind).starred ∧
      ∀ other, (∀ id ∈ (s.substituteKind kind).unknowns,
          id ∉ (s.substituteKind other).unknowns) →
        other.substitute (kind.default s.kinds).2 = s.substituteKind other := by
  have hfinal : ∀ id ∈ (s.substituteKind kind).unknowns, s.kinds.Final (.unsolved id) :=
    fun id hid => Kind.final_of_mem_substitute hs.kinds.wellFounded hid
  have hstars := hs.substitute_default hfinal
  have hall : (s.substituteKind kind).bind (Kind.starring (s.substituteKind kind).unknowns) =
      (s.substituteKind kind).starred := Kind.bind_starring_eq_starred (List.Subset.refl _)
  refine ⟨?_, (hstars kind).trans hall, fun other hother => ?_⟩
  · refine (hstars (s.substituteKind kind)).trans ?_
    rw [substituteKind, substituteKind, Kind.substitute_substitute hs.kinds.wellFounded]
    exact hall
  · exact (hstars other).trans (Kind.bind_starring_of_not_mem hother)

theorem Sound.default_type (hs : s.Sound) (type : Ty) :
    (type.default s.types s.kinds).1 = (s.substituteType type).starred ∧
      type.substitute s.types (type.default s.types s.kinds).2 =
        (s.substituteType type).starred ∧
      ∀ other, (∀ id ∈ (s.substituteType type).kinds.flatMap Kind.unknowns,
          id ∉ (s.substituteKind other).unknowns) →
        other.substitute (type.default s.types s.kinds).2 = s.substituteKind other := by
  have hfinal : ∀ id ∈ (s.substituteType type).kinds.flatMap Kind.unknowns,
      s.kinds.Final (.unsolved id) := by
    intro id hid
    obtain ⟨kind, hkind, hid⟩ := List.mem_flatMap.1 hid
    exact Solve.final_of_mem_kinds hs hkind hid
  have hstars := hs.substitute_default hfinal
  have hall : (s.substituteType type).mapKinds
      (Kind.bind (Kind.starring ((s.substituteType type).kinds.flatMap Kind.unknowns))) =
        (s.substituteType type).starred :=
    Ty.mapKinds_congr fun kind hkind => Kind.bind_starring_eq_starred fun id hid =>
      List.mem_flatMap.2 ⟨kind, hkind, hid⟩
  have htypes := Ty.substitute_mapKinds hstars s.types
  refine ⟨?_, (htypes type).trans hall, fun other hother => ?_⟩
  · refine (htypes (s.substituteType type)).trans ?_
    rw [substituteType, Ty.substitute_substitute hs.kinds.wellFounded hs.types]
    exact hall
  · exact (hstars other).trans (Kind.bind_starring_of_not_mem hother)

end Store

/-- After operations with proper arguments, defaulting reads every variable that substitution
leaves as `*` and changes nothing else. -/
theorem Reached.defaults {s : Store} (h : Reached Operation.Proper s) : s.Defaults := by
  have hs := h.sound
  refine ⟨fun kind => ?_, fun classifier => ?_⟩
  · obtain ⟨hresult, hafter⟩ := hs.default_kind kind
    exact ⟨{ s with kinds := (kind.default s.kinds).2 }, by rw [← hresult]; rfl, hafter⟩
  · have hrun : Solve.defaultClassifier classifier s =
        .ok (classifier.default s.types s.kinds).1
          { s with kinds := (classifier.default s.types s.kinds).2 } := rfl
    refine ⟨{ s with kinds := (classifier.default s.types s.kinds).2 }, ?_⟩
    rw [hrun]
    cases classifier with
    | ofKind kind =>
      obtain ⟨hresult, hafter, hothers⟩ := hs.default_kind kind
      rw [Classifier.default, hresult]
      exact ⟨rfl, congrArg Classifier.ofKind hafter, hothers⟩
    | ofType type =>
      obtain ⟨hresult, hafter, hothers⟩ := hs.default_type type
      rw [Classifier.default, hresult]
      exact ⟨rfl, congrArg Classifier.ofType hafter, hothers⟩

namespace Operation

/-- A kind is solved by one that mentions another variable, which has no solution. -/
def halfSolved : List Operation :=
  [.pushScope .block, .freshKind, .freshKind, .checkSubKind (.unsolved 0)
    (.higher [.unsolved 1] .type), .freshType (.unsolved 0)]

theorem defaults_halfSolved : ∃ s, runAll halfSolved Store.start = .ok () s ∧
    Reached Operation.Proper s ∧ s.Defaults ∧
    s.substituteKind (.unsolved 0) ≠ (s.substituteKind (.unsolved 0)).starred := by
  have htest : test (fun s operation => decide (operation.Proper s))
      (fun s => decide (s.substituteKind (.unsolved 0) ≠ (s.substituteKind (.unsolved 0)).starred))
      halfSolved Store.start = true := by decide +kernel
  obtain ⟨s, hrun, hreached, hopen⟩ := exists_of_test .start htest
  have hproper : Reached Operation.Proper s :=
    reached_mono (fun _ _ hallowed => of_decide_eq_true hallowed) hreached
  exact ⟨s, hrun, hproper, Reached.defaults hproper, of_decide_eq_true hopen⟩

/-- Defaulting a variable differs from substituting it and reading its kind variables as `*`. -/
def defaultsOtherwise (id : Nat) (s : Store) : Bool :=
  !((Ty.default s.types s.kinds (.unsolved id .type)).1 ==
    (s.substituteType (.unsolved id .type)).starred)

theorem not_defaults_of_defaultsOtherwise {id : Nat} {s : Store}
    (h : defaultsOtherwise id s = true) : ¬s.Defaults := by
  intro hdefaults
  obtain ⟨s', hrun, -⟩ := hdefaults.classifier (.ofType (.unsolved id .type))
  have hresult : Classifier.ofType (Ty.default s.types s.kinds (.unsolved id .type)).1 =
      .ofType (s.substituteType (.unsolved id .type)).starred := by
    injection hrun
  rw [defaultsOtherwise, Classifier.ofType.inj hresult, BEq.refl] at h
  cases h

/-- Whichever of the three conditions on arguments is dropped, a history leads to a store in
which defaulting is not substitution followed by reading every variable as `*`. -/
theorem exists_reached_not_defaults :
    (∃ s, runAll uncreated Store.start = .ok () s ∧ Reached (fun _ _ => True) s ∧ ¬s.Defaults) ∧
    (∃ s, runAll nullary Store.start = .ok () s ∧ Reached (fun _ _ => True) s ∧ ¬s.Defaults) ∧
    ∃ s, runAll unsolvedBinder Store.start = .ok () s ∧ Reached (fun _ _ => True) s ∧
      ¬s.Defaults := by
  have hall : ∀ operations,
      test (fun _ _ => true) (defaultsOtherwise 0) operations Store.start = true →
      ∃ s, runAll operations Store.start = .ok () s ∧ Reached (fun _ _ => True) s ∧
        ¬s.Defaults := by
    intro operations htest
    obtain ⟨s, hrun, hreached, hdiffers⟩ := exists_of_test .start htest
    exact ⟨s, hrun, reached_mono (fun _ _ _ => trivial) hreached,
      not_defaults_of_defaultsOtherwise hdiffers⟩
  exact ⟨hall _ (by decide +kernel), hall _ (by decide +kernel), hall _ (by decide +kernel)⟩

end Operation

end PolyFront
