import PolyFront.Proofs.Subtyping.Terms

/-!
# What expansion leaves

The solutions of types can be cyclic: a type application without arguments or an unsolved binder
makes them so.  Expansion then stops at a variable that is being expanded already and leaves it in
place.  The variables that are met on the way are those that the type or the solution of a met
variable mentions.  Every variable with a solution that is met is met without expanding another
one twice, and so its whole solution is in the result; a variable that is left in place stands in
the solution of a variable that it was met from.

No solution needs to be acyclic for any of this.
-/

namespace PolyFront

namespace Ty

variable {types : Partition Ty} {kinds : Partition Kind} {type : Ty}

/-- A variable with a solution. -/
def Solved (types : Partition Ty) (id : Nat) : Prop :=
  shape.unknown (types.find (.unsolved id .type)) = false

/-- What a variable with a solution stands for. -/
def solution (types : Partition Ty) (id : Nat) : Ty := types.find (.unsolved id .type)

/-- A variable is met while a type is expanded. -/
inductive Meets (types : Partition Ty) (type : Ty) : Nat → Kind → Prop where
  | mention {id : Nat} {kind : Kind} (hmem : (id, kind) ∈ type.mentions) : Meets types type id kind
  | step {outer id : Nat} {outerKind kind : Kind} (houter : Meets types type outer outerKind)
    (hsolved : Solved types outer) (hmem : (id, kind) ∈ (solution types outer).mentions) :
    Meets types type id kind

/-- A variable is met while others, the latest of them first, are being expanded, and none of
these is expanded a second time. -/
inductive Trail (types : Partition Ty) (type : Ty) : Nat → Kind → List Nat → Prop where
  | mention {id : Nat} {kind : Kind} (hmem : (id, kind) ∈ type.mentions) :
    Trail types type id kind []
  | step {outer id : Nat} {outerKind kind : Kind} {before : List Nat}
    (houter : Trail types type outer outerKind before) (hsolved : Solved types outer)
    (hmem : (id, kind) ∈ (solution types outer).mentions) (hnew : id ∉ outer :: before) :
    Trail types type id kind (outer :: before)

theorem find_of_solved {id : Nat} (h : Solved types id) (kind : Kind) :
    types.find (.unsolved id kind) = solution types id :=
  find_unsolved_of_solved kind h

theorem solved_iff {id : Nat} (kind : Kind) :
    Solved types id ↔ shape.unknown (types.find (.unsolved id kind)) = false := by
  rw [Solved, shape.unknown_congr (find_unsolved_beq types id kind .type)]

theorem Solved.present {id : Nat} (h : Solved types id) :
    ∃ c, types.classOf? (.unsolved id .type) = some c := by
  cases hclass : types.classOf? (.unsolved id .type) with
  | some c => exact ⟨c, rfl⟩
  | none =>
    rw [Solved, Partition.find_of_absent hclass] at h
    cases h

/-- Once as many variables are being expanded as there are elements, no other one has a class. -/
theorem absent_of_size_le {seen : List Nat} {id : Nat} (hnodup : seen.Nodup) (hid : id ∉ seen)
    (hseen : ∀ s ∈ seen, Solved types s) (hsize : types.size ≤ seen.length) :
    types.classOf? (.unsolved id .type) = none := by
  refine Partition.absent_of_size_le (fun id => .unsolved id .type) unknown? ?_ hnodup hid
    (fun s hs => (hseen s hs).present) hsize
  intro other type heq
  have hunknown : shape.unknown type = true := by
    rw [← shape.unknown_congr heq]
    rfl
  obtain ⟨id, kind, rfl⟩ := unknown_iff.1 hunknown
  rw [unsolved_beq.1 heq, unknown?]

theorem mem_carried_bind_iff {f : Nat → Kind → Ty} {g : Kind → Kind} {k : Kind} :
    k ∈ (type.bind f g).carried ↔ (∃ kind ∈ type.carried, k = g kind) ∨
      ∃ id kind, (id, kind) ∈ type.mentions ∧ k ∈ (f id kind).carried := by
  refine ⟨mem_carried_bind, fun h => ?_⟩
  induction type with
  | var quantifier name kind => simpa [carried, mentions] using h
  | unsolved id kind =>
    simp only [carried, mentions, List.not_mem_nil, false_and, exists_false, List.mem_singleton,
      Prod.mk.injEq, false_or] at h
    obtain ⟨_, _, ⟨rfl, rfl⟩, h⟩ := h
    exact h
  | constructor name kind => simpa [carried, mentions] using h
  | builtIn type => simp [carried, mentions] at h
  | apply head args kind ihHead ihArgs =>
    simp only [bind_apply, carried, mentions, List.mem_cons, List.mem_append, List.mem_flatMap,
      List.mem_map] at h ⊢
    rcases h with ⟨k', rfl | hk' | ⟨arg, harg, hk'⟩, rfl⟩ | ⟨id, k', hmem | ⟨arg, harg, hmem⟩, hk⟩
    · exact .inl rfl
    · exact .inr (.inl (ihHead (.inl ⟨k', hk', rfl⟩)))
    · exact .inr (.inr ⟨_, ⟨arg, harg, rfl⟩, ihArgs arg harg (.inl ⟨k', hk', rfl⟩)⟩)
    · exact .inr (.inl (ihHead (.inr ⟨id, k', hmem, hk⟩)))
    · exact .inr (.inr ⟨_, ⟨arg, harg, rfl⟩, ihArgs arg harg (.inr ⟨id, k', hmem, hk⟩)⟩)
  | quantified binders body kind ihBinders ihBody =>
    simp only [bind_quantified, carried, mentions, List.mem_cons, List.mem_append,
      List.mem_flatMap, List.mem_map] at h ⊢
    rcases h with ⟨k', rfl | ⟨binder, hbinder, hk'⟩ | hk', rfl⟩ |
      ⟨id, k', ⟨binder, hbinder, hmem⟩ | hmem, hk⟩
    · exact .inl rfl
    · exact .inr (.inl ⟨_, ⟨binder, hbinder, rfl⟩,
        ihBinders binder hbinder (.inl ⟨k', hk', rfl⟩)⟩)
    · exact .inr (.inr (ihBody (.inl ⟨k', hk', rfl⟩)))
    · exact .inr (.inl ⟨_, ⟨binder, hbinder, rfl⟩,
        ihBinders binder hbinder (.inr ⟨id, k', hmem, hk⟩)⟩)
    · exact .inr (.inr (ihBody (.inr ⟨id, k', hmem, hk⟩)))

/-! ## One expansion -/

theorem expand_of_mem {fuel id : Nat} {seen : List Nat} (hid : id ∈ seen) (kind : Kind) :
    expand types kinds fuel seen id kind = .unsolved id (kind.substitute kinds) := by
  cases fuel with
  | zero => rfl
  | succ fuel =>
    rw [expand, if_pos hid]

theorem expand_of_unsolved {fuel id other : Nat} {seen : List Nat} {kind otherKind : Kind}
    (hnodup : seen.Nodup) (hid : id ∉ seen) (hseen : ∀ s ∈ seen, Solved types s)
    (hsize : types.size ≤ fuel + seen.length)
    (hfind : types.find (.unsolved id kind) = .unsolved other otherKind) :
    expand types kinds fuel seen id kind = .unsolved other (otherKind.substitute kinds) := by
  cases fuel with
  | zero =>
    have habsent := absent_of_size_le hnodup hid hseen (by omega)
    rw [classOf?_unsolved types id .type kind] at habsent
    rw [Partition.find_of_absent habsent] at hfind
    cases hfind
    rfl
  | succ fuel => rw [expand, if_neg hid, hfind]

theorem expand_of_solved {fuel id : Nat} {seen : List Nat} (hid : id ∉ seen)
    (hsolved : Solved types id) (kind : Kind) :
    expand types kinds (fuel + 1) seen id kind =
      (solution types id).bind (expand types kinds fuel (id :: seen)) (Kind.substitute kinds) := by
  rw [expand, if_neg hid, find_of_solved hsolved]
  rw [Solved, ← solution] at hsolved
  cases hsolution : solution types id with
  | unsolved other otherKind =>
    rw [hsolution] at hsolved
    cases hsolved
  | _ => rfl

/-! ## Trails -/

theorem Trail.facts {id : Nat} {kind : Kind} {before : List Nat}
    (h : Trail types type id kind before) :
    (id :: before).Nodup ∧ ∀ s ∈ before, Solved types s := by
  induction h with
  | mention hmem =>
    exact ⟨List.nodup_cons.2 ⟨List.not_mem_nil, List.nodup_nil⟩,
      fun _ hs => (List.not_mem_nil hs).elim⟩
  | step houter hsolved hmem hnew ih =>
    refine ⟨List.nodup_cons.2 ⟨hnew, ih.1⟩, fun s hs => ?_⟩
    rcases List.mem_cons.1 hs with rfl | hs
    · exact hsolved
    · exact ih.2 s hs

theorem Trail.earlier {id : Nat} {kind : Kind} {before : List Nat}
    (h : Trail types type id kind before) {other : Nat} (hother : other ∈ before) :
    ∃ otherKind earlier, Trail types type other otherKind earlier := by
  induction h with
  | mention hmem => exact (List.not_mem_nil hother).elim
  | step houter hsolved hmem hnew ih =>
    rcases List.mem_cons.1 hother with rfl | hother
    · exact ⟨_, _, houter⟩
    · exact ih hother

/-- A variable that is met is met on a trail, though possibly with another kind. -/
theorem Meets.exists_trail {id : Nat} {kind : Kind} (h : Meets types type id kind) :
    ∃ otherKind before, Trail types type id otherKind before := by
  induction h with
  | mention hmem => exact ⟨_, _, .mention hmem⟩
  | @step outer id outerKind kind houter hsolved hmem ih =>
    obtain ⟨otherKind, before, htrail⟩ := ih
    by_cases hnew : id ∈ outer :: before
    · rcases List.mem_cons.1 hnew with rfl | hbefore
      · exact ⟨_, _, htrail⟩
      · exact htrail.earlier hbefore
    · exact ⟨_, _, .step htrail hsolved hmem hnew⟩

/-- There is fuel left for a solved variable at the end of a trail. -/
theorem Trail.length_lt {id : Nat} {kind : Kind} {before : List Nat}
    (h : Trail types type id kind before) (hsolved : Solved types id) :
    before.length < types.size := by
  rw [← Nat.not_le]
  intro hsize
  obtain ⟨hnodup, hbefore⟩ := h.facts
  obtain ⟨hid, hnodup⟩ := List.nodup_cons.1 hnodup
  obtain ⟨c, hclass⟩ := hsolved.present
  rw [absent_of_size_le hnodup hid hbefore hsize] at hclass
  cases hclass

/-- What the expansion at the end of a trail mentions and carries is in the substitution. -/
theorem Trail.expand_within (kinds : Partition Kind) {id : Nat} {kind : Kind} {before : List Nat}
    (h : Trail types type id kind before) :
    (∀ v ∈ (expand types kinds (types.size - before.length) before id kind).mentions,
        v ∈ (type.substitute types kinds).mentions) ∧
      ∀ k ∈ (expand types kinds (types.size - before.length) before id kind).carried,
        k ∈ (type.substitute types kinds).carried := by
  induction h with
  | mention hmem =>
    exact ⟨fun v hv => mem_mentions_bind.2 ⟨_, _, hmem, hv⟩,
      fun k hk => mem_carried_bind_iff.2 (.inr ⟨_, _, hmem, hk⟩)⟩
  | @step outer id outerKind kind before houter hsolved hmem hnew ih =>
    have hlength := houter.length_lt hsolved
    have houterNew := (List.nodup_cons.1 houter.facts.1).1
    have hfuel : types.size - before.length = types.size - (outer :: before).length + 1 := by
      rw [List.length_cons]
      omega
    rw [hfuel, expand_of_solved houterNew hsolved] at ih
    exact ⟨fun v hv => ih.1 v (mem_mentions_bind.2 ⟨_, _, hmem, hv⟩),
      fun k hk => ih.2 k (mem_carried_bind_iff.2 (.inr ⟨_, _, hmem, hk⟩))⟩

/-! ## Substitution -/

/-- A variable that is met from its own solution stands there. -/
def Recurring (types : Partition Ty) : Prop :=
  ∀ id kind, Solved types id → Meets types (solution types id) id kind →
    Mentions id (solution types id)

/-- A variable is sure to be left with a kind when a type is expanded: as the representative of a
variable that is met, or as a variable that is met and stands in its own solution. -/
inductive Leaves (types : Partition Ty) (kinds : Partition Kind) (type : Ty) :
    Nat → Kind → Prop where
  | final {id other : Nat} {kind otherKind : Kind} (hmeets : Meets types type id kind)
    (hfind : types.find (.unsolved id kind) = .unsolved other otherKind) :
    Leaves types kinds type other (otherKind.substitute kinds)
  | again {id : Nat} {kind own : Kind} (hmeets : Meets types type id kind)
    (hsolved : Solved types id) (hmem : (id, own) ∈ (solution types id).mentions) :
    Leaves types kinds type id (own.substitute kinds)

theorem Meets.trans {outer id : Nat} {outerKind kind : Kind}
    (h : Meets types type outer outerKind) (hsolved : Solved types outer)
    (hmeets : Meets types (solution types outer) id kind) : Meets types type id kind := by
  induction hmeets with
  | mention hmem => exact .step h hsolved hmem
  | step _ hsolved' hmem ih => exact .step ih hsolved' hmem

/-- The solution of a variable that is met is expanded somewhere. -/
theorem Meets.solution_within (kinds : Partition Kind) {id : Nat} {kind : Kind}
    (h : Meets types type id kind) (hsolved : Solved types id) :
    (∃ seen, (id :: seen).Nodup ∧ (∀ s ∈ id :: seen, Solved types s) ∧
      ∀ inner innerKind, (inner, innerKind) ∈ (solution types id).mentions →
        ∀ v ∈ (expand types kinds (types.size - (id :: seen).length) (id :: seen) inner
          innerKind).mentions, v ∈ (type.substitute types kinds).mentions) ∧
      ∀ k ∈ (solution types id).carried,
        k.substitute kinds ∈ (type.substitute types kinds).carried := by
  obtain ⟨otherKind, before, htrail⟩ := h.exists_trail
  obtain ⟨hnodup, hbefore⟩ := htrail.facts
  obtain ⟨hmentions, hcarried⟩ := htrail.expand_within kinds
  have hlength := htrail.length_lt hsolved
  have hfuel : types.size - before.length = types.size - (id :: before).length + 1 := by
    rw [List.length_cons]
    omega
  rw [hfuel, expand_of_solved (List.nodup_cons.1 hnodup).1 hsolved] at hmentions hcarried
  refine ⟨⟨before, hnodup, fun s hs => ?_, fun inner innerKind hinner v hv => ?_⟩, fun k hk => ?_⟩
  · rcases List.mem_cons.1 hs with rfl | hs
    · exact hsolved
    · exact hbefore s hs
  · exact hmentions v (mem_mentions_bind.2 ⟨inner, innerKind, hinner, hv⟩)
  · exact hcarried _ (mem_carried_bind_iff.2 (.inl ⟨k, hk, rfl⟩))

theorem Leaves.mem_substitute {id : Nat} {kind : Kind} (h : Leaves types kinds type id kind) :
    (id, kind) ∈ (type.substitute types kinds).mentions := by
  cases h with
  | again hmeets hsolved hmem =>
    obtain ⟨⟨seen, -, -, hwithin⟩, -⟩ := hmeets.solution_within kinds hsolved
    refine hwithin _ _ hmem _ ?_
    rw [expand_of_mem List.mem_cons_self, mentions]
    exact List.mem_cons_self
  | @final met _ metKind otherKind hmeets hfind =>
    have hunsolved : ¬Solved types met := by
      rw [solved_iff metKind, hfind]
      exact fun h => by cases h
    have hleft : ∀ {fuel seen}, seen.Nodup → (∀ s ∈ seen, Solved types s) →
        types.size ≤ fuel + seen.length →
        (id, otherKind.substitute kinds) ∈ (expand types kinds fuel seen met metKind).mentions := by
      intro fuel seen hnodup hseen hsize
      rw [expand_of_unsolved hnodup (fun hmem => hunsolved (hseen met hmem)) hseen hsize hfind,
        mentions]
      exact List.mem_cons_self
    cases hmeets with
    | mention hmem =>
      refine mem_mentions_bind.2 ⟨met, metKind, hmem, hleft List.nodup_nil ?_ (Nat.le_refl _)⟩
      exact fun _ hs => (List.not_mem_nil hs).elim
    | step houter hsolved hmem =>
      obtain ⟨⟨seen, hnodup, hseen, hwithin⟩, -⟩ := houter.solution_within kinds hsolved
      exact hwithin _ _ hmem _ (hleft hnodup hseen (by omega))

/-- A variable was left with a kind when a type was expanded: as a representative, or as a variable
that a solution mentions although it is being expanded already. -/
inductive Left (types : Partition Ty) (kinds : Partition Kind) (type : Ty) : Nat → Kind → Prop where
  | final {id other : Nat} {kind otherKind : Kind} (hmeets : Meets types type id kind)
    (hfind : types.find (.unsolved id kind) = .unsolved other otherKind) :
    Left types kinds type other (otherKind.substitute kinds)
  | again {outer id : Nat} {outerKind own : Kind} {before : List Nat}
    (htrail : Trail types type outer outerKind before) (hsolved : Solved types outer)
    (hmem : (id, own) ∈ (solution types outer).mentions) (hseen : id ∈ outer :: before) :
    Left types kinds type id (own.substitute kinds)

theorem Trail.meets {id : Nat} {kind : Kind} {before : List Nat}
    (h : Trail types type id kind before) : Meets types type id kind := by
  induction h with
  | mention hmem => exact .mention hmem
  | step _ hsolved hmem _ ih => exact .step ih hsolved hmem

/-- What a substituted type mentions was left there. -/
theorem left_of_mem {id : Nat} {kind : Kind}
    (hmem : (id, kind) ∈ (type.substitute types kinds).mentions) :
    Left types kinds type id kind := by
  have hexpand : ∀ (fuel : Nat) {met : Nat} {metKind : Kind} {before : List Nat},
      Trail types type met metKind before → types.size ≤ fuel + before.length →
      (id, kind) ∈ (expand types kinds fuel before met metKind).mentions →
      Left types kinds type id kind := by
    intro fuel
    induction fuel with
    | zero =>
      intro met metKind before htrail hsize hmem
      obtain ⟨hnodup, hbefore⟩ := htrail.facts
      obtain ⟨hmet, hnodup⟩ := List.nodup_cons.1 hnodup
      have habsent := absent_of_size_le hnodup hmet hbefore (by omega)
      rw [classOf?_unsolved types met .type metKind] at habsent
      rw [expand, mentions, List.mem_singleton, Prod.mk.injEq] at hmem
      obtain ⟨rfl, rfl⟩ := hmem
      exact .final htrail.meets (Partition.find_of_absent habsent)
    | succ fuel ih =>
      intro met metKind before htrail hsize hmem
      have hmet := (List.nodup_cons.1 htrail.facts.1).1
      by_cases hsolved : Solved types met
      · rw [expand_of_solved hmet hsolved, mem_mentions_bind] at hmem
        obtain ⟨inner, innerKind, hinner, hmem⟩ := hmem
        by_cases hseen : inner ∈ met :: before
        · rw [expand_of_mem hseen, mentions, List.mem_singleton, Prod.mk.injEq] at hmem
          obtain ⟨rfl, rfl⟩ := hmem
          exact .again htrail hsolved hinner hseen
        · exact ih (.step htrail hsolved hinner hseen) (by rw [List.length_cons]; omega) hmem
      · rw [solved_iff metKind, Bool.not_eq_false] at hsolved
        obtain ⟨other, otherKind, hfind⟩ := unknown_iff.1 hsolved
        rw [expand, if_neg hmet, hfind, mentions, List.mem_singleton, Prod.mk.injEq] at hmem
        obtain ⟨rfl, rfl⟩ := hmem
        exact .final htrail.meets hfind
  obtain ⟨met, metKind, hmet, hmem⟩ := mem_mentions_bind.1 hmem
  exact hexpand _ (.mention hmet) (by simp) hmem

/-- What is mentioned at the end of a trail is met from the solution of every variable on it. -/
theorem Trail.meets_from {outer : Nat} {outerKind : Kind} {before : List Nat}
    (h : Trail types type outer outerKind before) (hsolved : Solved types outer) {id v : Nat}
    {kind : Kind} (hmem : (v, kind) ∈ (solution types outer).mentions)
    (hid : id ∈ outer :: before) : Meets types (solution types id) v kind := by
  induction h generalizing v kind with
  | mention =>
    obtain rfl := List.mem_singleton.1 hid
    exact .mention hmem
  | step _ hearlier hfound _ ih =>
    rcases List.mem_cons.1 hid with rfl | hid
    · exact .mention hmem
    · exact .step (ih hearlier hfound hid) hsolved hmem

/-- The end of a trail is on a trail from every type that mentions a variable of the trail. -/
theorem Trail.suffix {outer : Nat} {outerKind : Kind} {before : List Nat}
    (h : Trail types type outer outerKind before) {id : Nat} (hid : id ∈ outer :: before)
    {type' : Ty} (hmentions : Mentions id type') :
    ∃ kind later, Trail types type' outer kind later ∧ id ∈ outer :: later ∧ later ⊆ before := by
  induction h with
  | mention =>
    obtain rfl := List.mem_singleton.1 hid
    obtain ⟨kind, hmem⟩ := hmentions
    exact ⟨kind, [], .mention hmem, List.mem_cons_self, List.nil_subset _⟩
  | @step last _ _ _ _ _ hsolved hfound hnew ih =>
    rcases List.mem_cons.1 hid with rfl | hid
    · obtain ⟨kind, hmem⟩ := hmentions
      exact ⟨kind, [], .mention hmem, List.mem_cons_self, List.nil_subset _⟩
    · obtain ⟨kind, later, htrail, hlater, hsub⟩ := ih hid
      have hsub' := List.cons_subset_cons last hsub
      exact ⟨_, _, .step htrail hsolved hfound fun hmem => hnew (hsub' hmem),
        List.mem_cons_of_mem _ hlater, hsub'⟩

/-- What is left of a variable with a solution is left of that solution too, when the variable
stands there. -/
theorem mem_solution_of_left {outer id : Nat} {outerKind own : Kind} {before : List Nat}
    (htrail : Trail types type outer outerKind before) (hsolved : Solved types outer)
    (hmem : (id, own) ∈ (solution types outer).mentions) (hseen : id ∈ outer :: before)
    (hself : Mentions id (solution types id)) :
    (id, own.substitute kinds) ∈ ((solution types id).substitute types kinds).mentions := by
  obtain ⟨kind, later, htrail, hlater, -⟩ := htrail.suffix hseen hself
  have hlength := htrail.length_lt hsolved
  have hfuel : types.size - later.length = types.size - (outer :: later).length + 1 := by
    rw [List.length_cons]
    omega
  have hwithin := (htrail.expand_within kinds).1
  rw [hfuel, expand_of_solved (List.nodup_cons.1 htrail.facts.1).1 hsolved] at hwithin
  refine hwithin _ (mem_mentions_bind.2 ⟨id, own, hmem, ?_⟩)
  rw [expand_of_mem hlater, mentions]
  exact List.mem_cons_self

/-- The kinds that a substituted type carries come from the type itself and from the solutions of
the variables that are met. -/
theorem mem_carried_substitute_iff {k : Kind} : k ∈ (type.substitute types kinds).carried ↔
    (∃ kind ∈ type.carried, k = kind.substitute kinds) ∨ ∃ id kind, Meets types type id kind ∧
      Solved types id ∧ ∃ own ∈ (solution types id).carried, k = own.substitute kinds := by
  have hexpand : ∀ (fuel : Nat) (seen : List Nat) (met : Nat) (metKind : Kind),
      Meets types type met metKind →
      k ∈ (expand types kinds fuel seen met metKind).carried →
      ∃ id kind, Meets types type id kind ∧ Solved types id ∧
        ∃ own ∈ (solution types id).carried, k = own.substitute kinds := by
    intro fuel
    induction fuel with
    | zero =>
      intro seen met metKind _ hk
      rw [expand, carried] at hk
      exact (List.not_mem_nil hk).elim
    | succ fuel ih =>
      intro seen met metKind hmeets hk
      by_cases hmet : met ∈ seen
      · rw [expand_of_mem hmet, carried] at hk
        exact (List.not_mem_nil hk).elim
      by_cases hsolved : Solved types met
      · rw [expand_of_solved hmet hsolved, mem_carried_bind_iff] at hk
        rcases hk with ⟨own, hown, rfl⟩ | ⟨inner, innerKind, hinner, hk⟩
        · exact ⟨met, metKind, hmeets, hsolved, own, hown, rfl⟩
        · exact ih _ inner innerKind (.step hmeets hsolved hinner) hk
      · rw [solved_iff metKind, Bool.not_eq_false] at hsolved
        obtain ⟨other, otherKind, hfind⟩ := unknown_iff.1 hsolved
        rw [expand, if_neg hmet, hfind, carried] at hk
        exact (List.not_mem_nil hk).elim
  constructor
  · intro hk
    rcases mem_carried_bind_iff.1 hk with ⟨kind, hkind, rfl⟩ | ⟨met, metKind, hmet, hk⟩
    · exact .inl ⟨kind, hkind, rfl⟩
    · exact .inr (hexpand _ _ met metKind (.mention hmet) hk)
  · rintro (⟨kind, hkind, rfl⟩ | ⟨id, kind, hmeets, hsolved, own, hown, rfl⟩)
    · exact mem_carried_bind_iff.2 (.inl ⟨kind, hkind, rfl⟩)
    · exact (hmeets.solution_within kinds hsolved).2 own hown

end Ty

end PolyFront
