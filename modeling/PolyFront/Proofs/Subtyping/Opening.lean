import PolyFront.Proofs.Subtyping.Pending

/-!
# Two copies with quantifiers opened

A check opens the quantifiers of its two sides in different ways.  When both sides are copies of one
type, every name has been replaced on at most one side, by a variable that waits for the binder of
the name.  The left copy can lag behind by the quantifiers that were opened on the right only.
Opening one more quantifier, on either side, makes copies of copies.
-/

namespace PolyFront

open Ty

namespace Store

variable {s s' : Store} {goals more : List (Nat × Ty)}

/-- A created variable that represents nothing else and is unsolved or solved by the binder. -/
structure Pending (s : Store) (id : Nat) (binder : Ty) : Prop where
  created : id < s.nextType
  rigid : s.Rigid binder
  lone : s.Lone id
  substitution : s.substituteType (.unsolved id binder.kind) = .unsolved id binder.kind ∨
    s.substituteType (.unsolved id binder.kind) = binder

/-- Some variables wait for binders. -/
structure Awaits (goals : List (Nat × Ty)) (s : Store) : Prop where
  orderly : s.Orderly
  rigid : ∀ type, s.Rigid type → s.types.find type = type
  pending : ∀ goal ∈ goals, s.Pending goal.1 goal.2
  unique : ∀ id binder binder', (id, binder) ∈ goals → (id, binder') ∈ goals → binder = binder'

/-- The variables that wait for binders. -/
def Waiting (goals : List (Nat × Ty)) (id : Nat) : Prop := ∃ binder, (id, binder) ∈ goals

theorem Rigid.moves {touched : Nat → Prop} {type : Ty} (hmoves : MovesBy touched s s') :
    s'.Rigid type ↔ s.Rigid type := by
  simp only [Rigid, hmoves.kinds]

theorem Pending.moves {touched : Nat → Prop} {id : Nat} {binder : Ty} (h : s.Pending id binder)
    (hmoves : MovesBy touched s s') (hfree : ¬touched id) : s'.Pending id binder where
  created := Nat.lt_of_lt_of_le h.created hmoves.created
  rigid := (Rigid.moves hmoves).2 h.rigid
  lone := hmoves.lone id h.created hfree h.lone
  substitution := by
    refine h.substitution.imp (hmoves.spares id _ id _ h.created hfree) fun hsolved => ?_
    obtain ⟨quantifier, name, kind, rfl, -⟩ := h.rigid
    exact hmoves.settled id kind quantifier name kind h.created hfree hsolved

/-- What happens to other variables leaves a waiting one waiting. -/
theorem Awaits.moves {touched : Nat → Prop} (h : Awaits goals s) (hmoves : MovesBy touched s s')
    (hgoals : ∀ goal ∈ goals, touched goal.1 → s'.Pending goal.1 goal.2) : Awaits goals s' where
  orderly := hmoves.orderly
  rigid type hrigid :=
    hmoves.rigid type ((Rigid.moves hmoves).1 hrigid) (h.rigid type ((Rigid.moves hmoves).1 hrigid))
  pending goal hgoal := by
    by_cases htouched : touched goal.1
    · exact hgoals goal hgoal htouched
    · exact (h.pending goal hgoal).moves hmoves htouched
  unique := h.unique

theorem Awaits.subset {goals' : List (Nat × Ty)} (h : Awaits goals s) (hsubset : goals' ⊆ goals) :
    Awaits goals' s where
  orderly := h.orderly
  rigid := h.rigid
  pending goal hgoal := h.pending goal (hsubset hgoal)
  unique id binder binder' hmem hmem' := h.unique id binder binder' (hsubset hmem) (hsubset hmem')

/-- A waiting variable can be solved by its binder. -/
theorem Awaits.solveType (h : Awaits goals s) {id : Nat} {binder : Ty}
    (hgoal : (id, binder) ∈ goals)
    (hself : s.substituteType (.unsolved id binder.kind) = .unsolved id binder.kind) :
    Awaits goals (s.solveType id binder.kind binder) ∧
      MovesBy (Waiting goals) s (s.solveType id binder.kind binder) := by
  obtain ⟨hcreated, hrigid, hlone, -⟩ := h.pending _ hgoal
  obtain ⟨hmoves, hlone', hsolved⟩ :=
    h.orderly.solveType hcreated hlone hself hrigid (h.rigid binder hrigid)
  refine ⟨h.moves hmoves fun goal hmem htouched => ?_, hmoves.mono fun other _ heq => ?_⟩
  · obtain ⟨other, binder'⟩ := goal
    obtain rfl : other = id := htouched
    obtain rfl := h.unique other binder binder' hgoal hmem
    exact ⟨hcreated, (Rigid.moves hmoves).2 hrigid, hlone', .inr hsolved⟩
  · rw [heq]
    exact ⟨binder, hgoal⟩

end Store

open Store

/-! ## Copies -/

namespace Ty

/-- The binders around a type below further quantifiers, innermost first. -/
def innermost (bound : List Ty) (groups : List (List Ty × Kind)) : List Ty :=
  groups.foldl (fun bound group => group.1 ++ bound) bound

theorem Scoped.of_quantify {bound : List Ty} {groups : List (List Ty × Kind)} {type : Ty}
    (h : (quantify groups type).Scoped bound) : type.Scoped (innermost bound groups) := by
  induction groups generalizing bound with
  | nil => exact h
  | cons group rest ih => exact ih (scoped_quantified.1 h).2

theorem binderOf?_innermost {bound : List Ty} {groups : List (List Ty × Kind)} {name : String}
    (h : name ∉ groupsNames groups) : binderOf? (innermost bound groups) name =
        binderOf? bound name := by
  induction groups generalizing bound with
  | nil => rfl
  | cons group rest ih =>
    rw [groupsNames, List.flatMap_cons, List.mem_append, not_or] at h
    exact (ih h.2).trans (binderOf?_append_of_not_mem h.1)

theorem bind_of_quantify {f : Nat → Kind → Ty} {g : Kind → Kind} {groups : List (List Ty × Kind)}
    {type : Ty} (h : (quantify groups type).bind f g = quantify groups type) :
    type.bind f g = type ∧
      ∀ group ∈ groups, group.1.map (Ty.bind f g) = group.1 ∧ g group.2 = group.2 := by
  induction groups with
  | nil => exact ⟨h, by simp⟩
  | cons group rest ih =>
    rw [quantify_cons, bind_quantified] at h
    injection h with hbinders hrest hkind
    obtain ⟨htype, hgroups⟩ := ih hrest
    refine ⟨htype, fun other hother => ?_⟩
    rcases List.mem_cons.1 hother with rfl | hother
    · exact ⟨hbinders, hkind⟩
    · exact hgroups other hother

/-- Each name is replaced on at most one side, by a variable that waits for the binder of the name.
Below a quantifier that was opened on the right only, it is replaced there and was flexible. -/
def Matched (goals : List (Nat × Ty)) (bound : List Ty) (groups : List (List Ty × Kind))
    (lefts rights : String → Option Ty) : Prop :=
  ∀ name, lefts name = none ∧ rights name = none ∨
    ∃ id quantifier kind, (id, .var quantifier name kind) ∈ goals ∧
      binderOf? (innermost bound groups) name = some (.var quantifier name kind) ∧
      (lefts name = some (.unsolved id kind) ∧ rights name = none ∧ name ∉ groupsNames groups ∨
        lefts name = none ∧ rights name = some (.unsolved id kind) ∧
          (name ∈ groupsNames groups → quantifier = Side.sup.flexible))

/-- Two copies of a type that is substituted by itself. -/
structure Copies (s : Store) (goals : List (Nat × Ty)) (bound : List Ty)
    (groups : List (List Ty × Kind)) (type : Ty) (lefts rights : String → Option Ty) : Prop where
  self : s.substituteType (quantify groups type) = quantify groups type
  older : ∀ id kind, (id, kind) ∈ (quantify groups type).mentions →
    id < s.nextType ∧ ¬Waiting goals id
  wellScoped : (quantify groups type).Scoped bound
  matched : Matched goals bound groups lefts rights

namespace Matched

variable {goals : List (Nat × Ty)} {bound : List Ty} {groups : List (List Ty × Kind)}
  {lefts rights : String → Option Ty}

theorem unsolved (h : Matched goals bound groups lefts rights) :
    Variables lefts ∧ Variables rights := by
  constructor <;> intro name value hvalue <;>
    rcases h name with ⟨hleft, hright⟩ | ⟨id, quantifier, kind, -, -, ⟨hleft, hright, -⟩ |
      ⟨hleft, hright, -⟩⟩ <;> simp_all <;> subst hvalue <;> rfl

theorem symm (h : Matched goals bound [] lefts rights) : Matched goals bound [] rights lefts := by
  intro name
  rcases h name with ⟨hleft, hright⟩ | ⟨id, quantifier, kind, hgoal, hbinder, hcase⟩
  · exact .inl ⟨hright, hleft⟩
  · refine .inr ⟨id, quantifier, kind, hgoal, hbinder, ?_⟩
    rcases hcase with ⟨hleft, hright, -⟩ | ⟨hleft, hright, -⟩
    · exact .inr ⟨hright, hleft, by simp [groupsNames]⟩
    · exact .inl ⟨hright, hleft, by simp [groupsNames]⟩

end Matched

/-- The replacements that are unsolved still. -/
def kept (s : Store) (values : String → Option Ty) (name : String) : Option Ty :=
  (values name).filter fun value => (s.substituteType value).isUnsolved

section Substitute

variable {s : Store} {goals : List (Nat × Ty)} {bound : List Ty} {groups : List (List Ty × Kind)}
  {type : Ty} {lefts rights values : String → Option Ty}

/-- A waiting variable that was put for a name is kept or has become the binder. -/
theorem kept_cases (hs : Awaits goals s) {id : Nat} {quantifier : Quantifier} {name : String}
    {kind : Kind} (hgoal : (id, .var quantifier name kind) ∈ goals)
    (hvalue : values name = some (.unsolved id kind)) :
    s.substituteType (.unsolved id kind) = .unsolved id kind ∧
        kept s values name = some (.unsolved id kind) ∨
      s.substituteType (.unsolved id kind) = .var quantifier name kind ∧
        kept s values name = none := by
  have hcases : s.substituteType (.unsolved id kind) = .unsolved id kind ∨
      s.substituteType (.unsolved id kind) = .var quantifier name kind :=
    (hs.pending _ hgoal).substitution
  rw [kept, hvalue, Option.filter_some]
  refine hcases.imp (fun heq => ⟨heq, ?_⟩) fun heq => ⟨heq, ?_⟩
  · rw [heq]
    rfl
  · rw [heq]
    rfl

theorem kept_none (s : Store) {name : String} (h : values name =
    none) : kept s values name = none := by
  rw [kept, h, Option.filter_none]

/-- Only replacements that are unsolved still matter to the substitution of a copy. -/
theorem substitute_replace (hs : Awaits goals s) (hself : s.substituteType type = type)
    (hscoped : type.Scoped bound)
    (hvalues : ∀ name, values name = none ∨ ∃ id quantifier kind,
      (id, .var quantifier name kind) ∈ goals ∧
        binderOf? bound name = some (.var quantifier name kind) ∧
        values name = some (.unsolved id kind)) :
    s.substituteType (type.replace values) = type.replace (kept s values) := by
  refine bind_replace hself hscoped fun name => ?_
  rcases hvalues name with hnone | ⟨id, quantifier, kind, hgoal, hbinder, hsome⟩
  · exact .inl ⟨hnone, kept_none s hnone⟩
  · refine .inr ⟨_, hsome, ?_⟩
    rcases kept_cases hs hgoal hsome with hkept | ⟨heq, hnone⟩
    · exact .inl hkept
    · exact .inr ⟨hbinder.trans (congrArg some heq.symm), hnone⟩

theorem Matched.kept (h : Matched goals bound groups lefts rights) (hs : Awaits goals s) :
    Matched goals bound groups (Ty.kept s lefts) (Ty.kept s rights) := by
  intro name
  rcases h name with ⟨hleft, hright⟩ | ⟨id, quantifier, kind, hgoal, hbinder,
    ⟨hleft, hright, hnames⟩ | ⟨hleft, hright, hflexible⟩⟩
  · exact .inl ⟨kept_none s hleft, kept_none s hright⟩
  · rcases kept_cases hs hgoal hleft with ⟨-, hkept⟩ | ⟨-, hkept⟩
    · exact .inr ⟨id, quantifier, kind, hgoal, hbinder, .inl ⟨hkept, kept_none s hright, hnames⟩⟩
    · exact .inl ⟨hkept, kept_none s hright⟩
  · rcases kept_cases hs hgoal hright with ⟨-, hkept⟩ | ⟨-, hkept⟩
    · exact .inr ⟨id, quantifier, kind, hgoal, hbinder, .inr ⟨kept_none s hleft, hkept, hflexible⟩⟩
    · exact .inl ⟨kept_none s hleft, hkept⟩

theorem Copies.substitute (h : Copies s goals bound groups type lefts rights)
    (hs : Awaits goals s) :
    s.substituteType (quantify groups (type.replace lefts)) =
        quantify groups (type.replace (kept s lefts)) ∧
      s.substituteType (type.replace rights) = type.replace (kept s rights) ∧
      Copies s goals bound groups type (kept s lefts) (kept s rights) := by
  obtain ⟨hself, hgroups⟩ := bind_of_quantify h.self
  have hscoped := h.wellScoped.of_quantify
  refine ⟨?_, substitute_replace hs hself hscoped fun name => ?_,
    ⟨h.self, h.older, h.wellScoped, h.matched.kept hs⟩⟩
  · refine (bind_quantify hgroups _).trans (congrArg (quantify groups) ?_)
    refine substitute_replace hs hself hscoped fun name => ?_
    rcases h.matched name with ⟨hleft, -⟩ | ⟨id, quantifier, kind, hgoal, hbinder,
      ⟨hleft, -, -⟩ | ⟨hleft, -, -⟩⟩
    · exact .inl hleft
    · exact .inr ⟨id, quantifier, kind, hgoal, hbinder, hleft⟩
    · exact .inl hleft
  · rcases h.matched name with ⟨-, hright⟩ | ⟨id, quantifier, kind, hgoal, hbinder,
      ⟨-, hright, -⟩ | ⟨-, hright, -⟩⟩
    · exact .inl hright
    · exact .inl hright
    · exact .inr ⟨id, quantifier, kind, hgoal, hbinder, hright⟩

/-- Copies stay copies while only waiting variables are solved. -/
theorem Copies.moves {s' : Store} (h : Copies s goals bound groups type lefts rights)
    (hmoves : MovesBy (Waiting goals) s s') : Copies s' goals bound groups type lefts rights where
  self := by
    obtain ⟨hmentions, hcarried⟩ := substitute_of_self h.self
    refine bind_self (fun id kind hmem => ?_) fun kind hmem =>
      (hmoves.kinds kind).trans (hcarried kind hmem)
    obtain ⟨hid, hfree⟩ := h.older id kind hmem
    have hself := hmoves.spares id kind id kind hid hfree (hmentions id kind hmem)
    rwa [Store.substituteType, Ty.substitute, bind_unsolved] at hself
  older id kind hmem := by
    obtain ⟨hid, hfree⟩ := h.older id kind hmem
    exact ⟨Nat.lt_of_lt_of_le hid hmoves.created, hfree⟩
  wellScoped := h.wellScoped
  matched := h.matched

/-- Copies stay copies when more variables wait for binders. -/
theorem Copies.weaken {more : List (Nat × Ty)} (h : Copies s goals bound groups type lefts rights)
    (hfresh : ∀ goal ∈ more, s.nextType ≤ goal.1) :
    Copies s (more ++ goals) bound groups type lefts rights where
  self := h.self
  older id kind hmem := by
    obtain ⟨hid, hfree⟩ := h.older id kind hmem
    refine ⟨hid, ?_⟩
    rintro ⟨binder, hgoal⟩
    rcases List.mem_append.1 hgoal with hgoal | hgoal
    · exact Nat.not_lt.2 (hfresh _ hgoal) hid
    · exact hfree ⟨binder, hgoal⟩
  wellScoped := h.wellScoped
  matched name := by
    refine (h.matched name).imp_right ?_
    rintro ⟨id, quantifier, kind, hgoal, hrest⟩
    exact ⟨id, quantifier, kind, List.mem_append_right _ hgoal, hrest⟩

end Substitute

/-! ## Opening a quantifier -/

/-- What the flexible ones of some binders are replaced by: variables that wait for them. -/
def Puts (isFlexible : Quantifier → Bool) (binders : List Ty) (goals : List (Nat × Ty))
    (values : String → Option Ty) : Prop :=
  ∀ name, values name = none ∨ ∃ id quantifier kind, (id, .var quantifier name kind) ∈ goals ∧
    .var quantifier name kind ∈ binders ∧ isFlexible quantifier = true ∧
    values name = some (.unsolved id kind)

theorem Puts.mono {isFlexible : Quantifier → Bool} {binders : List Ty}
    {goals goals' : List (Nat × Ty)} {values : String → Option Ty}
    (h : Puts isFlexible binders goals values) (hsubset : goals ⊆ goals') :
    Puts isFlexible binders goals' values := by
  intro name
  refine (h name).imp_right ?_
  rintro ⟨id, quantifier, kind, hgoal, hrest⟩
  exact ⟨id, quantifier, kind, hsubset hgoal, hrest⟩

section Open

variable {s : Store} {goals : List (Nat × Ty)} {bound binders : List Ty}
  {groups : List (List Ty × Kind)} {type body : Ty} {kind : Kind}
  {lefts rights values : String → Option Ty}

theorem mem_bindersNames {quantifier : Quantifier} {name : String} {kind : Kind}
    (h : .var quantifier name kind ∈ binders) : name ∈ bindersNames binders :=
  List.mem_filterMap.2 ⟨_, h, rfl⟩

theorem innermost_append_singleton (bound : List Ty) (groups : List (List Ty × Kind))
    (binders : List Ty) (kind : Kind) :
    innermost bound (groups ++ [(binders, kind)]) = binders ++ innermost bound groups := by
  rw [innermost, List.foldl_append]
  rfl

/-- A quantifier that was opened on the right only is one more by which the left copy lags. -/
theorem Copies.openRight (h : Copies s goals bound groups
    (.quantified binders body kind) lefts rights)
    (hputs : Puts (· == Side.sup.flexible) binders goals values) :
    Copies s goals bound (groups ++ [(binders, kind)]) body (hidden (bindersNames binders) lefts)
      fun name => (hidden (bindersNames binders) rights name).or (values name) where
  self := by
    rw [quantify_append_singleton]
    exact h.self
  older := by
    rw [quantify_append_singleton]
    exact h.older
  wellScoped := by
    rw [quantify_append_singleton]
    exact h.wellScoped
  matched name := by
    obtain ⟨hnodup, -⟩ := scoped_quantified.1 h.wellScoped.of_quantify
    rw [innermost_append_singleton]
    dsimp only
    by_cases hname : name ∈ bindersNames binders
    · rw [hidden_of_mem hname, hidden_of_mem hname, Option.none_or]
      refine (hputs name).imp (fun hnone => ⟨rfl, hnone⟩) ?_
      rintro ⟨id, quantifier, kind', hgoal, hbinder, hflexible, hvalue⟩
      exact ⟨id, quantifier, kind', hgoal, binderOf?_of_mem hnodup hbinder,
        .inr ⟨rfl, hvalue, fun _ => eq_of_beq hflexible⟩⟩
    · have hvalue : values name = none := by
        refine (hputs name).resolve_right ?_
        rintro ⟨id, quantifier, kind', -, hbinder, -, -⟩
        exact hname (mem_bindersNames hbinder)
      have hnames : name ∈ groupsNames (groups ++ [(binders, kind)]) ↔
          name ∈ groupsNames groups := by
        rw [groupsNames, List.flatMap_append, List.mem_append]
        simp [hname, groupsNames]
      rw [hidden_of_not_mem hname, hidden_of_not_mem hname, hvalue, Option.or_none,
        binderOf?_append_of_not_mem hname, hnames]
      exact h.matched name

/-- A quantifier that was opened on the right is opened on the left, too. -/
theorem Copies.openLeft (h : Copies s goals bound ((binders, kind) :: groups) type lefts rights)
    (hputs : Puts (· == Side.sub.flexible) binders goals values) :
    Copies s goals (binders ++ bound) groups type
      (fun name => (lefts name).or (hidden (groupsNames groups) values name)) rights where
  self := by
    have hself := h.self
    rw [quantify_cons, Store.substituteType, Ty.substitute, bind_quantified] at hself
    injection hself
  older id otherKind hmem := by
    refine h.older id otherKind ?_
    rw [quantify_cons, mentions]
    exact List.mem_append_right _ hmem
  wellScoped := (scoped_quantified.1 h.wellScoped).2
  matched name := by
    obtain ⟨hnodup, -⟩ := scoped_quantified.1 h.wellScoped
    have houter : ∀ {name}, name ∈ groupsNames groups →
        name ∈ groupsNames ((binders, kind) :: groups) :=
      fun hname => List.mem_append_right _ hname
    dsimp only
    by_cases hnone : hidden (groupsNames groups) values name = none
    · rw [hnone, Option.or_none]
      refine (h.matched name).imp_right ?_
      rintro ⟨id, quantifier, kind', hgoal, hbinder, hcase⟩
      refine ⟨id, quantifier, kind', hgoal, hbinder, ?_⟩
      exact hcase.imp (fun hleft => ⟨hleft.1, hleft.2.1, fun hname => hleft.2.2 (houter hname)⟩)
        fun hright => ⟨hright.1, hright.2.1, fun hname => hright.2.2 (houter hname)⟩
    · -- The quantifier is the innermost one of the name and flexible on the left.
      have hname : name ∉ groupsNames groups := fun hname => hnone (hidden_of_mem hname values)
      rw [hidden_of_not_mem hname] at hnone ⊢
      obtain ⟨id, quantifier, kind', hgoal, hmem, hflexible, hvalue⟩ :=
          (hputs name).resolve_left hnone
      have hbinder : binderOf? (innermost (binders ++ bound) groups) name =
          some (.var quantifier name kind') :=
        (binderOf?_innermost hname).trans (binderOf?_of_mem hnodup hmem)
      have hgroup : name ∈ groupsNames ((binders, kind) :: groups) :=
        List.mem_append_left _ (mem_bindersNames hmem)
      have hboth : lefts name = none ∧ rights name = none := by
        rcases h.matched name with hboth | ⟨_, other, _, -, hother, ⟨-, -, hout⟩ | ⟨-, -, hright⟩⟩
        · exact hboth
        · exact (hout hgroup).elim
        · obtain rfl : other = quantifier := by
            have heq := hother.symm.trans hbinder
            injection heq with heq
            injection heq
          have heq := (hright hgroup).symm.trans (eq_of_beq hflexible)
          cases heq
      refine .inr ⟨id, quantifier, kind', hgoal, hbinder, .inl ⟨?_, hboth.2, hname⟩⟩
      rw [hboth.1, Option.none_or, hvalue]

end Open

end Ty

namespace Solve

variable {s : Store} {goals : List (Nat × Ty)}

/-! ## Fresh variables for binders -/

/-- Variables were created for binders, and the innermost frame registers them. -/
structure Created (s : Store) (goals more : List (Nat × Ty)) (outer : Stack (Located Attributes))
    (frame : Frame (Located Attributes)) (s' : Store) : Prop where
  awaits : Awaits (more ++ goals) s'
  moves : MovesBy (fun _ => False) s s'
  stack : s'.stack = outer.push frame
  kinds : frame.unsolvedKinds = []
  registered : ∀ id ∈ frame.unsolvedTypes, Waiting more id
  fresh : ∀ goal ∈ more, s.nextType ≤ goal.1

theorem freshType_created {more : List (Nat × Ty)} {outer : Stack (Located Attributes)}
    {frame : Frame (Located Attributes)} {s₁ : Store} (h : Created s goals more outer frame s₁)
    (quantifier : Quantifier) (name : String) {kind : Kind}
        (hkind : s₁.substituteKind kind = kind) :
    ∃ id s₂ frame', freshType kind s₁ = .ok (.unsolved id kind) s₂ ∧ frame'.kind = frame.kind ∧
      Created s goals ((id, .var quantifier name kind) :: more) outer frame' s₂ := by
  have hadded : frame.addTypes [s₁.nextType] =
      { frame with unsolvedTypes := frame.unsolvedTypes.insert s₁.nextType } := rfl
  have htop : Stack.updateTop (fun frame => frame.addTypes [s₁.nextType]) s₁.stack =
      .ok () (outer.push (frame.addTypes [s₁.nextType])) := by
    rw [h.stack]
    rfl
  refine ⟨s₁.nextType, s₁.withType kind (outer.push (frame.addTypes [s₁.nextType])),
    frame.addTypes [s₁.nextType], ?_, rfl, ?_⟩
  · have hadd : onStack (Stack.updateTop fun frame => frame.addTypes [s₁.nextType])
        { s₁ with
          types := s₁.types.add (.unsolved s₁.nextType kind)
          nextType := s₁.nextType + 1 } =
        .ok () (s₁.withType kind (outer.push (frame.addTypes [s₁.nextType]))) := Run.within_ok htop
    have hvariable : freshVariable kind s₁ =
        .ok (s₁.nextType, kind) (s₁.withType kind (outer.push (frame.addTypes [s₁.nextType]))) :=
      Run.ok_bind hadd
    exact Run.ok_bind hvariable
  · have hmoves := h.awaits.orderly.withType (fun _ => False) kind
      (outer.push (frame.addTypes [s₁.nextType]))
    have hold := h.awaits.moves hmoves fun _ _ hfalse => hfalse.elim
    have hnew : Pending (s₁.withType kind (outer.push (frame.addTypes [s₁.nextType]))) s₁.nextType
        (.var quantifier name kind) := by
      refine ⟨Nat.lt_succ_self _, ⟨quantifier, name, kind, rfl, ?_⟩,
        h.awaits.orderly.lone_withType kind _, .inl (h.awaits.orderly.substitute_withType hkind _)⟩
      exact (hmoves.kinds kind).trans hkind
    refine ⟨⟨hmoves.orderly, hold.rigid, ?_, ?_⟩, h.moves.trans hmoves
        fun _ _ hfalse => hfalse, rfl,
      h.kinds, ?_, ?_⟩
    · intro goal hgoal
      rcases List.mem_cons.1 hgoal with rfl | hgoal
      · exact hnew
      · exact hold.pending goal hgoal
    · intro id binder binder' hmem hmem'
      have hlt : ∀ binder, (s₁.nextType, binder) ∉ more ++ goals := fun binder hmem =>
        Nat.lt_irrefl _ (h.awaits.pending _ hmem).created
      rcases List.mem_cons.1 hmem with heq | hmem <;> rcases List.mem_cons.1 hmem' with heq' | hmem'
      · cases heq
        cases heq'
        rfl
      · cases heq
        exact (hlt _ hmem').elim
      · cases heq'
        exact (hlt _ hmem).elim
      · exact h.awaits.unique id binder binder' hmem hmem'
    · intro id hid
      rw [hadded] at hid
      rcases List.mem_insert_iff.1 hid with rfl | hid
      · exact ⟨_, List.mem_cons_self⟩
      · obtain ⟨binder, hmem⟩ := h.registered id hid
        exact ⟨binder, List.mem_cons_of_mem _ hmem⟩
    · intro goal hgoal
      rcases List.mem_cons.1 hgoal with rfl | hgoal
      · exact h.moves.created
      · exact h.fresh goal hgoal

theorem freshBinders_loop_created (isFlexible : Quantifier → Bool) {binders rest : List Ty}
    {frame : Frame (Located Attributes)} {outer : Stack (Located Attributes)} {s₁ : Store}
    {more : List (Nat × Ty)} (table : Table String Ty) (h : Created s goals more outer frame s₁)
    (hbinders : ∀ binder ∈ binders, s.substituteType binder = binder) (hsubset : rest ⊆ binders)
    (hputs : Puts isFlexible binders more table.get?) :
    ∃ table' s₂ frame' more', List.foldlM (m := Solve)
        (fun assignment binder => do
          match binder with
          | .var quantifier name kind =>
            if isFlexible quantifier then
              pure (assignment.insert name (← freshType (← substituteKind kind)))
            else pure assignment
          | _ => pure assignment) table rest s₁ = .ok table' s₂ ∧
      frame'.kind = frame.kind ∧ Created s goals more' outer frame' s₂ ∧
      Puts isFlexible binders more' table'.get? := by
  induction rest generalizing table frame more s₁ with
  | nil => exact ⟨table, s₁, frame, more, rfl, rfl, h, hputs⟩
  | cons binder rest ih =>
    have hmem := hsubset List.mem_cons_self
    have hrest : rest ⊆ binders := fun other hother => hsubset (List.mem_cons_of_mem binder hother)
    rw [List.foldlM_cons]
    have hskip := ih table h hrest hputs
    cases binder with
    | var quantifier name kind =>
      dsimp only
      cases hflexible : isFlexible quantifier with
      | false =>
        rw [if_neg Bool.false_ne_true, pure_bind]
        exact hskip
      | true =>
        have hself := hbinders _ hmem
        rw [Store.substituteType, Ty.substitute, bind_var] at hself
        injection hself with _ _ hkind
        have hkind₁ : s₁.substituteKind kind = kind := (h.moves.kinds kind).trans hkind
        obtain ⟨id, s₂, frame₂, hrun, hframe, hcreated⟩ :=
          freshType_created h quantifier name hkind₁
        have hputs₂ : Puts isFlexible binders ((id, .var quantifier name kind) :: more)
            (table.insert name (.unsolved id kind)).get? := by
          intro other
          rw [Table.get?_insert]
          split
          · rename_i heq
            obtain rfl := eq_of_beq heq
            exact .inr ⟨id, quantifier, kind, List.mem_cons_self, hmem, hflexible, rfl⟩
          · refine (hputs other).imp_right ?_
            rintro ⟨id', quantifier', kind', hgoal, hrest⟩
            exact ⟨id', quantifier', kind', List.mem_cons_of_mem _ hgoal, hrest⟩
        obtain ⟨table', s₃, frame₃, more', hrun', hframe', hcreated', hputs'⟩ :=
          ih (table.insert name (.unsolved id kind)) hcreated hrest hputs₂
        refine ⟨table', s₃, frame₃, more', ?_, hframe'.trans hframe, hcreated', hputs'⟩
        have hinsert : (freshType (s₁.substituteKind kind) >>= fun type =>
            pure (table.insert name type) : Solve _) s₁ =
              .ok (table.insert name (.unsolved id kind)) s₂ := by
          rw [hkind₁]
          exact Run.ok_bind hrun
        rw [if_pos rfl]
        exact (Run.ok_bind hinsert).trans hrun'
    | _ => exact hskip

/-- The flexible binders get variables that wait for them. -/
theorem freshBinders_created (isFlexible : Quantifier → Bool) {binders : List Ty}
    {frame : Frame (Located Attributes)} {outer : Stack (Located Attributes)} {s₁ : Store}
    (h : Created s goals [] outer frame s₁)
    (hbinders : ∀ binder ∈ binders, s.substituteType binder = binder) :
    ∃ table s₂ frame' more, freshBinders isFlexible binders s₁ = .ok table s₂ ∧
      frame'.kind = frame.kind ∧ Created s goals more outer frame' s₂ ∧
      Puts isFlexible binders more table.get? :=
  freshBinders_loop_created isFlexible Table.empty h hbinders (List.Subset.refl _)
    fun _ => .inl rfl

end Solve

end PolyFront
