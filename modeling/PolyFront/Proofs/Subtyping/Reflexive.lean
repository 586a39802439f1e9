import PolyFront.Proofs.Subtyping.Opening
import PolyFront.Proofs.Subtyping.Paths

/-!
# Types against themselves

A check of a type against itself succeeds and leaves no trace: it opens quantifiers in frames that
are dropped again, and all that it solves are the variables of these frames.  The invariant is that
the two sides are copies of one type.  The roles of the copies are exchanged at the parameters of a
function type, where no quantifier is open on one side only.
-/

namespace PolyFront

open Ty Store

namespace Solve

variable {s : Store} {goals : List (Nat × Ty)} {bound : List Ty} {groups : List (List Ty × Kind)}
  {type : Ty} {lefts rights : String → Option Ty} {fuel : Nat}

/-- The run answers yes, keeps the frames, and solves waiting variables only. -/
def Succeeds (goals : List (Nat × Ty)) (s : Store) (run : Solve Bool) : Prop :=
  Agrees (Awaits goals) (Waiting goals) s run

/-- A frame for a quantifier is dropped with its variables. -/
theorem withScope_succeeds {side : Side} {binders : List Ty} {body : Ty} {check : Ty → Solve Bool}
    (hs : Awaits goals s) (hbinders : ∀ binder ∈ binders, s.substituteType binder = binder)
    (hcheck : ∀ more values s', Awaits (more ++ goals) s' → MovesBy (fun _ => False) s s' →
      (∀ goal ∈ more, s.nextType ≤ goal.1) →
      Puts (· == side.flexible) binders (more ++ goals) values →
        Succeeds (more ++ goals) s' (check (body.replace values))) :
    Succeeds goals s (withScope .checkSubType (instantiateBinders side binders body >>= check)) :=
        by
  have hpushed : MovesBy (fun _ => False) s (pushed s (.empty .checkSubType)) :=
    .of_eq hs.orderly rfl rfl rfl
  have hstart : Created s goals [] s.stack (.empty .checkSubType)
      (pushed s (.empty .checkSubType)) :=
    ⟨hs.moves hpushed fun _ _ hfalse => hfalse.elim, hpushed, rfl, rfl,
      fun _ hmem => (List.not_mem_nil hmem).elim, fun _ hmem => (List.not_mem_nil hmem).elim⟩
  obtain ⟨table, s₁, frame, more, hrun, hframe, hcreated, hputs⟩ :=
    freshBinders_created (· == side.flexible) hstart hbinders
  obtain ⟨s₂, hchecked, hs₂, hstack, hmoves⟩ := hcheck more table.get? s₁ hcreated.awaits
    hcreated.moves hcreated.fresh (hputs.mono (List.subset_append_left _ _))
  have hbody : (instantiateBinders side binders body >>= check) (pushed s (.empty .checkSubType)) =
      .ok true s₂ := by
    have hinstantiate : instantiateBinders side binders body (pushed s (.empty .checkSubType)) =
        .ok (body.replace table.get?) s₁ := by
      rw [← instantiate_eq_replace]
      exact Run.ok_bind hrun
    exact (Run.ok_bind hinstantiate).trans hchecked
  -- For what was there before the frame, only the outer goals count.
  have hmoves' : MovesBy (Waiting goals) s s₂ := by
    refine (hcreated.moves.mono fun _ _ hfalse => hfalse.elim).trans hmoves ?_
    rintro id hid ⟨binder, hgoal⟩
    rcases List.mem_append.1 hgoal with hgoal | hgoal
    · exact (Nat.not_lt.2 (hcreated.fresh _ hgoal) hid).elim
    · exact ⟨binder, hgoal⟩
  have hlone : ∀ id ∈ frame.unsolvedTypes, s.nextType ≤ id ∧ id < s₂.nextType ∧ s₂.Lone id := by
    intro id hid
    obtain ⟨binder, hgoal⟩ := hcreated.registered id hid
    have hpending := hs₂.pending _ (List.mem_append_left _ hgoal)
    exact ⟨hcreated.fresh _ hgoal, hpending.created, hpending.lone⟩
  obtain ⟨s', hrun', hstack', hmoves'', hdropped⟩ := withScope_moves rfl hbody hmoves'
    (hstack.trans hcreated.stack) hframe hcreated.kinds hlone
  refine ⟨s', hrun', ?_, hstack', hmoves''⟩
  refine (hs₂.subset (List.subset_append_right more goals)).moves hdropped fun goal hgoal hmem => ?_
  exact (Nat.not_lt.2 (hlone _ hmem).1 (hs.pending goal hgoal).created).elim

/-- A variable that waits for a binder is solved by it, on either side. -/
theorem solve_succeeds (hs : Awaits goals s) {id : Nat} {quantifier : Quantifier} {name : String}
    {kind : Kind} (hgoal : (id, .var quantifier name kind) ∈ goals)
    (hself : s.substituteType (.unsolved id kind) = .unsolved id kind) (fuel : Nat) (side : Side) :
    Succeeds goals s (do
      if (Ty.var quantifier name kind).occurs id then pure false
      else if ← checkSubKind kind kind then
        instantiateTypeWithin (fuel + 1) side (id, kind) (.var quantifier name kind)
        pure true
      else pure false) := by
  have hoccurs : (Ty.var quantifier name kind).occurs id = false := by
    simp [occurs, unknowns, Walk.items, Walk.run, walk]
  rw [hoccurs, if_neg Bool.false_ne_true]
  have hpending := hs.pending _ hgoal
  have hkind : s.substituteKind kind = kind := by
    obtain ⟨_, _, _, heq, hkind⟩ := hpending.rigid
    cases heq
    exact hkind
  obtain ⟨s₁, hrun, -, hstack, hmoves⟩ := checkSubKind_self hs.orderly hkind
  have hs₁ := hs.moves hmoves fun _ _ hfalse => hfalse.elim
  have hself₁ := hmoves.spares id kind id kind hpending.created not_false hself
  obtain ⟨hsolved, hmoves'⟩ := hs₁.solveType hgoal hself₁
  refine ⟨s₁.solveType id kind (.var quantifier name kind), ?_, hsolved, hstack, ?_⟩
  · refine (Run.ok_bind hrun).trans ?_
    rw [if_pos rfl]
    rfl
  · exact (hmoves.mono fun _ _ hfalse => hfalse.elim).trans hmoves' fun _ _ hwaiting => hwaiting

/-! ## Parts -/

/-- The check succeeds on copies of limited size. -/
def Reflexive (limit : Nat) (check : Ty → Ty → Solve Bool) : Prop :=
  ∀ {s : Store} {goals : List (Nat × Ty)} {bound : List Ty} {groups : List (List Ty × Kind)}
    {type : Ty} {lefts rights : String → Option Ty}, Awaits goals s →
    Copies s goals bound groups type lefts rights →
    (quantify groups type).weight + type.weight ≤ limit →
      Succeeds goals s (check (quantify groups (type.replace lefts)) (type.replace rights))

end Solve

namespace Ty

variable {s : Store} {goals : List (Nat × Ty)} {bound : List Ty} {head arg : Ty} {args : List Ty}
  {kind : Kind} {type : Ty} {lefts rights : String → Option Ty}

theorem Copies.symm (h : Copies s goals bound [] type lefts rights) :
    Copies s goals bound [] type rights lefts :=
  ⟨h.self, h.older, h.wellScoped, h.matched.symm⟩

theorem Copies.applied (h : Copies s goals bound [] (.apply head args kind) lefts rights) :
    Copies s goals bound [] head lefts rights where
  self := by
    have hself := h.self
    rw [quantify_nil, Store.substituteType, Ty.substitute, bind_apply] at hself
    injection hself
  older id kind hmem := by
    refine h.older id kind ?_
    rw [quantify_nil, mentions]
    exact List.mem_append_left _ hmem
  wellScoped := (scoped_apply.1 h.wellScoped).1
  matched := h.matched

theorem Copies.argument (h : Copies s goals bound [] (.apply head args kind) lefts rights)
    (harg : arg ∈ args) : Copies s goals bound [] arg lefts rights where
  self := by
    have hself := h.self
    rw [quantify_nil, Store.substituteType, Ty.substitute, bind_apply] at hself
    injection hself with _ hargs _
    exact List.map_inj_left.1 (hargs.trans (List.map_id' args).symm) arg harg
  older id kind hmem := by
    refine h.older id kind ?_
    rw [quantify_nil, mentions]
    exact List.mem_append_right _ (List.mem_flatMap_of_mem harg hmem)
  wellScoped := (scoped_apply.1 h.wellScoped).2 arg harg
  matched := h.matched

/-- A bound variable meets itself or the unsolved variable that waits for it. -/
theorem Copies.kept_var {quantifier : Quantifier} {name : String}
    (h : Copies s goals bound [] (.var quantifier name kind) lefts rights) (hs : Awaits goals s) :
    kept s lefts name = none ∧ kept s rights name = none ∨
      ∃ id, (id, .var quantifier name kind) ∈ goals ∧
        s.substituteType (.unsolved id kind) = .unsolved id kind ∧
        (kept s lefts name = some (.unsolved id kind) ∧ kept s rights name = none ∨
          kept s lefts name = none ∧ kept s rights name = some (.unsolved id kind)) := by
  rcases h.matched name with ⟨hleft, hright⟩ | ⟨id, quantifier', kind', hgoal, hbinder, hcase⟩
  · exact .inl ⟨kept_none s hleft, kept_none s hright⟩
  obtain ⟨rfl, -, rfl⟩ : quantifier' = quantifier ∧ name = name ∧ kind' = kind := by
    simpa using scoped_var.1 h.wellScoped _ hbinder
  rcases hcase with ⟨hsome, hnone, -⟩ | ⟨hnone, hsome, -⟩ <;>
    rcases kept_cases hs hgoal hsome with ⟨hself, hkept⟩ | ⟨-, hkept⟩
  · exact .inr ⟨id, hgoal, hself, .inl ⟨hkept, kept_none s hnone⟩⟩
  · exact .inl ⟨hkept, kept_none s hnone⟩
  · exact .inr ⟨id, hgoal, hself, .inr ⟨kept_none s hnone, hkept⟩⟩
  · exact .inl ⟨kept_none s hnone, hkept⟩

end Ty

namespace Solve

section Apply

variable {s : Store} {goals : List (Nat × Ty)} {bound : List Ty} {head : Ty} {args : List Ty}
  {kind : Kind} {lefts rights : String → Option Ty} {fuel : Nat} {check : Ty → Ty → Solve Bool}

theorem exists_of_mem_zip_map {α β γ : Type} {f : α → β} {g : α → γ} {items : List α} {pair : β × γ}
    (h : pair ∈ (items.map f).zip (items.map g)) : ∃ item ∈ items, pair = (f item, g item) := by
  rw [List.zip_map, List.mem_map] at h
  obtain ⟨pair, hpair, rfl⟩ := h
  obtain ⟨item, hitem, rfl⟩ := exists_of_mem_zip_self hpair
  exact ⟨item, hitem, rfl⟩

theorem Reflexive.part (hcheck : Reflexive fuel check) {type : Ty} (hs : Awaits goals s)
    (hcopies : Copies s goals bound [] type lefts rights) (hle : type.weight + type.weight ≤ fuel) :
    Succeeds goals s (check (type.replace lefts) (type.replace rights)) :=
  hcheck hs hcopies hle

theorem checkApply_succeeds (hcheck : Reflexive fuel check) (hs : Awaits goals s)
    (hcopies : Copies s goals bound [] (.apply head args kind) lefts rights)
    (hle : (Ty.apply head args kind).weight + (Ty.apply head args kind).weight ≤ fuel + 1) :
    Succeeds goals s
      (if (args.map (replace lefts)).length = (args.map (replace rights)).length then
        match (Ty.apply (head.replace lefts) (args.map (replace lefts)) kind).function?,
            (Ty.apply (head.replace rights) (args.map (replace rights)) kind).function? with
        | some (params, result), some (params', result') => do
          let matched ← (params.zip params').allM fun (param, param') => check param' param
          if matched then check result result' else pure false
        | _, _ => do
          if ← check (head.replace lefts) (head.replace rights) then
            ((args.map (replace lefts)).zip (args.map (replace rights))).allM fun (arg, arg') =>
              check arg arg'
          else pure false
      else pure false) := by
  obtain ⟨hlefts, hrights⟩ := hcopies.matched.unsolved
  have hlength : (args.map (replace lefts)).length = (args.map (replace rights)).length := by simp
  rw [if_pos hlength, ← replace_apply, ← replace_apply, function?_replace hlefts,
    function?_replace hrights]
  rw [weight] at hle
  -- A part is checked as a copy in every store that the parts before it lead to.
  have hpart : ∀ {arg s'}, arg ∈ args → Awaits goals s' → MovesBy (Waiting goals) s s' →
      Copies s' goals bound [] arg lefts rights ∧ arg.weight + arg.weight ≤ fuel := by
    intro arg s' harg hs' hmoves
    have hweight := weight_le_weightList harg
    exact ⟨(hcopies.argument harg).moves hmoves, by omega⟩
  cases hfunction : (Ty.apply head args kind).function? with
  | some function =>
    obtain ⟨params, result⟩ := function
    obtain rfl := function?_eq_some hfunction
    refine Agrees.bind (Agrees.allM hs.orderly hs fun pair hpair s' _ hs' hmoves => ?_)
      fun s' hs' _ _ hmoves => ?_
    · obtain ⟨param, hparam, rfl⟩ := exists_of_mem_zip_map hpair
      obtain ⟨hcopies', hle'⟩ := hpart (List.mem_append_left _ hparam) hs' hmoves
      exact hcheck.part hs' hcopies'.symm hle'
    · obtain ⟨hcopies', hle'⟩ :=
        hpart (List.mem_append_right params (List.mem_singleton_self result)) hs' hmoves
      exact hcheck.part hs' hcopies' hle'
  | none =>
    refine Agrees.bind (hcheck.part hs hcopies.applied (by omega)) fun s' hs' hs'' _ hmoves => ?_
    refine Agrees.allM hs'' hs' fun pair hpair s'' _ hs''' hmoves' => ?_
    obtain ⟨arg, harg, rfl⟩ := exists_of_mem_zip_map hpair
    obtain ⟨hcopies', hle'⟩ :=
      hpart harg hs''' (hmoves.trans hmoves' fun _ _ hwaiting => hwaiting)
    exact hcheck.part hs''' hcopies' hle'

end Apply

section Open

variable {binders : List Ty} {body : Ty} {kind : Kind}

/-- A quantifier on the right is opened there. -/
theorem openRight_succeeds (hcheck : Reflexive fuel (checkSubTypeWithin fuel)) (hs : Awaits goals s)
    (hcopies : Copies s goals bound groups (.quantified binders body kind) lefts rights)
    (hle : (quantify groups (.quantified binders body kind)).weight +
      (Ty.quantified binders body kind).weight ≤ fuel + 1) :
    Succeeds goals s (withScope .checkSubType do
      checkSubTypeWithin fuel (quantify groups ((Ty.quantified binders body kind).replace lefts))
        (← instantiateBinders .sup binders (body.replace
            (hidden (bindersNames binders) rights)))) := by
  have hself := (bind_of_quantify hcopies.self).1
  rw [bind_quantified] at hself
  injection hself with hbinders _ _
  refine withScope_succeeds hs (List.map_inj_left.1 (hbinders.trans (List.map_id' binders).symm))
    fun more values s' hs' hmoves hfresh hputs => ?_
  have hcopies' := ((hcopies.weaken hfresh).moves
    (hmoves.mono fun _ _ hfalse => hfalse.elim)).openRight hputs
  rw [replace_replace (hcopies.matched.unsolved.2.hidden _), replace_quantified,
    ← quantify_append_singleton]
  refine hcheck hs' hcopies' ?_
  rw [quantify_append_singleton]
  rw [weight] at hle
  omega

/-- A quantifier that was opened on the right only is opened on the left next. -/
theorem openLeft_succeeds (hcheck : Reflexive fuel (checkSubTypeWithin fuel)) (hs : Awaits goals s)
    (hcopies : Copies s goals bound ((binders, kind) :: groups) type lefts rights)
    (hle : (quantify ((binders, kind) :: groups) type).weight + type.weight ≤ fuel + 1) :
    Succeeds goals s (withScope .checkSubType do
      checkSubTypeWithin fuel
        (← instantiateBinders .sub binders (quantify groups (type.replace lefts)))
        (type.replace rights)) := by
  obtain ⟨hbinders, -⟩ := (bind_of_quantify hcopies.self).2 _ List.mem_cons_self
  have hself := List.map_inj_left.1 (hbinders.trans (List.map_id' binders).symm)
  suffices hcheck' : ∀ more values s', Awaits (more ++ goals) s' → MovesBy (fun _ => False) s s' →
      (∀ goal ∈ more, s.nextType ≤ goal.1) →
      Puts (· == Side.sub.flexible) binders (more ++ goals) values →
        Succeeds (more ++ goals) s' (checkSubTypeWithin fuel
          ((quantify groups (type.replace lefts)).replace values) (type.replace rights)) from
    withScope_succeeds hs hself hcheck'
  intro more values s' hs' hmoves hfresh hputs
  have hcopies' := ((hcopies.weaken hfresh).moves
    (hmoves.mono fun _ _ hfalse => hfalse.elim)).openLeft hputs
  rw [replace_quantify, replace_replace hcopies.matched.unsolved.1]
  refine hcheck hs' hcopies' ?_
  rw [quantify_cons, weight] at hle
  omega

end Open

/-- A type is a subtype of itself up to variables that wait for a binder. -/
theorem checkSubTypeWithin_copies (fuel : Nat) : Reflexive fuel (checkSubTypeWithin fuel) := by
  induction fuel with
  | zero =>
    intro s goals bound groups type lefts rights _ _ hle
    have hpos := type.weight_pos
    omega
  | succ fuel ih =>
    intro s goals bound groups type lefts rights hs hcopies hle
    obtain ⟨hleft, hright, hkept⟩ := hcopies.substitute hs
    refine .substituteType (.substituteType ?_)
    rw [hleft, hright]
    by_cases hquantified : ∃ binders body kind, type = .quantified binders body kind
    · obtain ⟨binders, body, kind, rfl⟩ := hquantified
      have hopen := openRight_succeeds ih hs hkept hle
      rw [replace_quantified (kept s rights)]
      generalize quantify groups _ = sub at hopen ⊢
      cases sub <;> exact hopen
    cases groups with
    | cons group groups =>
      have hopen := openLeft_succeeds ih hs hkept hle
      have hsup : ∀ binders body kind, type.replace
          (kept s rights) ≠ .quantified binders body kind := by
        intro binders body kind heq
        obtain ⟨inner, rfl, -⟩ := exists_of_replace_quantified hkept.matched.unsolved.2 heq
        exact hquantified ⟨_, _, _, rfl⟩
      rw [quantify_cons]
      generalize type.replace (kept s rights) = sup at hopen hsup ⊢
      cases sup with
      | quantified binders body kind => exact (hsup _ _ _ rfl).elim
      | _ => exact hopen
    | nil =>
      rw [quantify_nil]
      rw [quantify_nil] at hle
      cases type with
      | quantified binders body kind => exact (hquantified ⟨_, _, _, rfl⟩).elim
      | unsolved id kind =>
        rw [replace_unsolved, replace_unsolved]
        dsimp only
        rw [if_pos (by simp)]
        exact .pure hs.orderly hs
      | constructor name kind =>
        rw [replace_constructor, replace_constructor]
        dsimp only
        rw [beq_self_eq_true]
        exact .pure hs.orderly hs
      | builtIn type =>
        rw [replace_builtIn, replace_builtIn]
        dsimp only
        rw [type.isSubtypeOf_refl]
        exact .pure hs.orderly hs
      | apply head args kind =>
        have happly := checkApply_succeeds ih hs hkept hle
        rw [replace_apply, replace_apply]
        exact happly
      | var quantifier name kind =>
        -- Both sides have a size, so that there is depth left to solve a variable.
        obtain ⟨depth, rfl⟩ : ∃ depth, fuel = depth + 1 :=
            ⟨fuel - 1, by simp only [weight] at hle; omega⟩
        rw [replace_var, replace_var]
        rcases hcopies.kept_var hs with ⟨hnone, hnone'⟩ |
          ⟨id, hgoal, hself, ⟨hsome, hnone⟩ | ⟨hnone, hsome⟩⟩
        · rw [hnone, hnone']
          dsimp only [Option.getD_none]
          rw [beq_self_eq_true, beq_self_eq_true]
          exact .pure hs.orderly hs
        · rw [hsome, hnone]
          exact solve_succeeds hs hgoal hself depth .sub
        · rw [hnone, hsome]
          exact solve_succeeds hs hgoal hself depth .sup

end Solve

open Solve

/-- In a store with acyclic kinds whose solutions mention created variables only, and where named
variables stand for themselves, a well-scoped type that is substituted by itself is a subtype of
itself.  The check keeps the frames and solves no variable that was there. -/
theorem Store.Orderly.checkSubType_self {s : Store} (hs : s.Orderly)
    (hrigid : ∀ type, s.Rigid type → s.types.find type = type) {type : Ty}
    (hself : s.substituteType type = type) (hbelow : type.Below s.nextType)
    (hscoped : type.Scoped []) :
    ∃ s', checkSubType type type s = .ok true s' ∧ s'.stack = s.stack ∧
      (∀ kind, s'.substituteKind kind = s.substituteKind kind) ∧
      ∀ id kind other final, id < s.nextType →
        s.substituteType (.unsolved id kind) = .unsolved other final →
          s'.substituteType (.unsolved id kind) = .unsolved other final := by
  have hawaits : Awaits [] s :=
    ⟨hs, hrigid, fun _ hmem => (List.not_mem_nil hmem).elim,
      fun _ _ _ hmem => (List.not_mem_nil hmem).elim⟩
  have hnone : ∀ id, ¬Waiting [] id := fun _ ⟨_, hmem⟩ => List.not_mem_nil hmem
  have hcopies : Copies s [] [] [] type (fun _ => none) (fun _ => none) :=
    ⟨hself, fun id kind hmem => ⟨hbelow id kind hmem, hnone id⟩, hscoped,
      fun _ => .inl ⟨rfl, rfl⟩⟩
  have hfuel : ∃ fuel, typeFuel [type, type] s = .ok fuel s ∧ type.weight + type.weight ≤ fuel := by
    refine ⟨_, rfl, ?_⟩
    have hsizes : total Ty.weight [type, type] = type.weight + (type.weight + 0) := rfl
    rw [total_append, hsizes]
    exact Nat.le_trans (by omega) (Nat.le_mul_self _)
  obtain ⟨fuel, hrun, hle⟩ := hfuel
  obtain ⟨s', hchecked, -, hstack, hmoves⟩ := checkSubTypeWithin_copies fuel hawaits hcopies hle
  rw [quantify_nil, replace_none] at hchecked
  exact ⟨s', (Run.ok_bind hrun).trans hchecked, hstack, hmoves.kinds,
    fun id kind other final hid heq => hmoves.spares id kind other final hid (hnone id) heq⟩

namespace Solve

/-- A pair of two types. -/
def pairOf (first second : Ty) : Ty :=
  .apply (.constructor ⟨⟨[], "Data"⟩, "Pair"⟩ (.higher [.type, .type] .type)) [first, second] .type

/-- A universal variable. -/
def everyA : Ty := .var .universal "a" .type

/-- An existential variable of the same name. -/
def someA : Ty := .var .existential "a" .type

/-- A function from pairs whose quantifier hides a name that the result mentions. -/
def shadowing : Ty :=
  .quantified [everyA, .var .existential "b" .type]
    (.function [.quantified [someA] (pairOf someA (.unsolved 0 .type)) .type]
      (pairOf (.var .existential "b" .type) everyA)) .type

/-- A frame with one variable. -/
def prepare : Solve Unit := do
  pushScope .block
  let _ ← freshType .type

theorem checkSubType_shadowing : ∃ s s', prepare Store.start = .ok () s ∧ s.Orderly ∧
    (∀ type, s.Rigid type → s.types.find type = type) ∧ s.substituteType shadowing = shadowing ∧
    shadowing.Below s.nextType ∧ shadowing.Scoped [] ∧
    checkSubType shadowing shadowing s = .ok true s' ∧ s'.stack = s.stack := by
  have hstart : Store.start.Orderly := ⟨Kind.wellFounded_empty, .empty⟩
  have hpushed : MovesBy (fun _ => False) Store.start (pushed Store.start (.empty .block)) :=
    .of_eq hstart rfl rfl rfl
  obtain ⟨s, hs⟩ : ∃ s, s = (pushed Store.start (.empty .block)).withType .type
    (Store.start.stack.push ((Frame.empty .block).addTypes [0])) := ⟨_, rfl⟩
  have hmoves : MovesBy (fun _ => False) Store.start s :=
    hs ▸ hpushed.trans (hpushed.orderly.withType (fun _ => False) .type _) fun _ _ hfalse => hfalse
  have hrun : prepare Store.start = .ok () s := hs ▸ rfl
  have hrigid : ∀ type, s.Rigid type → s.types.find type = type := fun type htype =>
    hmoves.rigid type ((Rigid.moves hmoves).1 htype) (Partition.find_of_absent rfl)
  have hself : s.substituteType shadowing = shadowing := hs ▸ rfl
  have hbelow : shadowing.Below s.nextType := by
    subst hs
    simp [shadowing, everyA, someA, pairOf, Ty.function, Below, mentions, withType]
  have hscoped : shadowing.Scoped [] := by
    simp [shadowing, everyA, someA, pairOf, Ty.function, Scoped, binderOf?, binderName?]
  obtain ⟨s', hcheck, hstack, -⟩ := hmoves.orderly.checkSubType_self hrigid hself hbelow hscoped
  exact ⟨s, s', hrun, hmoves.orderly, hrigid, hself, hbelow, hscoped, hcheck, hstack⟩

end Solve

/-! ## Types that are not subtypes of themselves -/

/-- Every quantifier binds distinct names, and every bound variable has the kind of its innermost
binder. -/
def Ty.KindScoped (bound : List Ty) : Ty → Prop
  | .var _ name kind => ∀ binder, binderOf? bound name = some binder → binder.kind = kind
  | .unsolved _ _ => True
  | .constructor _ _ => True
  | .apply head args _ => head.KindScoped bound ∧ ∀ arg ∈ args, arg.KindScoped bound
  | .quantified binders body _ => (bindersNames binders).Nodup ∧ body.KindScoped (binders ++ bound)
  | .builtIn _ => True

/-- Solutions that have no parts are acyclic. -/
theorem Ty.wellFounded_of_leaves {types : Partition Ty}
    (h : types.classes.all (fun c => shape.leaf c.representative) = true) :
    WellFounded (Within types) := by
  refine ⟨fun id => .intro id ?_⟩
  rintro inner ⟨hsolved, kind, hmem⟩
  cases hclass : types.classOf? (.unsolved id .type) with
  | none =>
    refine (hsolved ?_).elim
    rw [IsFinal, Partition.Final, Partition.find_of_absent hclass]
    exact BEq.refl _
  | some c =>
    have hleaf := List.all_eq_true.1 h c (Partition.mem_of_classOf? hclass).1
    rw [Partition.find_of_classOf? hclass, mentions_of_leaf hleaf] at hmem
    cases hmem

namespace Solve

/-- The steps lead to a store with a frame and acyclic solutions.  There the type is substituted by
itself and its variables have the kinds of their binders, but it is no subtype of itself. -/
def Irreflexive (steps : Solve Unit) (type : Ty) : Prop :=
  ∃ s s', steps Store.start = .ok () s ∧ s.stack.frames ≠ [] ∧ WellFounded (Kind.Within s.kinds) ∧
    WellFounded (Ty.Within s.types) ∧ s.substituteType type = type ∧ type.KindScoped [] ∧
    checkSubType type type s = .ok false s'

/-- A check of the type against itself answers no. -/
def answersNo (type : Ty) (s : Store) : Bool :=
  match checkSubType type type s with
  | .ok answer _ => !answer
  | .error _ _ => false

theorem irreflexive_of_answersNo {steps : Solve Unit} {type : Ty} {s : Store}
    (hrun : steps Store.start = .ok () s) (hframes : s.stack.frames ≠ [])
        (hkinds : s.kinds = .empty)
    (htypes : s.types.classes.all (fun c => shape.leaf c.representative) = true)
    (hself : s.substituteType type = type) (hscoped : type.KindScoped [])
    (hanswer : answersNo type s = true) : Irreflexive steps type := by
  have hkinds' : WellFounded (Kind.Within s.kinds) := by
    rw [hkinds]
    exact Kind.wellFounded_empty
  rw [answersNo] at hanswer
  cases hcheck : checkSubType type type s with
  | error fault s' =>
    rw [hcheck] at hanswer
    cases hanswer
  | ok answer s' =>
    rw [hcheck] at hanswer
    obtain rfl := (Bool.not_eq_true' answer).mp hanswer
    exact ⟨s, s', hrun, hframes, hkinds', Ty.wellFounded_of_leaves htypes, hself, hscoped, hcheck⟩

/-- A frame with one variable that is solved by a number and by a named variable, too. -/
def contest : Solve Unit := do
  prepare
  Solve.solveType 0 .type (.builtIn .int)
  Solve.solveType 0 .type everyA

/-- A frame and a variable that was solved before it is created. -/
def anticipate : Solve Unit := do
  pushScope .block
  Solve.solveType 0 .type (.builtIn .int)

/-- The checks fail for a bound variable of the other quantifier, in a store where the named
variable stands for a number, and for a variable in the type or in the store that is created only
by the check. -/
theorem exists_irreflexive :
    Irreflexive (pushScope .block) (.quantified [everyA] (pairOf everyA someA) .type) ∧
    Irreflexive contest (.quantified [everyA] (pairOf everyA everyA) .type) ∧
    Irreflexive (pushScope .block) (.quantified [someA] (pairOf someA
      (.quantified [everyA] (pairOf everyA (.unsolved 0 .type)) .type)) .type) ∧
    Irreflexive anticipate (.quantified [someA] (pairOf someA someA) .type) := by
  exact ⟨irreflexive_of_answersNo rfl (List.cons_ne_nil _ _) rfl rfl rfl
      (by simp [everyA, someA, pairOf, KindScoped, binderOf?, binderName?, Ty.kind])
      (by decide +kernel),
    irreflexive_of_answersNo rfl (List.cons_ne_nil _ _) rfl (by decide +kernel) rfl
      (by simp [everyA, pairOf, KindScoped, binderOf?, binderName?, Ty.kind]) (by decide +kernel),
    irreflexive_of_answersNo rfl (List.cons_ne_nil _ _) rfl rfl rfl
      (by simp [everyA, someA, pairOf, KindScoped, binderOf?, binderName?, Ty.kind])
      (by decide +kernel),
    irreflexive_of_answersNo rfl (List.cons_ne_nil _ _) rfl (by decide +kernel) rfl
      (by simp [someA, pairOf, KindScoped, binderOf?, binderName?, Ty.kind]) (by decide +kernel)⟩

end Solve

end PolyFront
