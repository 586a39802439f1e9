import PolyFront.Checking.Subtype
import PolyFront.Proofs.Solutions.Subkind

/-!
# Subtype checks keep solutions acyclic

A check substitutes its types and looks for a variable before it solves it, but the parts of a
type are solved by fresh variables without looking again.  That is safe since solving one part
spares the fresh variables of the parts that follow: they are neither solved nor mentioned by
any solution that those parts can reach.
-/

namespace PolyFront

namespace Solve

open Run Store

variable {s s' s'' : Store}

/-! ## Parts -/

/-- Fresh variables, each to be solved by the type it comes with. -/
abbrev Parts : Type := List ((Nat × Kind) × Ty)

/-- The fresh variables stand for themselves, they differ, and no part leads to one of them. -/
structure Ready (s : Store) (parts : Parts) : Prop where
  hole : ∀ part ∈ parts, part.1.1 < s.nextType ∧ part.1.2.Proper s.nextKind ∧
    Ty.IsFinal s.types part.1.1
  proper : ∀ part ∈ parts, part.2.Proper s.nextKind s.nextType
  distinct : parts.Pairwise fun part part' => part.1.1 ≠ part'.1.1
  apart : ∀ part ∈ parts, ∀ part' ∈ parts, ∀ v k, (v, k) ∈ part'.2.mentions →
    ¬Ty.Reaches s.types v part.1.1

/-- The variables that solving some parts may touch. -/
def Touched (s : Store) (parts : Parts) (id : Nat) : Prop :=
  (∃ part ∈ parts, id = part.1.1) ∨
    ∃ part ∈ parts, ∃ v k, (v, k) ∈ part.2.mentions ∧ Ty.Reaches s.types v id

theorem Touched.append_left {left right : Parts} {id : Nat} (h : Touched s left id) :
    Touched s (left ++ right) id := by
  rcases h with ⟨part, hpart, heq⟩ | ⟨part, hpart, h⟩
  · exact .inl ⟨part, List.mem_append_left _ hpart, heq⟩
  · exact .inr ⟨part, List.mem_append_left _ hpart, h⟩

theorem Ready.left {left right : Parts} (h : Ready s (left ++ right)) : Ready s left where
  hole part hpart := h.hole part (List.mem_append_left _ hpart)
  proper part hpart := h.proper part (List.mem_append_left _ hpart)
  distinct := (List.pairwise_append.1 h.distinct).1
  apart part hpart part' hpart' :=
    h.apart part (List.mem_append_left _ hpart) part' (List.mem_append_left _ hpart')

/-- Once some parts are solved the others are still ready. -/
theorem Ready.after {left right : Parts} (h : Ready s (left ++ right))
    (hs : Evolves (Touched s left) s s') : Ready s' right := by
  have hspared : ∀ part ∈ right, ¬Touched s left part.1.1 := by
    intro part hpart htouched
    rcases htouched with ⟨other, hother, heq⟩ | ⟨other, hother, v, k, hmem, hreaches⟩
    · exact (List.pairwise_append.1 h.distinct).2.2 other hother part hpart heq.symm
    · exact h.apart part (List.mem_append_right _ hpart) other (List.mem_append_left _ hother) v k
        hmem hreaches
  refine ⟨?_, ?_, (List.pairwise_append.1 h.distinct).2.1, ?_⟩
  · intro part hpart
    obtain ⟨hlt, hproper, hfinal⟩ := h.hole part (List.mem_append_right _ hpart)
    exact ⟨Nat.lt_of_lt_of_le hlt hs.types, hproper.mono hs.kinds,
      hs.final hlt (hspared part hpart) hfinal⟩
  · intro part hpart
    exact (h.proper part (List.mem_append_right _ hpart)).mono hs.kinds hs.types
  · intro part hpart part' hpart' v k hmem hreaches
    obtain ⟨hlt, -, hfinal⟩ := h.hole part (List.mem_append_right _ hpart)
    exact h.apart part (List.mem_append_right _ hpart) part' (List.mem_append_right _ hpart') v k
      hmem (hs.reaches hlt (hspared part hpart) hfinal hreaches)

/-- Solving some parts and then others touches what either touches. -/
theorem evolves_append {left right : Parts} (h : Evolves (Touched s left) s s')
    (h' : Evolves (Touched s' right) s' s'') : Evolves (Touched s (left ++ right)) s s'' := by
  refine (h.mono fun _ _ => Touched.append_left).trans h' fun id hid hfinal hspared htouched => ?_
  rcases htouched with ⟨part, hpart, heq⟩ | ⟨part, hpart, v, k, hmem, hreaches⟩
  · exact hspared (.inl ⟨part, List.mem_append_right _ hpart, heq⟩)
  · have hleft : ¬Touched s left id := fun hin => hspared hin.append_left
    have hback := h.reaches hid hleft hfinal hreaches
    exact hspared (.inr ⟨part, List.mem_append_right _ hpart, v, k, hmem, hback⟩)

/-- Solving a variable by a type that mentions other variables only. -/
def Instantiates (instantiate : Nat × Kind → Ty → Solve Unit) : Prop :=
  ∀ {s : Store} (id : Nat) (kind : Kind) (type : Ty), s.Sound → id < s.nextType →
    kind.Proper s.nextKind → Ty.IsFinal s.types id → type.Proper s.nextKind s.nextType →
    (∀ other k, (other, k) ∈ type.mentions → other ≠ id ∧ Ty.IsFinal s.types other) →
    Ends (instantiate (id, kind) type) s fun _ s' =>
      Evolves (fun other => other = id ∨ ∃ k, (other, k) ∈ type.mentions) s s'

/-- Parts that are ready are solved one after the other. -/
theorem parts_ends {instantiate : Nat × Kind → Ty → Solve Unit}
    (hinstantiate : Instantiates instantiate) (parts : Parts) : ∀ {s : Store}, s.Sound →
    Ready s parts → Ends (parts.forM fun (hole, type) => do
      instantiate hole (← substituteType type)) s fun _ s' => Evolves (Touched s parts) s s' := by
  induction parts with
  | nil =>
    intro s hs _
    exact Ends.pure hs.refl.evolves
  | cons part rest ih =>
    intro s hs hready
    obtain ⟨⟨id, kind⟩, type⟩ := part
    obtain ⟨hlt, hkind, hfinal⟩ := hready.hole _ List.mem_cons_self
    have htype := hready.proper _ List.mem_cons_self
    have hreached : ∀ other k, (other, k) ∈ (s.substituteType type).mentions →
        Touched s [((id, kind), type)] other := by
      intro other k hmem
      obtain ⟨v, k', hv, hreaches⟩ := Ty.reaches_of_mem_substitute hs.types.wellFounded hmem
      exact .inr ⟨_, List.mem_cons_self, v, k', hv, hreaches⟩
    have hmentions : ∀ other k, (other, k) ∈ (s.substituteType type).mentions →
        other ≠ id ∧ Ty.IsFinal s.types other := by
      intro other k hmem
      refine ⟨?_, Ty.final_of_mem_substitute hs.types hmem⟩
      rintro rfl
      obtain ⟨v, k', hv, hreaches⟩ := Ty.reaches_of_mem_substitute hs.types.wellFounded hmem
      exact hready.apart _ List.mem_cons_self _ List.mem_cons_self v k' hv hreaches
    refine Ends.bind (Ends.bind (Ends.bind (Ends.get (Ends.pure ?_))))
    refine (hinstantiate id kind _ hs hlt hkind hfinal (hs.types.substitute_proper hs.kinds htype)
      hmentions).mono fun _ s₁ hs₁ => ?_
    have hfirst : Evolves (Touched s [((id, kind), type)]) s s₁ := by
      refine hs₁.mono fun other _ hother => ?_
      rcases hother with rfl | ⟨k, hk⟩
      · exact .inl ⟨_, List.mem_cons_self, rfl⟩
      · exact hreached other k hk
    have hsplit : Ready s ([((id, kind), type)] ++ rest) := hready
    refine (ih hfirst.sound (hsplit.after hfirst)).mono ?_
    intro _ s₂ hs₂
    exact evolves_append hfirst hs₂

/-! ## Fresh types -/

/-- Fresh variables of the kinds of some types. -/
theorem freshVariables_ends (types : List Ty) : ∀ {s : Store}, s.Sound →
    (∀ type ∈ types, type.Proper s.nextKind s.nextType) →
    Ends (types.mapM fun type => freshVariable type.kind) s fun holes s' => Grows s s' ∧
      holes.length = types.length ∧
      (∀ hole ∈ holes, s.nextType ≤ hole.1 ∧ hole.1 < s'.nextType ∧ hole.2.Proper s'.nextKind) ∧
      holes.Pairwise fun hole hole' => hole.1 ≠ hole'.1 := by
  induction types with
  | nil =>
    intro s hs _
    exact Ends.pure ⟨hs.grows_of_eq rfl rfl rfl rfl, rfl,
      fun hole hhole => (List.not_mem_nil hhole).elim, List.Pairwise.nil⟩
  | cons type rest ih =>
    intro s hs htypes
    rw [List.mapM_cons]
    have hkind := (htypes type List.mem_cons_self).kind
    refine Ends.bind ((freshVariable_ends hs hkind).mono ?_)
    rintro _ s₁ ⟨hgrows, rfl, hnext⟩
    have hrest : ∀ other ∈ rest, other.Proper s₁.nextKind s₁.nextType := fun other hother =>
      (htypes other (List.mem_cons_of_mem _ hother)).mono hgrows.kinds hgrows.types
    refine Ends.bind ((ih hgrows.sound hrest).mono ?_)
    rintro holes s₂ ⟨hgrows', hlength, hholes, hdistinct⟩
    have htypesLe := hgrows'.types
    refine Ends.pure ⟨hgrows.trans hgrows', by simp [hlength], ?_, ?_⟩
    · intro hole hhole
      rcases List.mem_cons.1 hhole with rfl | hhole
      · exact ⟨Nat.le_refl _, by dsimp only; omega, hkind.mono (hgrows.trans hgrows').kinds⟩
      · obtain ⟨hle, hlt, hproper⟩ := hholes hole hhole
        exact ⟨by omega, hlt, hproper⟩
    · refine List.pairwise_cons.2 ⟨fun hole hhole => ?_, hdistinct⟩
      obtain ⟨hle, -, -⟩ := hholes hole hhole
      dsimp only
      omega

/-- The binders that are left add to the fresh types that those before them got. -/
theorem freshBinders_loop_ends (isFlexible : Quantifier → Bool) {s : Store} {binders : List Ty}
    (assignment : Table String Ty) {s₁ : Store} (hgrows : Grows s s₁)
    (hbinders : ∀ binder ∈ binders, binder.Proper s.nextKind s.nextType)
    (hassignment : ∀ name value, assignment.get? name = some value → ∃ v k, value = .unsolved v k ∧
      s.nextType ≤ v ∧ v < s₁.nextType ∧ k.Proper s₁.nextKind) :
    Ends (binders.foldlM (fun (assignment : Table String Ty) (binder : Ty) => do
      match binder with
      | .var quantifier name kind =>
        if isFlexible quantifier then
          pure (assignment.insert name (← freshType (← substituteKind kind)))
        else pure assignment
      | _ => pure assignment) assignment) s₁ fun assignment s' => Grows s s' ∧
        ∀ name value, assignment.get? name = some value → ∃ v k, value = .unsolved v k ∧
          s.nextType ≤ v ∧ v < s'.nextType ∧ k.Proper s'.nextKind := by
  induction binders generalizing assignment s₁ with
  | nil => exact Ends.pure ⟨hgrows, hassignment⟩
  | cons binder rest ih =>
    rw [List.foldlM_cons]
    have hrest := fun other hother => hbinders other (List.mem_cons_of_mem _ hother)
    refine Ends.bind ?_
    split
    · rename_i quantifier name kind
      split
      · have hkind : kind.Proper s₁.nextKind :=
          (Ty.proper_var.1 (hbinders _ List.mem_cons_self)).mono hgrows.kinds
        refine Ends.bind (Ends.bind (Ends.get (Ends.pure ?_)))
        refine Ends.bind (Ends.bind ((freshVariable_ends hgrows.sound
          (hgrows.sound.kinds.substitute_proper hkind)).mono ?_))
        rintro _ s₂ ⟨hgrows', rfl, hnext⟩
        refine Ends.pure (Ends.pure (ih _ (hgrows.trans hgrows') hrest ?_))
        intro other value hget
        rw [Table.get?_insert] at hget
        have htypesLe := hgrows.types
        split at hget
        · obtain rfl := Option.some.inj hget
          exact ⟨_, _, rfl, htypesLe, by omega,
            (hgrows.sound.kinds.substitute_proper hkind).mono hgrows'.kinds⟩
        · obtain ⟨v, k, heq, hle, hlt, hproper⟩ := hassignment other value hget
          exact ⟨v, k, heq, hle, by omega, hproper.mono hgrows'.kinds⟩
      · exact Ends.pure (ih assignment hgrows hrest hassignment)
    · exact Ends.pure (ih assignment hgrows hrest hassignment)

/-- The fresh types that the flexible binders get. -/
theorem freshBinders_ends (isFlexible : Quantifier → Bool) (binders : List Ty) (hs : s.Sound)
    (hbinders : ∀ binder ∈ binders, binder.Proper s.nextKind s.nextType) :
    Ends (freshBinders isFlexible binders) s fun assignment s' => Grows s s' ∧
      ∀ name value, assignment.get? name = some value → ∃ v k, value = .unsolved v k ∧
        s.nextType ≤ v ∧ v < s'.nextType ∧ k.Proper s'.nextKind := by
  refine freshBinders_loop_ends isFlexible Table.empty (hs.grows_of_eq rfl rfl rfl rfl) hbinders ?_
  intro name value hget
  cases hget

/-- A quantified type without its binders mentions fresh variables in their places. -/
theorem instantiateBinders_ends (side : Side) {binders : List Ty} {body : Ty} {kind : Kind}
    (hs : s.Sound) (htype : (Ty.quantified binders body kind).Proper s.nextKind s.nextType) :
    Ends (instantiateBinders side binders body) s fun type s' => Grows s s' ∧
      type.Proper s'.nextKind s'.nextType ∧
      ∀ v k, (v, k) ∈ type.mentions → (v, k) ∈ body.mentions ∨ s.nextType ≤ v := by
  obtain ⟨hbinders, hbody, -⟩ := Ty.proper_quantified.1 htype
  refine Ends.bind ((freshBinders_ends _ binders hs fun binder hbinder =>
    (hbinders binder hbinder).2).mono ?_)
  rintro assignment s' ⟨hgrows, hassignment⟩
  refine Ends.pure ⟨hgrows, ?_, ?_⟩
  · refine (hbody.mono hgrows.kinds hgrows.types).instantiate fun name value hget => ?_
    obtain ⟨v, k, rfl, -, hlt, hproper⟩ := hassignment name value hget
    exact Ty.proper_unsolved.2 ⟨hlt, hproper⟩
  · intro v k hmem
    rcases Ty.mem_mentions_instantiate hmem with hbody | ⟨name, value, hget, hmem⟩
    · exact .inl hbody
    · obtain ⟨w, k', rfl, hle, -, -⟩ := hassignment name value hget
      obtain ⟨rfl, -⟩ : v = w ∧ k = k' := by simpa [Ty.mentions] using hmem
      exact .inr hle

/-! ## Solving a variable -/

/-- A variable is solved by a type of fresh variables, and these are ready to be solved by parts
of the type that the variable is to match. -/
theorem solve_ready {id : Nat} {kind : Kind} {type whole : Ty} {holes : List (Nat × Kind)}
    {types : List Ty} (hs : s.Sound) (hgrows : Grows s s') (hid : id < s.nextType)
    (hkind : kind.Proper s.nextKind) (hfinal : Ty.IsFinal s.types id)
    (hmentions : ∀ other k, (other, k) ∈ type.mentions →
      other < s.nextType ∧ other ≠ id ∧ Ty.IsFinal s.types other)
    (hwhole : whole.Proper s'.nextKind s'.nextType) (hsolved : Ty.shape.unknown whole = false)
    (hfresh : ∃ v k, (v, k) ∈ whole.mentions ∧ s.nextType ≤ v)
    (hwholeMentions : ∀ v k, (v, k) ∈ whole.mentions →
      s.nextType ≤ v ∨ ∃ k', (v, k') ∈ type.mentions)
    (hholes : ∀ hole ∈ holes, s.nextType ≤ hole.1 ∧ hole.1 < s'.nextType ∧
      hole.2.Proper s'.nextKind)
    (hlength : holes.length ≤ types.length)
    (hdistinct : holes.Pairwise fun hole hole' => hole.1 ≠ hole'.1)
    (htypes : ∀ part ∈ types, part.Proper s.nextKind s.nextType ∧
      ∀ v k, (v, k) ∈ part.mentions → (v, k) ∈ type.mentions) :
    Sound (s'.solveType id kind whole) ∧
      Ready (s'.solveType id kind whole) (holes.zip types) ∧
      ∀ s'', Evolves (Touched (s'.solveType id kind whole) (holes.zip types))
          (s'.solveType id kind whole) s'' →
        Evolves (fun other => other = id ∨ ∃ k, (other, k) ∈ type.mentions) s s'' := by
  -- All variables but the solved one that stood for themselves still do.
  have hfinal' : ∀ {v}, Ty.IsFinal s.types v → Ty.IsFinal s'.types v := hgrows.finalType
  have hsolution : Ty.Solution s'.types id whole := by
    obtain ⟨v, k, hmem, hle⟩ := hfresh
    refine .compound hsolved (hgrows.type_absent hs hsolved hmem hle) fun other k' hother => ?_
    rcases hwholeMentions other k' hother with hle | ⟨k'', hmem⟩
    · exact ⟨by omega, hfinal' (hs.type_final hle)⟩
    · obtain ⟨-, hne, hother⟩ := hmentions other k'' hmem
      exact ⟨hne, hfinal' hother⟩
  obtain ⟨hsolve, hstays⟩ := hgrows.sound.solveType (Nat.lt_of_lt_of_le hid hgrows.types)
    (hkind.mono hgrows.kinds) (hfinal' hfinal) hwhole hsolution
  have hstays := hstays hsolved
  have hmentioned : ∀ v k, (v, k) ∈ type.mentions →
      v < s.nextType ∧ Ty.IsFinal (s'.solveType id kind whole).types v := by
    intro v k hmem
    obtain ⟨hlt, hne, hv⟩ := hmentions v k hmem
    exact ⟨hlt, hstays v hne (hfinal' hv)⟩
  have hpart : ∀ part ∈ holes.zip types, part.1 ∈ holes ∧ part.2 ∈ types :=
    fun part hpart => List.of_mem_zip hpart
  refine ⟨hsolve.sound, ⟨?_, ?_, ?_, ?_⟩, fun s'' hs'' => ?_⟩
  · intro part hmem
    obtain ⟨hle, hlt, hproper⟩ := hholes part.1 (hpart part hmem).1
    refine ⟨Nat.lt_of_lt_of_le hlt hsolve.types, hproper.mono hsolve.kinds, ?_⟩
    exact hstays part.1.1 (by omega) (hfinal' (hs.type_final hle))
  · intro part hmem
    have hproper := (htypes part.2 (hpart part hmem).2).1
    exact hproper.mono (Nat.le_trans hgrows.kinds hsolve.kinds)
      (Nat.le_trans hgrows.types hsolve.types)
  · rw [← List.map_fst_zip hlength, List.pairwise_map] at hdistinct
    exact hdistinct
  · intro part hmem part' hmem' v k hv hreaches
    obtain ⟨hle, -, -⟩ := hholes part.1 (hpart part hmem).1
    obtain ⟨hlt, hvfinal⟩ :=
      hmentioned v k ((htypes part'.2 (hpart part' hmem').2).2 v k hv)
    have heq := hreaches.eq_of_final hvfinal
    omega
  · have hstart : Evolves (fun other => other = id ∨ ∃ k, (other, k) ∈ type.mentions) s
        (s'.solveType id kind whole) := by
      refine hgrows.settles.evolves.trans hsolve fun other hother _ hspared htouched => ?_
      rcases htouched with rfl | ⟨k, hk⟩
      · exact hspared (.inl rfl)
      · rcases hwholeMentions other k hk with hle | hmem
        · omega
        · exact hspared (.inr hmem)
    refine hstart.trans hs'' fun other hother _ hspared htouched => ?_
    rcases htouched with ⟨part, hmem, rfl⟩ | ⟨part, hmem, v, k, hv, hreaches⟩
    · obtain ⟨hle, -, -⟩ := hholes part.1 (hpart part hmem).1
      omega
    · have hin := (htypes part.2 (hpart part hmem).2).2 v k hv
      obtain rfl := hreaches.eq_of_final (hmentioned v k hin).2
      exact hspared (.inr ⟨k, hin⟩)

/-- The types of fresh variables. -/
theorem mem_mentions_holes {holes : List (Nat × Kind)} {v : Nat} {k : Kind} :
    (v, k) ∈ (holes.map fun hole => Ty.unsolved hole.1 hole.2).flatMap Ty.mentions ↔
      (v, k) ∈ holes := by
  simp [List.flatMap_map, Ty.mentions]

theorem function?_eq_some {head : Ty} {args : List Ty} {applied : Kind} {params : List Ty}
    {result : Ty} (h : (Ty.apply head args applied).function? = some (params, result)) :
    args = params ++ [result] := by
  unfold Ty.function? at h
  split at h
  · rename_i arity args' kind heq
    cases heq
    obtain ⟨last, hlast, heq⟩ := Option.map_eq_some_iff.1 h
    obtain ⟨rfl, rfl⟩ := Prod.mk.inj heq
    obtain ⟨hne, rfl⟩ := List.getLast?_eq_some_iff.1 hlast
    simp
  · cases h

/-- A variable that is to match an application is solved by an application to fresh variables,
which are ready to be solved by the arguments. -/
theorem solveApply_ready {id : Nat} {kind : Kind} {head head' : Ty} {args : List Ty}
    {applied applied' : Kind} {holes : List (Nat × Kind)} (hs : s.Sound) (hgrows : Grows s s')
    (hid : id < s.nextType) (hkind : kind.Proper s.nextKind) (hfinal : Ty.IsFinal s.types id)
    (htype : (Ty.apply head args applied).Proper s.nextKind s.nextType)
    (hmentions : ∀ other k, (other, k) ∈ (Ty.apply head args applied).mentions →
      other ≠ id ∧ Ty.IsFinal s.types other)
    (hhead' : head'.Proper s.nextKind s.nextType) (happlied' : applied'.Proper s.nextKind)
    (hheadMentions : ∀ v k, (v, k) ∈ head'.mentions → (v, k) ∈ head.mentions)
    (hlength : holes.length = args.length)
    (hholes : ∀ hole ∈ holes, s.nextType ≤ hole.1 ∧ hole.1 < s'.nextType ∧
      hole.2.Proper s'.nextKind)
    (hdistinct : holes.Pairwise fun hole hole' => hole.1 ≠ hole'.1) :
    let s₁ := s'.solveType id kind
      (.apply head' (holes.map fun hole => .unsolved hole.1 hole.2) applied')
    Sound s₁ ∧ Ready s₁ (holes.zip args) ∧ ∀ s'', Evolves (Touched s₁ (holes.zip args)) s₁ s'' →
      Evolves (fun other => other = id ∨
        ∃ k, (other, k) ∈ (Ty.apply head args applied).mentions) s s'' := by
  obtain ⟨-, hne, hargs, -⟩ := Ty.proper_apply.1 htype
  have hholesNe : holes ≠ [] := by
    rintro rfl
    exact hne (List.eq_nil_of_length_eq_zero hlength.symm)
  have hwhole : (Ty.apply head' (holes.map fun hole => .unsolved hole.1 hole.2)
      applied').Proper s'.nextKind s'.nextType := by
    refine Ty.proper_apply.2 ⟨hhead'.mono hgrows.kinds hgrows.types, by simpa using hholesNe, ?_,
      happlied'.mono hgrows.kinds⟩
    intro type htype
    obtain ⟨hole, hhole, rfl⟩ := List.mem_map.1 htype
    exact Ty.proper_unsolved.2 (hholes hole hhole).2
  have hwholeMentions : ∀ v k, (v, k) ∈ (Ty.apply head'
      (holes.map fun hole => .unsolved hole.1 hole.2) applied').mentions ↔
        (v, k) ∈ head'.mentions ∨ (v, k) ∈ holes := by
    intro v k
    rw [Ty.mentions, List.mem_append, mem_mentions_holes]
  refine solve_ready hs hgrows hid hkind hfinal (fun other k hmem =>
    ⟨(htype.lt hmem).1, hmentions other k hmem⟩) hwhole rfl ?_ ?_ hholes (Nat.le_of_eq hlength)
    hdistinct ?_
  · obtain ⟨hole, hhole⟩ := List.exists_mem_of_ne_nil holes hholesNe
    exact ⟨hole.1, hole.2, (hwholeMentions _ _).2 (.inr hhole), (hholes hole hhole).1⟩
  · intro v k hmem
    rcases (hwholeMentions v k).1 hmem with hmem | hmem
    · exact .inr ⟨k, by rw [Ty.mentions]; exact List.mem_append_left _ (hheadMentions v k hmem)⟩
    · exact .inl (hholes _ hmem).1
  · intro arg harg
    refine ⟨hargs arg harg, fun v k hmem => ?_⟩
    rw [Ty.mentions]
    exact List.mem_append_right _ (List.mem_flatMap.2 ⟨arg, harg, hmem⟩)

/-- Instantiation to any depth keeps solutions acyclic. -/
theorem instantiateTypeWithin_ends (fuel : Nat) :
    ∀ side, Instantiates (instantiateTypeWithin fuel side) := by
  induction fuel with
  | zero =>
    intro side s id kind type hs _ _ _ _ _
    exact Ends.pure hs.refl.evolves
  | succ fuel ih =>
    intro side s id kind type hs hid hkind hfinal htype hmentions
    have hmentions' : ∀ other k, (other, k) ∈ type.mentions →
        other < s.nextType ∧ other ≠ id ∧ Ty.IsFinal s.types other := fun other k hmem =>
      ⟨(htype.lt hmem).1, hmentions other k hmem⟩
    cases type with
    | var quantifier name varKind =>
      exact Ends.modify (hs.solveType hid hkind hfinal htype (.leaf rfl)).1
    | constructor name constructorKind =>
      exact Ends.modify (hs.solveType hid hkind hfinal htype (.leaf rfl)).1
    | builtIn type => exact Ends.modify (hs.solveType hid hkind hfinal htype (.leaf rfl)).1
    | unsolved other otherKind =>
      obtain ⟨hother, hotherKind⟩ := Ty.proper_unsolved.1 htype
      obtain ⟨hne, hotherFinal⟩ := hmentions other otherKind (by simp [Ty.mentions])
      refine Ends.modify ((hs.solveType hother hotherKind hotherFinal
        (Ty.proper_unsolved.2 ⟨hid, hkind⟩) (.unknown kind hne.symm hfinal)).1.mono ?_)
      rintro v - (rfl | ⟨k, hk⟩)
      · exact .inr ⟨otherKind, by simp [Ty.mentions]⟩
      · obtain ⟨rfl, -⟩ : v = id ∧ k = kind := by simpa [Ty.mentions] using hk
        exact .inl rfl
    | quantified binders body quantifiedKind =>
      refine withScope_ends ?_
      have hpushed := hs.withStack (s.stack.push (Frame.empty .instantiateType))
      refine Ends.bind ((instantiateBinders_ends side.flip hpushed.sound htype).mono ?_)
      rintro body' s₁ ⟨hgrows, hproper, hbody⟩
      have hsettled : Settles s s₁ := hpushed.trans hgrows.settles
      have hmentioned : ∀ v k, (v, k) ∈ body'.mentions → s.nextType ≤ v ∨
          ∃ k', (v, k') ∈ (Ty.quantified binders body quantifiedKind).mentions := by
        intro v k hmem
        rcases hbody v k hmem with hmem | hle
        · exact .inr ⟨k, by rw [Ty.mentions]; exact List.mem_append_right _ hmem⟩
        · exact .inl hle
      refine (ih side id kind body' hsettled.sound (Nat.lt_of_lt_of_le hid hsettled.types)
        (hkind.mono hsettled.kinds) (hgrows.finalType hfinal) hproper ?_).mono fun _ s₂ hs₂ => ?_
      · intro other k hmem
        rcases hmentioned other k hmem with hle | ⟨k', hmem⟩
        · exact ⟨by omega, hgrows.finalType (hpushed.sound.type_final hle)⟩
        · obtain ⟨-, hne, hother⟩ := hmentions' other k' hmem
          exact ⟨hne, hgrows.finalType hother⟩
      · refine hsettled.evolves.trans hs₂ fun other hother _ hspared htouched => ?_
        rcases htouched with rfl | ⟨k, hk⟩
        · exact hspared (.inl rfl)
        · rcases hmentioned other k hk with hle | hmem
          · omega
          · exact hspared (.inr hmem)
    | apply head args applied =>
      obtain ⟨hhead, -, hargs, happlied⟩ := Ty.proper_apply.1 htype
      rw [instantiateTypeWithin]
      dsimp only
      cases hfunction : (Ty.apply head args applied).function? with
      | some function =>
        obtain ⟨params, result⟩ := function
        obtain rfl := function?_eq_some hfunction
        have hparams : ∀ param ∈ params, param.Proper s.nextKind s.nextType := fun param hparam =>
          hargs param (List.mem_append_left _ hparam)
        refine Ends.bind ((freshVariables_ends params hs hparams).mono ?_)
        rintro holes s₁ ⟨hgrows₁, hlength, hholes, hdistinct⟩
        refine Ends.bind ((freshVariable_ends hgrows₁.sound (Kind.proper_type _)).mono ?_)
        rintro _ s₂ ⟨hgrows₂, rfl, hnext⟩
        have hgrows := hgrows₁.trans hgrows₂
        have htypesLe := hgrows₁.types
        have hall : ∀ hole ∈ holes ++ [(s₁.nextType, Kind.type)], s.nextType ≤ hole.1 ∧
            hole.1 < s₂.nextType ∧ hole.2.Proper s₂.nextKind := by
          intro hole hhole
          rcases List.mem_append.1 hhole with hhole | hhole
          · obtain ⟨hle, hlt, hproper⟩ := hholes hole hhole
            exact ⟨hle, by omega, hproper.mono hgrows₂.kinds⟩
          · obtain rfl := List.mem_singleton.1 hhole
            exact ⟨htypesLe, by dsimp only; omega, Kind.proper_type _⟩
        have hdistinctAll : (holes ++ [(s₁.nextType, Kind.type)]).Pairwise
            fun hole hole' => hole.1 ≠ hole'.1 := by
          refine List.pairwise_append.2 ⟨hdistinct, List.pairwise_singleton _ _, ?_⟩
          intro hole hhole hole' hhole'
          obtain rfl := List.mem_singleton.1 hhole'
          obtain ⟨-, hlt, -⟩ := hholes hole hhole
          dsimp only
          omega
        have hbuiltIn : (Ty.builtIn (.function holes.length)).Proper s.nextKind s.nextType := by
          rw [Ty.Proper]
          trivial
        obtain ⟨hsound, hready, hdone⟩ := solveApply_ready hs hgrows hid hkind hfinal htype
          hmentions hbuiltIn (Kind.proper_type _) (by simp [Ty.mentions]) (by simp [hlength]) hall
          hdistinctAll
        rw [List.zip_append hlength] at hready hdone
        have hwhole : Ty.function (holes.map fun hole => .unsolved hole.1 hole.2)
            (.unsolved s₁.nextType .type) = .apply (.builtIn (.function holes.length))
              ((holes ++ [(s₁.nextType, Kind.type)]).map fun hole => .unsolved hole.1 hole.2)
              .type := by simp [Ty.function]
        refine Ends.bind (Ends.modify ?_)
        rw [hwhole]
        refine Ends.bind ((parts_ends (ih side.flip) _ hsound hready.left).mono fun _ s₃ hs₃ => ?_)
        refine (parts_ends (ih side) _ hs₃.sound (hready.after hs₃)).mono fun _ s₄ hs₄ => ?_
        exact hdone s₄ (evolves_append hs₃ hs₄)
      | none =>
        refine Ends.bind ((freshVariables_ends args hs hargs).mono ?_)
        rintro holes s₁ ⟨hgrows, hlength, hholes, hdistinct⟩
        obtain ⟨hsound, hready, hdone⟩ := solveApply_ready hs hgrows hid hkind hfinal htype
          hmentions hhead happlied (fun _ _ h => h) hlength hholes hdistinct
        refine Ends.bind (Ends.modify ?_)
        exact (parts_ends (ih side) _ hsound hready).mono fun _ s₂ hs₂ => hdone s₂ hs₂

/-! ## Checks -/

/-- One store comes from another by any steps. -/
def Advances : Store → Store → Prop := Evolves fun _ => True

theorem advances_trans (h : Advances s s') (h' : Advances s' s'') : Advances s s'' :=
  Evolves.trans h h' fun _ _ _ hnot => hnot

/-- A check that keeps solutions acyclic, from any sound store. -/
def TypeCheck (check : Ty → Ty → Solve Bool) : Prop :=
  ∀ {s : Store} (a b : Ty), s.Sound → a.Proper s.nextKind s.nextType →
    b.Proper s.nextKind s.nextType → Ends (check a b) s fun _ s' => Advances s s'

theorem TypeCheck.allM {check : Ty → Ty → Solve Bool} (hcheck : TypeCheck check) (side : Side)
    {pairs : List (Ty × Ty)} (hs : s.Sound) (hpairs : ∀ pair ∈ pairs,
      pair.1.Proper s.nextKind s.nextType ∧ pair.2.Proper s.nextKind s.nextType) :
    Ends (pairs.allM fun (a, b) => side.relate check a b) s fun _ s' => Advances s s' := by
  refine Ends.allM (fun s' => Advances s s') ?_ hs.refl.evolves
  intro pair hpair s' hs'
  have hleft := (hpairs pair hpair).1.mono hs'.kinds hs'.types
  have hright := (hpairs pair hpair).2.mono hs'.kinds hs'.types
  refine Ends.mono ?_ fun _ _ hs'' => advances_trans hs' hs''
  cases side with
  | sub => exact hcheck _ _ hs'.sound hleft hright
  | sup => exact hcheck _ _ hs'.sound hright hleft

/-- A quantified type is checked without its binders in a frame of its own. -/
theorem checkQuantified_ends {side : Side} {binders : List Ty} {body : Ty} {kind : Kind}
    {next : Ty → Solve Bool} (hs : s.Sound)
    (htype : (Ty.quantified binders body kind).Proper s.nextKind s.nextType)
    (hnext : ∀ type s', Advances s s' → type.Proper s'.nextKind s'.nextType →
      Ends (next type) s' fun _ s'' => Advances s' s'') :
    Ends (withScope .checkSubType do next (← instantiateBinders side binders body)) s
      fun _ s' => Advances s s' := by
  refine withScope_ends ?_
  have hpushed := hs.withStack (s.stack.push (Frame.empty .checkSubType))
  refine Ends.bind ((instantiateBinders_ends side hpushed.sound htype).mono ?_)
  rintro type s₁ ⟨hgrows, hproper, -⟩
  have hs₁ : Advances s s₁ := (hpushed.trans hgrows.settles).evolves
  exact (hnext type s₁ hs₁ hproper).mono fun _ s₂ hs₂ => advances_trans hs₁ hs₂

/-- A variable is solved by a type of its kind that does not mention it. -/
theorem checkUnsolved_ends (side : Side) {fuel id : Nat} {kind : Kind} {type : Ty}
    {checkKinds : Solve Bool} (hs : s.Sound)
    (hvariable : (Ty.unsolved id kind).Proper s.nextKind s.nextType)
    (hfinal : Ty.IsFinal s.types id) (htype : type.Proper s.nextKind s.nextType)
    (hmentions : ∀ other k, (other, k) ∈ type.mentions → Ty.IsFinal s.types other)
    (hkinds : Ends checkKinds s fun _ s' => Settles s s') :
    Ends (if type.occurs id then pure false
      else do
        if ← checkKinds then
          instantiateTypeWithin fuel side (id, kind) type
          pure true
        else pure false) s fun _ s' => Advances s s' := by
  obtain ⟨hid, hkind⟩ := Ty.proper_unsolved.1 hvariable
  split
  · exact Ends.pure hs.refl.evolves
  · rename_i hoccurs
    refine Ends.bind (hkinds.mono fun matched s₁ hs₁ => ?_)
    cases matched with
    | false => exact Ends.pure hs₁.evolves
    | true =>
      have hs₁' : ∀ {other}, other < s.nextType → Ty.IsFinal s.types other →
          Ty.IsFinal s₁.types other := fun hlt hother => hs₁.final hlt (fun hfalse => hfalse) hother
      refine Ends.bind ((instantiateTypeWithin_ends fuel side id kind type hs₁.sound
        (Nat.lt_of_lt_of_le hid hs₁.types) (hkind.mono hs₁.kinds) (hs₁' hid hfinal)
        (htype.mono hs₁.kinds hs₁.types) ?_).mono fun _ s₂ hs₂ => Ends.pure ?_)
      · intro other k hmem
        refine ⟨?_, hs₁' (htype.lt hmem).1 (hmentions other k hmem)⟩
        rintro rfl
        exact hoccurs (htype.namedBinders.occurs_iff.2 ⟨k, hmem⟩)
      · exact hs₁.evolves.trans hs₂ fun _ _ _ hnot => (hnot trivial).elim

theorem final_of_mentions {id : Nat} {kind : Kind}
    (h : ∀ other k, (other, k) ∈ (Ty.unsolved id kind).mentions → Ty.IsFinal s.types other) :
    Ty.IsFinal s.types id :=
  h id kind (by simp [Ty.mentions])

/-- Applications are compared part by part. -/
theorem checkApply_ends {check : Ty → Ty → Solve Bool} (hcheck : TypeCheck check)
    {head head' : Ty} {args args' : List Ty} {kind kind' : Kind} (hs : s.Sound)
    (hsub : (Ty.apply head args kind).Proper s.nextKind s.nextType)
    (hsup : (Ty.apply head' args' kind').Proper s.nextKind s.nextType) :
    Ends (if args.length = args'.length then
        match (Ty.apply head args kind).function?, (Ty.apply head' args' kind').function? with
        | some (params, result), some (params', result') => do
          let matched ← (params.zip params').allM fun (param, param') => check param' param
          if matched then check result result' else pure false
        | _, _ => do
          if ← check head head' then
            (args.zip args').allM fun (arg, arg') => check arg arg'
          else pure false
      else pure false) s fun _ s' => Advances s s' := by
  obtain ⟨hhead, -, hargs, -⟩ := Ty.proper_apply.1 hsub
  obtain ⟨hhead', -, hargs', -⟩ := Ty.proper_apply.1 hsup
  split
  · split
    · rename_i params result params' result' hfunction hfunction'
      obtain rfl := function?_eq_some hfunction
      obtain rfl := function?_eq_some hfunction'
      have hpairs : ∀ pair ∈ params.zip params', pair.1.Proper s.nextKind s.nextType ∧
          pair.2.Proper s.nextKind s.nextType := by
        intro pair hpair
        obtain ⟨hleft, hright⟩ := List.of_mem_zip hpair
        exact ⟨hargs _ (List.mem_append_left _ hleft), hargs' _ (List.mem_append_left _ hright)⟩
      refine Ends.bind ((hcheck.allM .sup hs hpairs).mono fun matched s₁ hs₁ => ?_)
      cases matched with
      | false => exact Ends.pure hs₁
      | true =>
        refine (hcheck result result' hs₁.sound ?_ ?_).mono fun _ s₂ hs₂ => advances_trans hs₁ hs₂
        · exact (hargs result (by simp)).mono hs₁.kinds hs₁.types
        · exact (hargs' result' (by simp)).mono hs₁.kinds hs₁.types
    · refine Ends.bind ((hcheck head head' hs hhead hhead').mono fun matched s₁ hs₁ => ?_)
      cases matched with
      | false => exact Ends.pure hs₁
      | true =>
        refine (hcheck.allM .sub hs₁.sound ?_).mono fun _ s₂ hs₂ => advances_trans hs₁ hs₂
        intro pair hpair
        obtain ⟨hleft, hright⟩ := List.of_mem_zip hpair
        exact ⟨(hargs _ hleft).mono hs₁.kinds hs₁.types, (hargs' _ hright).mono hs₁.kinds hs₁.types⟩
  · exact Ends.pure hs.refl.evolves

/-- The check to any depth keeps solutions acyclic. -/
theorem checkSubTypeWithin_ends (fuel : Nat) : TypeCheck (checkSubTypeWithin fuel) := by
  induction fuel with
  | zero =>
    intro s sub sup hs _ _
    exact Ends.pure hs.refl.evolves
  | succ fuel ih =>
    intro s sub sup hs hsub hsup
    refine Ends.bind (Ends.bind (Ends.get (Ends.pure ?_)))
    refine Ends.bind (Ends.bind (Ends.get (Ends.pure ?_)))
    have hsub' : (s.substituteType sub).Proper s.nextKind s.nextType :=
      hs.types.substitute_proper hs.kinds hsub
    have hsup' : (s.substituteType sup).Proper s.nextKind s.nextType :=
      hs.types.substitute_proper hs.kinds hsup
    have hsubFinal : ∀ id k, (id, k) ∈ (s.substituteType sub).mentions →
        Ty.IsFinal s.types id := fun id k hid => Ty.final_of_mem_substitute hs.types hid
    have hsupFinal : ∀ id k, (id, k) ∈ (s.substituteType sup).mentions →
        Ty.IsFinal s.types id := fun id k hid => Ty.final_of_mem_substitute hs.types hid
    generalize s.substituteType sub = sub at hsub' hsubFinal ⊢
    generalize s.substituteType sup = sup at hsup' hsupFinal ⊢
    split
    · exact checkQuantified_ends hs hsup' fun type s₁ hs₁ htype =>
        ih _ type hs₁.sound (hsub'.mono hs₁.kinds hs₁.types) htype
    · exact checkQuantified_ends hs hsub' fun type s₁ hs₁ htype =>
        ih type _ hs₁.sound htype (hsup'.mono hs₁.kinds hs₁.types)
    · split
      · exact Ends.pure hs.refl.evolves
      · exact checkUnsolved_ends .sub hs hsub' (final_of_mentions hsubFinal) hsup' hsupFinal
          (checkSubKind_ends hs hsub'.kind hsup'.kind)
    · exact checkUnsolved_ends .sup hs hsup' (final_of_mentions hsupFinal) hsub' hsubFinal
        (checkSubKind_ends hs hsub'.kind hsup'.kind)
    · exact Ends.pure hs.refl.evolves
    · exact Ends.pure hs.refl.evolves
    · exact Ends.pure hs.refl.evolves
    · exact checkApply_ends ih hs hsub' hsup'
    · exact Ends.pure hs.refl.evolves

theorem checkSubType_ends {sub sup : Ty} (hs : s.Sound)
    (hsub : sub.Proper s.nextKind s.nextType) (hsup : sup.Proper s.nextKind s.nextType) :
    Ends (checkSubType sub sup) s fun _ s' => Advances s s' := by
  refine Ends.bind (Ends.bind (Ends.get (Ends.pure ?_)))
  exact checkSubTypeWithin_ends _ sub sup hs hsub hsup

end Solve

end PolyFront
