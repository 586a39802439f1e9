import PolyFront.Proofs.Solutions.Kinds
import PolyFront.Proofs.Solutions.TypeTerms

/-!
# Solutions of types

The theory of acyclic solutions for types.  Their substitution also substitutes the kinds that
they carry.  A step that solves variables can be said to spare another variable: that one still
stands for itself, and nothing leads to it that did not lead to it before.  Sparing is what
lets the parts of a type be solved one after the other without looking for cycles again.
-/

namespace PolyFront

namespace Ty

def unknown? : Ty → Option Nat
  | .unsolved id _ => some id
  | _ => none

/-- A variable that stands for itself. -/
def IsFinal (types : Partition Ty) (id : Nat) : Prop := types.Final (.unsolved id .type)

/-- The variable `inner` stands in the solution of `outer`. -/
def Within (types : Partition Ty) (inner outer : Nat) : Prop :=
  ¬IsFinal types outer ∧ ∃ kind, (inner, kind) ∈ (types.find (.unsolved outer .type)).mentions

/-- Sound solutions of which none is reached from itself. -/
structure Acyclic (kindsCreated typesCreated : Nat) (types : Partition Ty) : Prop where
  sound : types.Sound shape (Proper kindsCreated typesCreated)
  wellFounded : WellFounded (Within types)

variable {kindsCreated typesCreated : Nat} {kinds : Partition Kind} {types : Partition Ty}

theorem classOf?_unsolved (types : Partition Ty) (id : Nat) (kind kind' : Kind) :
    types.classOf? (.unsolved id kind) = types.classOf? (.unsolved id kind') :=
  Partition.classOf?_congr (unsolved_beq.2 rfl)

theorem find_unsolved_beq (types : Partition Ty) (id : Nat) (kind kind' : Kind) :
    (types.find (.unsolved id kind) == types.find (.unsolved id kind')) = true := by
  have hclass := classOf?_unsolved types id kind kind'
  cases h : types.classOf? (.unsolved id kind') with
  | some c =>
    rw [h] at hclass
    rw [Partition.find_of_classOf? hclass, Partition.find_of_classOf? h]
    exact BEq.refl _
  | none =>
    rw [h] at hclass
    rw [Partition.find_of_absent hclass, Partition.find_of_absent h]
    exact unsolved_beq.2 rfl

/-- A solved variable has the same solution whatever its kind is. -/
theorem find_unsolved_of_solved {id : Nat} {kind : Kind} (kind' : Kind)
    (h : shape.unknown (types.find (.unsolved id kind)) = false) :
    types.find (.unsolved id kind') = types.find (.unsolved id kind) := by
  have hclass := classOf?_unsolved types id kind' kind
  cases hold : types.classOf? (.unsolved id kind) with
  | some c =>
    rw [hold] at hclass
    rw [Partition.find_of_classOf? hclass, Partition.find_of_classOf? hold]
  | none =>
    rw [Partition.find_of_absent hold] at h
    cases h

theorem final_unsolved {id : Nat} {kind : Kind} :
    types.Final (.unsolved id kind) ↔ IsFinal types id := by
  have hfind := find_unsolved_beq types id kind .type
  have hself : (Ty.unsolved id kind == Ty.unsolved id .type) = true := unsolved_beq.2 rfl
  constructor
  · intro h
    exact BEq.trans (BEq.symm hfind) (BEq.trans h hself)
  · intro h
    exact BEq.trans hfind (BEq.trans h (BEq.symm hself))

theorem within_of_mem {inner outer : Nat} {innerKind kind : Kind}
    (hsolved : shape.unknown (types.find (.unsolved outer kind)) = false)
    (h : (inner, innerKind) ∈ (types.find (.unsolved outer kind)).mentions) :
    Within types inner outer := by
  refine ⟨fun hfinal => ?_, innerKind, ?_⟩
  · rw [IsFinal, Partition.Final, find_unsolved_of_solved .type hsolved] at hfinal
    rw [shape.unknown_congr hfinal] at hsolved
    cases hsolved
  · rw [find_unsolved_of_solved .type hsolved]
    exact h

/-! ## Substitution -/

/-- The substitution of a variable, given its solution. -/
def resolved (types : Partition Ty) (kinds : Partition Kind) : Ty → Ty
  | .unsolved id kind => .unsolved id (kind.substitute kinds)
  | solution => solution.substitute types kinds

theorem resolved_of_solved {type : Ty} (h : shape.unknown type = false) :
    resolved types kinds type = type.substitute types kinds := by
  cases type with
  | unsolved id kind => cases h
  | _ => rfl

theorem expand_eq (h : WellFounded (Within types)) (id : Nat) :
    ∀ (kind : Kind) (fuel : Nat) (seen : List Nat), seen.Nodup →
    (∀ s ∈ seen, (∃ c, types.classOf? (.unsolved s .type) = some c) ∧
      Relation.TransGen (Within types) id s) →
    types.size ≤ fuel + seen.length →
    expand types kinds fuel seen id kind = resolved types kinds
        (types.find (.unsolved id kind)) := by
  induction id using h.induction with
  | h id ih =>
    intro kind fuel seen hnodup hseen hsize
    have hid : id ∉ seen := fun hmem => WellFounded.not_transGen h id (hseen id hmem).2
    cases fuel with
    | zero =>
      have habsent : types.classOf? (.unsolved id .type) = none := by
        refine Partition.absent_of_size_le (fun id => .unsolved id .type) unknown? ?_ hnodup hid
          (fun s hs => (hseen s hs).1) (by omega)
        intro other type heq
        have hunknown : shape.unknown type = true := by
          rw [← shape.unknown_congr heq]
          rfl
        obtain ⟨id, kind, rfl⟩ := unknown_iff.1 hunknown
        rw [unsolved_beq.1 heq, unknown?]
      rw [classOf?_unsolved types id .type kind] at habsent
      rw [expand, Partition.find_of_absent habsent]
      rfl
    | succ fuel =>
      rw [expand, if_neg hid]
      cases hsolved : shape.unknown (types.find (.unsolved id kind)) with
      | true =>
        obtain ⟨other, otherKind, hother⟩ := unknown_iff.1 hsolved
        rw [hother]
        rfl
      | false =>
        have hpresent : ∃ c, types.classOf? (.unsolved id .type) = some c := by
          rw [classOf?_unsolved types id .type kind]
          cases hclass : types.classOf? (.unsolved id kind) with
          | none =>
            rw [Partition.find_of_absent hclass] at hsolved
            cases hsolved
          | some c => exact ⟨c, rfl⟩
        have hbind : (types.find (.unsolved id kind)).bind (expand types kinds fuel (id :: seen))
            (Kind.substitute kinds) = (types.find (.unsolved id kind)).substitute types kinds := by
          refine bind_congr (fun inner innerKind hinner => ?_) fun _ _ => rfl
          have hwithin : Within types inner id := within_of_mem hsolved hinner
          rw [ih inner hwithin innerKind fuel (id :: seen),
            ih inner hwithin innerKind types.size []]
          · exact List.nodup_nil
          · intro s hs
            exact (List.not_mem_nil hs).elim
          · exact Nat.le_refl _
          · exact List.nodup_cons.2 ⟨hid, hnodup⟩
          · intro s hs
            rcases List.mem_cons.1 hs with rfl | hs
            · exact ⟨hpresent, .single hwithin⟩
            · exact ⟨(hseen s hs).1, .trans (.single hwithin) (hseen s hs).2⟩
          · rw [List.length_cons]
            omega
        rw [resolved_of_solved hsolved, ← hbind]
        cases hfind : types.find (.unsolved id kind) with
        | unsolved other otherKind =>
          rw [hfind] at hsolved
          cases hsolved
        | _ => rfl

/-- The substitution of a variable is that of its solution. -/
theorem substitute_unsolved (h : WellFounded (Within types)) (id : Nat) (kind : Kind) :
    substitute types kinds (.unsolved id kind) =
      resolved types kinds (types.find (.unsolved id kind)) := by
  rw [substitute, bind_unsolved]
  refine expand_eq h id kind types.size [] List.nodup_nil ?_ (Nat.le_refl _)
  intro s hs
  exact (List.not_mem_nil hs).elim

theorem mem_mentions_substitute {type : Ty} {v : Nat × Kind} :
    v ∈ (type.substitute types kinds).mentions ↔ ∃ id kind, (id, kind) ∈ type.mentions ∧
      v ∈ (substitute types kinds (.unsolved id kind)).mentions := by
  rw [substitute, mem_mentions_bind]
  simp only [substitute, bind_unsolved]

/-- What a substituted type mentions represents a class of variables. -/
theorem exists_find_of_mem_substitute (h : WellFounded (Within types)) {type : Ty} {id : Nat}
    {kind : Kind} (hmem : (id, kind) ∈ (type.substitute types kinds).mentions) :
    ∃ other otherKind finalKind, types.find (.unsolved other otherKind) = .unsolved id finalKind ∧
      kind = finalKind.substitute kinds := by
  obtain ⟨other, otherKind, -, hmem⟩ := mem_mentions_substitute.1 hmem
  induction other using h.induction generalizing otherKind with
  | h other ih =>
    rw [substitute_unsolved h] at hmem
    cases hunknown : shape.unknown (types.find (.unsolved other otherKind)) with
    | true =>
      obtain ⟨final, finalKind, hfinal⟩ := unknown_iff.1 hunknown
      rw [hfinal] at hmem
      obtain ⟨rfl, hkind⟩ : id = final ∧ kind = finalKind.substitute kinds := by
        simpa [resolved, mentions] using hmem
      exact ⟨other, otherKind, finalKind, hfinal, hkind⟩
    | false =>
      rw [resolved_of_solved hunknown] at hmem
      obtain ⟨inner, innerKind, hinner, hmem⟩ := mem_mentions_substitute.1 hmem
      exact ih inner (within_of_mem hunknown hinner) innerKind hmem

/-- A substituted type mentions only variables that stand for themselves. -/
theorem final_of_mem_substitute (h : Acyclic kindsCreated typesCreated types) {type : Ty}
    {id : Nat} {kind : Kind} (hmem : (id, kind) ∈ (type.substitute types kinds).mentions) :
    IsFinal types id := by
  obtain ⟨other, otherKind, finalKind, hfind, -⟩ := exists_find_of_mem_substitute h.wellFounded hmem
  have hunknown : shape.unknown (types.find (.unsolved other otherKind)) = true := by
    rw [hfind]
    rfl
  have hself := h.sound.final_find hunknown
  rw [hfind] at hself
  exact final_unsolved.1 hself

theorem kind_of_mem_substitute (hkinds : WellFounded (Kind.Within kinds))
    (h : WellFounded (Within types)) {type : Ty} {id : Nat} {kind : Kind}
    (hmem : (id, kind) ∈ (type.substitute types kinds).mentions) :
    kind.substitute kinds = kind := by
  obtain ⟨other, otherKind, finalKind, -, rfl⟩ := exists_find_of_mem_substitute h hmem
  exact Kind.substitute_substitute hkinds finalKind

/-- What a substituted type mentions is its own substitution. -/
theorem substitute_of_mem (hkinds : WellFounded (Kind.Within kinds))
    (h : Acyclic kindsCreated typesCreated types) {type : Ty} {id : Nat} {kind : Kind}
    (hmem : (id, kind) ∈ (type.substitute types kinds).mentions) :
    substitute types kinds (.unsolved id kind) = .unsolved id kind := by
  have hkind := kind_of_mem_substitute hkinds h.wellFounded hmem
  obtain ⟨other, otherKind, finalKind, hfind, heq⟩ :=
    exists_find_of_mem_substitute h.wellFounded hmem
  have hunknown : shape.unknown (types.find (.unsolved other otherKind)) = true := by
    rw [hfind]
    rfl
  have hself := h.sound.find_find hunknown
  rw [hfind] at hself
  rw [substitute_unsolved h.wellFounded]
  have hclass := classOf?_unsolved types id kind finalKind
  cases hold : types.classOf? (.unsolved id finalKind) with
  | some c =>
    rw [hold] at hclass
    rw [Partition.find_of_classOf? hold] at hself
    rw [Partition.find_of_classOf? hclass, hself, resolved, heq]
  | none =>
    rw [hold] at hclass
    rw [Partition.find_of_absent hclass, resolved, hkind]

/-- A substituted type carries only substituted kinds. -/
theorem substitute_of_mem_carried (hkinds : WellFounded (Kind.Within kinds))
    (h : WellFounded (Within types)) {type : Ty} {kind : Kind}
    (hmem : kind ∈ (type.substitute types kinds).carried) : kind.substitute kinds = kind := by
  rcases mem_carried_bind hmem with ⟨old, -, rfl⟩ | ⟨other, otherKind, -, hmem⟩
  · exact Kind.substitute_substitute hkinds old
  · have hcarried : kind ∈ (substitute types kinds (.unsolved other otherKind)).carried := by
      rw [substitute, bind_unsolved]
      exact hmem
    clear hmem
    induction other using h.induction generalizing otherKind with
    | h other ih =>
      rw [substitute_unsolved h] at hcarried
      cases hunknown : shape.unknown (types.find (.unsolved other otherKind)) with
      | true =>
        obtain ⟨final, finalKind, hfinal⟩ := unknown_iff.1 hunknown
        rw [hfinal] at hcarried
        simp [resolved, carried] at hcarried
      | false =>
        rw [resolved_of_solved hunknown] at hcarried
        rcases mem_carried_bind hcarried with ⟨old, -, rfl⟩ | ⟨inner, innerKind, hinner, hmem⟩
        · exact Kind.substitute_substitute hkinds old
        · refine ih inner (within_of_mem hunknown hinner) innerKind ?_
          rw [substitute, bind_unsolved]
          exact hmem

/-- Substituting a second time changes nothing. -/
theorem substitute_substitute (hkinds : WellFounded (Kind.Within kinds))
    (h : Acyclic kindsCreated typesCreated types) (type : Ty) :
    (type.substitute types kinds).substitute types kinds = type.substitute types kinds := by
  refine bind_self (fun id kind hmem => ?_) fun kind hmem =>
    substitute_of_mem_carried hkinds h.wellFounded hmem
  have hself := substitute_of_mem hkinds h hmem
  rw [substitute, bind_unsolved] at hself
  exact hself

theorem Acyclic.substitute_proper (hkinds : Kind.Acyclic kindsCreated kinds)
    (h : Acyclic kindsCreated typesCreated types) {type : Ty}
    (htype : type.Proper kindsCreated typesCreated) :
    (type.substitute types kinds).Proper kindsCreated typesCreated := by
  have hvariable : ∀ id kind, id < typesCreated → kind.Proper kindsCreated →
      (substitute types kinds (.unsolved id kind)).Proper kindsCreated typesCreated := by
    intro id
    induction id using h.wellFounded.induction with
    | h id ih =>
      intro kind hid hkind
      rw [substitute_unsolved h.wellFounded]
      have hfind := h.sound.find_good (proper_unsolved.2 ⟨hid, hkind⟩)
      cases hunknown : shape.unknown (types.find (.unsolved id kind)) with
      | true =>
        obtain ⟨final, finalKind, hfinal⟩ := unknown_iff.1 hunknown
        rw [hfinal] at hfind ⊢
        obtain ⟨hlt, hproper⟩ := proper_unsolved.1 hfind
        exact proper_unsolved.2 ⟨hlt, hkinds.substitute_proper hproper⟩
      | false =>
        rw [resolved_of_solved hunknown]
        refine hfind.bind (fun inner innerKind hinner => ?_) fun _ => hkinds.substitute_proper
        obtain ⟨hlt, hproper⟩ := hfind.lt hinner
        have hinner := ih inner (within_of_mem hunknown hinner) innerKind hlt hproper
        rwa [substitute, bind_unsolved] at hinner
  refine htype.bind (fun id kind hmem => ?_) fun _ => hkinds.substitute_proper
  obtain ⟨hlt, hproper⟩ := htype.lt hmem
  have hsubstitute := hvariable id kind hlt hproper
  rwa [substitute, bind_unsolved] at hsubstitute

/-! ## Changing the solutions -/

/-- A chain of solutions leads from one variable to another. -/
inductive Reaches (types : Partition Ty) : Nat → Nat → Prop where
  | refl (id : Nat) : Reaches types id id
  | step {outer inner id : Nat} (h : Within types inner outer) (hrest : Reaches types inner id) :
    Reaches types outer id

theorem Reaches.trans {outer middle inner : Nat} (h : Reaches types outer middle)
    (h' : Reaches types middle inner) : Reaches types outer inner := by
  induction h with
  | refl => exact h'
  | step hwithin _ ih => exact .step hwithin (ih h')

theorem Reaches.eq_of_final {outer inner : Nat} (h : Reaches types outer inner)
    (hfinal : IsFinal types outer) : outer = inner := by
  cases h with
  | refl => rfl
  | step hwithin _ => exact (hwithin.1 hfinal).elim

/-- A substitution mentions only what is reached. -/
theorem reaches_of_mem_substitute (h : WellFounded (Within types)) {type : Ty} {id : Nat}
    {kind : Kind} (hmem : (id, kind) ∈ (type.substitute types kinds).mentions) :
    ∃ other otherKind, (other, otherKind) ∈ type.mentions ∧ Reaches types other id := by
  obtain ⟨other, otherKind, hother, hmem⟩ := mem_mentions_substitute.1 hmem
  refine ⟨other, otherKind, hother, ?_⟩
  clear hother
  induction other using h.induction generalizing otherKind with
  | h other ih =>
    rw [substitute_unsolved h] at hmem
    cases hunknown : shape.unknown (types.find (.unsolved other otherKind)) with
    | true =>
      obtain ⟨final, finalKind, hfinal⟩ := unknown_iff.1 hunknown
      rw [hfinal] at hmem
      obtain ⟨rfl, -⟩ : id = final ∧ kind = finalKind.substitute kinds := by
        simpa [resolved, mentions] using hmem
      by_cases hself : IsFinal types other
      · have heq : types.Final (.unsolved other otherKind) := final_unsolved.2 hself
        rw [Partition.Final, hfinal] at heq
        rw [unsolved_beq.1 heq]
        exact .refl _
      · refine .step ⟨hself, ?_⟩ (.refl _)
        rw [mem_mentions_of_beq (find_unsolved_beq types other .type otherKind), hfinal]
        exact ⟨finalKind, by simp [mentions]⟩
    | false =>
      rw [resolved_of_solved hunknown] at hmem
      obtain ⟨inner, innerKind, hinner, hmem⟩ := mem_mentions_substitute.1 hmem
      have hwithin := within_of_mem hunknown hinner
      exact .step hwithin (ih inner hwithin innerKind hmem)

/-- A change of solutions spares a variable: if it stood for itself it still does, and nothing
leads to it that did not before. -/
def Spares (id : Nat) (before after : Partition Ty) : Prop :=
  IsFinal before id → IsFinal after id ∧ ∀ other, Reaches after other id → Reaches before other id

theorem Spares.refl (id : Nat) (types : Partition Ty) : Spares id types types :=
  fun h => ⟨h, fun _ hreaches => hreaches⟩

theorem Spares.trans {id : Nat} {before middle after : Partition Ty}
    (h : Spares id before middle) (h' : Spares id middle after) : Spares id before after := by
  intro hfinal
  obtain ⟨hmiddle, hback⟩ := h hfinal
  obtain ⟨hafter, hback'⟩ := h' hmiddle
  exact ⟨hafter, fun other hreaches => hback other (hback' other hreaches)⟩

/-- A change spares a variable when all that is new in solutions is another variable that stands
for itself. -/
theorem spares_of_within {id : Nat} {before after : Partition Ty}
    (hfinal : IsFinal before id → IsFinal after id)
    (h : IsFinal before id → ∀ inner outer, Within after inner outer →
      Reaches before outer inner ∨ IsFinal after inner ∧ inner ≠ id) :
    Spares id before after := by
  intro hid
  refine ⟨hfinal hid, fun other hreaches => ?_⟩
  induction hreaches with
  | refl => exact .refl _
  | step hwithin hrest ih =>
    rcases h hid _ _ hwithin with hold | ⟨hinner, hne⟩
    · exact hold.trans (ih hfinal h hid)
    · exact (hne (hrest.eq_of_final hinner)).elim

theorem within_of_find_beq {types' : Partition Ty} {inner outer : Nat}
    (heq : (types'.find (.unsolved outer .type) == types.find (.unsolved outer .type)) = true)
    (h : Within types' inner outer) : Within types inner outer := by
  obtain ⟨hsolved, hmentions⟩ := h
  refine ⟨fun hfinal => hsolved (BEq.trans heq hfinal), ?_⟩
  exact (mem_mentions_of_beq heq).1 hmentions

/-- Nothing stands in the solution of a variable that stands for itself. -/
theorem not_within_of_final {inner outer : Nat} (h : IsFinal types outer) :
    ¬Within types inner outer :=
  fun hwithin => hwithin.1 h

theorem Acyclic.empty : Acyclic kindsCreated typesCreated Partition.empty where
  sound := .empty
  wellFounded := by
    refine ⟨fun v => Acc.intro v fun w hw => (hw.1 ?_).elim⟩
    exact BEq.refl _

theorem Acyclic.mono {kindsCreated' typesCreated' : Nat}
    (h : Acyclic kindsCreated typesCreated types) (hkinds : kindsCreated ≤ kindsCreated')
    (htypes : typesCreated ≤ typesCreated') : Acyclic kindsCreated' typesCreated' types :=
  ⟨h.sound.mono fun _ htype => htype.mono hkinds htypes, h.wellFounded⟩

theorem Acyclic.add (h : Acyclic kindsCreated typesCreated types) {type : Ty}
    (htype : type.Proper kindsCreated typesCreated) :
    Acyclic kindsCreated typesCreated (types.add type) := by
  refine ⟨h.sound.add htype, wellFounded_of_minimal h.wellFounded fun w v hwithin => .inl ?_⟩
  exact within_of_find_beq (Partition.find_add_beq types type _) hwithin

/-- What a variable can be unified with: a leaf, another variable that stands for itself, or a
new type that mentions other such variables only. -/
inductive Solution (types : Partition Ty) (id : Nat) : Ty → Prop where
  | leaf {type : Ty} (hleaf : shape.leaf type = true) : Solution types id type
  | unknown {other : Nat} (kind : Kind) (hne : other ≠ id) (hfinal : IsFinal types other) :
    Solution types id (.unsolved other kind)
  | compound {type : Ty} (hcompound : shape.unknown type = false)
    (hnew : types.classOf? type = none)
    (hfinal : ∀ other kind, (other, kind) ∈ type.mentions → other ≠ id ∧ IsFinal types other) :
    Solution types id type

theorem mentions_of_leaf {type : Ty} (h : shape.leaf type = true) : type.mentions = [] := by
  cases type <;> first | (simp [mentions]; done) | cases h

/-- The changes that a solution makes. -/
theorem Solution.merges (h : Acyclic kindsCreated typesCreated types) {id : Nat} {kind : Kind}
    {type : Ty} {pick : Ty → Ty → Ty} (hpick : shape.Picks pick)
    (hid : id < typesCreated) (hkind : kind.Proper kindsCreated) (hfinal : IsFinal types id)
    (htype : type.Proper kindsCreated typesCreated) (hsolution : Solution types id type) :
    ∃ loser winner, Partition.Merges shape types (types.union (.unsolved id kind) type pick)
        loser winner ∧
      ((loser == .unsolved id kind) = true ∨ loser = type ∧ shape.unknown type = true) ∧
      ∀ w k, (w, k) ∈ winner.mentions →
        IsFinal (types.union (.unsolved id kind) type pick) w ∧
          (w = id ∨ ∃ k', (w, k') ∈ type.mentions) := by
  have hproper : Proper kindsCreated typesCreated (.unsolved id kind) :=
    proper_unsolved.2 ⟨hid, hkind⟩
  have hne : (Ty.unsolved id kind == type) = false := by
    rw [← Bool.not_eq_true]
    intro heq
    cases hsolution with
    | leaf hleaf =>
      rw [← shape.leaf_congr heq] at hleaf
      cases hleaf
    | unknown kind hne _ => exact hne (unsolved_beq.1 heq).symm
    | compound hcompound _ _ =>
      rw [← shape.unknown_congr heq] at hcompound
      cases hcompound
  have hcase : types.classOf? type = none ∨ shape.leaf type = true ∨
      shape.unknown type = true ∧ types.Final type := by
    cases hsolution with
    | leaf hleaf => exact .inr (.inl hleaf)
    | unknown kind _ hother => exact .inr (.inr ⟨rfl, final_unsolved.2 hother⟩)
    | compound _ hnew _ => exact .inl hnew
  obtain ⟨loser, winner, hmerges, hcases⟩ :=
    h.sound.merges hpick hproper htype rfl (final_unsolved.2 hfinal) hne hcase
  refine ⟨loser, winner, hmerges, ?_, fun w k hw => ?_⟩
  · rcases hcases with ⟨rfl, -, -⟩ | ⟨rfl, hunknown, -⟩
    · exact .inl (BEq.refl _)
    · exact .inr ⟨rfl, hunknown⟩
  rcases hcases with ⟨rfl, hfind, hwinner⟩ | ⟨rfl, -, heq⟩
  · -- The variable lost, so that the winner is the type or stands for its class.
    have hstays : w ≠ id → IsFinal types w →
        IsFinal (types.union (.unsolved id kind) type pick) w := by
      intro hw hwfinal
      refine hmerges.final rfl hwfinal ?_
      rw [← Bool.not_eq_true, unsolved_beq]
      exact hw
    cases hsolution with
    | leaf hleaf =>
      have hleafWinner : shape.leaf winner = true := by
        rw [← shape.leaf_congr hfind]
        exact h.sound.leaf_find hleaf
      rw [mentions_of_leaf hleafWinner] at hw
      exact (List.not_mem_nil hw).elim
    | unknown otherKind hother hotherFinal =>
      have hself : types.Final (.unsolved _ otherKind) := final_unsolved.2 hotherFinal
      have heq := BEq.trans (BEq.symm hself) hfind
      obtain ⟨k', hk'⟩ := (mem_mentions_of_beq heq).2 ⟨k, hw⟩
      obtain ⟨rfl, rfl⟩ := Prod.mk.inj (List.mem_singleton.1 (by simpa [mentions] using hk'))
      exact ⟨hstays hother hotherFinal, .inr ⟨_, hk'⟩⟩
    | compound _ hnew hmentions =>
      rw [hwinner hnew] at hw
      obtain ⟨hwne, hwfinal⟩ := hmentions w k hw
      exact ⟨hstays hwne hwfinal, .inr ⟨k, hw⟩⟩
  · obtain ⟨k', hk'⟩ := (mem_mentions_of_beq heq).2 ⟨k, hw⟩
    obtain ⟨rfl, rfl⟩ := Prod.mk.inj (List.mem_singleton.1 (by simpa [mentions] using hk'))
    refine ⟨final_unsolved.1 (hmerges.final rfl (final_unsolved.2 hfinal) hne), .inl rfl⟩

section Solve

variable {id : Nat} {kind : Kind} {type : Ty} {pick : Ty → Ty → Ty}

theorem Acyclic.solve (h : Acyclic kindsCreated typesCreated types) (hpick : shape.Picks pick)
    (hid : id < typesCreated) (hkind : kind.Proper kindsCreated) (hfinal : IsFinal types id)
    (htype : type.Proper kindsCreated typesCreated) (hsolution : Solution types id type) :
    Acyclic kindsCreated typesCreated (types.union (.unsolved id kind) type pick) := by
  obtain ⟨loser, winner, hmerges, -, hwinner⟩ :=
    hsolution.merges h hpick hid hkind hfinal htype
  have hunknown : shape.unknown (types.find (.unsolved id kind)) = true := by
    rw [shape.unknown_congr (final_unsolved.2 hfinal)]
    rfl
  refine ⟨h.sound.union hpick (proper_unsolved.2 ⟨hid, hkind⟩) htype hunknown,
    wellFounded_of_minimal h.wellFounded fun w v hwithin => ?_⟩
  rcases hmerges.find (.unsolved v .type) with heq | heq
  · exact .inl (within_of_find_beq heq hwithin)
  · obtain ⟨-, k, hw⟩ := hwithin
    rw [heq] at hw
    exact .inr fun u => not_within_of_final (hwinner w k hw).1

/-- Solving a variable by a type spares all other variables that the type does not mention. -/
theorem Solution.spares (h : Acyclic kindsCreated typesCreated types) (hpick : shape.Picks pick)
    (hid : id < typesCreated) (hkind : kind.Proper kindsCreated) (hfinal : IsFinal types id)
    (htype : type.Proper kindsCreated typesCreated) (hsolution : Solution types id type)
    {other : Nat} (hne : other ≠ id) (hmentions : ∀ k, (other, k) ∉ type.mentions) :
    Spares other types (types.union (.unsolved id kind) type pick) := by
  obtain ⟨loser, winner, hmerges, hloser, hwinner⟩ :=
    hsolution.merges h hpick hid hkind hfinal htype
  refine spares_of_within (fun hother => ?_) fun _ inner outer hwithin => ?_
  · refine hmerges.final rfl hother ?_
    rw [← Bool.not_eq_true]
    intro heq
    rcases hloser with hloser | ⟨rfl, -⟩
    · exact hne (unsolved_beq.1 (BEq.trans heq hloser))
    · have hself : ∃ k, (other, k) ∈ (Ty.unsolved other .type).mentions :=
        ⟨.type, by simp [mentions]⟩
      obtain ⟨k, hk⟩ := (mem_mentions_of_beq heq).1 hself
      exact hmentions k hk
  · rcases hmerges.find (.unsolved outer .type) with heq | heq
    · exact .inl (.step (within_of_find_beq heq hwithin) (.refl inner))
    · obtain ⟨-, k, hk⟩ := hwithin
      rw [heq] at hk
      obtain ⟨hinner, hcase⟩ := hwinner inner k hk
      refine .inr ⟨hinner, ?_⟩
      rintro rfl
      rcases hcase with rfl | ⟨k', hk'⟩
      · exact hne rfl
      · exact hmentions k' hk'

/-- A solved type leaves all variables but the solved one standing for themselves. -/
theorem Solution.final (h : Acyclic kindsCreated typesCreated types) (hpick : shape.Picks pick)
    (hid : id < typesCreated) (hkind : kind.Proper kindsCreated) (hfinal : IsFinal types id)
    (htype : type.Proper kindsCreated typesCreated) (hsolution : Solution types id type)
    (hsolved : shape.unknown type = false) {other : Nat} (hne : other ≠ id)
    (hother : IsFinal types other) :
    IsFinal (types.union (.unsolved id kind) type pick) other := by
  obtain ⟨loser, winner, hmerges, hloser, -⟩ :=
    hsolution.merges h hpick hid hkind hfinal htype
  refine hmerges.final rfl hother ?_
  rw [← Bool.not_eq_true]
  intro heq
  rcases hloser with hloser | ⟨-, hunknown⟩
  · exact hne (unsolved_beq.1 (BEq.trans heq hloser))
  · rw [hsolved] at hunknown
    cases hunknown

end Solve

/-- The changes that removing a variable makes. -/
theorem Acyclic.within_remove (h : Acyclic kindsCreated typesCreated types) {id : Nat}
    {kind : Kind} {pick : Ty → Ty → Ty} (hpick : shape.Picks pick) {inner outer : Nat}
    (hwithin : Within (types.remove (.unsolved id kind) pick) inner outer) :
    Within types inner outer ∨ IsFinal (types.remove (.unsolved id kind) pick) inner ∧
      (IsFinal types inner → inner = id) ∧ inner ≠ id := by
  have hvariable : shape.unknown (.unsolved id kind) = true := rfl
  have hsound : (types.remove (.unsolved id kind) pick).Sound shape
      (Proper kindsCreated typesCreated) := h.sound.remove hpick hvariable
  rcases h.sound.find_remove hpick hvariable (.unsolved outer .type) with
    heq | ⟨-, heq⟩ | ⟨hrep, hunknown, hne, hfind⟩
  · refine .inl (within_of_find_beq ?_ hwithin)
    rw [heq]
    exact BEq.refl _
  · refine (hwithin.1 ?_).elim
    rw [IsFinal, Partition.Final, heq]
    exact BEq.refl _
  · have hfinal := hsound.final_find hunknown
    obtain ⟨other, otherKind, hother⟩ := unknown_iff.1 hunknown
    obtain ⟨-, k, hk⟩ := hwithin
    rw [hother] at hk hne hfind hfinal
    obtain ⟨rfl, -⟩ := Prod.mk.inj (List.mem_singleton.1 (by simpa [mentions] using hk))
    refine .inr ⟨final_unsolved.1 hfinal, fun hself => ?_, ?_⟩
    · -- The new representative was in the class of the removed variable.
      have hself : types.Final (.unsolved inner otherKind) := final_unsolved.2 hself
      rw [Partition.Final, hfind] at hself
      exact unsolved_beq.1 (BEq.trans (BEq.symm hself) hrep)
    · rintro rfl
      rw [unsolved_beq.2 rfl] at hne
      cases hne

theorem Acyclic.remove (h : Acyclic kindsCreated typesCreated types) {id : Nat} {kind : Kind}
    {pick : Ty → Ty → Ty} (hpick : shape.Picks pick) :
    Acyclic kindsCreated typesCreated (types.remove (.unsolved id kind) pick) := by
  refine ⟨h.sound.remove hpick rfl, wellFounded_of_minimal h.wellFounded fun w v hwithin => ?_⟩
  rcases h.within_remove hpick hwithin with hold | ⟨hfinal, -⟩
  · exact .inl hold
  · exact .inr fun u => not_within_of_final hfinal

/-- Removing a variable spares every variable. -/
theorem Acyclic.spares_remove (h : Acyclic kindsCreated typesCreated types) {id : Nat}
    {kind : Kind} {pick : Ty → Ty → Ty} (hpick : shape.Picks pick) (other : Nat) :
    Spares other types (types.remove (.unsolved id kind) pick) := by
  have hvariable : shape.unknown (.unsolved id kind) = true := rfl
  refine spares_of_within (fun hother => ?_) fun hother inner outer hwithin => ?_
  · rcases h.sound.find_remove hpick hvariable (.unsolved other .type) with
      heq | ⟨-, heq⟩ | ⟨hrep, -, hne, -⟩
    · rw [IsFinal, Partition.Final, heq]
      exact hother
    · rw [IsFinal, Partition.Final, heq]
      exact BEq.refl _
    · -- The removed variable represents the class, so that it is the variable itself.
      have heq : (Ty.unsolved other .type == .unsolved id kind) = true :=
        BEq.trans (BEq.symm hother) hrep
      have habsent := Partition.classOf?_remove_self h.sound.distinct pick heq
      rw [IsFinal, Partition.Final, Partition.find_of_absent habsent]
      exact BEq.refl _
  · rcases h.within_remove hpick hwithin with hold | ⟨hfinal, hold, hne⟩
    · exact .inl (.step hold (.refl inner))
    · refine .inr ⟨hfinal, ?_⟩
      rintro rfl
      exact hne (hold hother)

/-- Every solution is replaced by its substitution. -/
def closed (types : Partition Ty) (kinds : Partition Kind) : Partition Ty :=
  types.mapRepresentatives fun _ solution => solution.substitute types kinds

theorem Acyclic.substitute_find (h : Acyclic kindsCreated typesCreated types)
    (kinds : Partition Kind) (id : Nat) (kind : Kind) :
    (types.find (.unsolved id kind)).substitute types kinds =
      substitute types kinds (.unsolved id kind) := by
  rw [substitute_unsolved h.wellFounded]
  cases hunknown : shape.unknown (types.find (.unsolved id kind)) with
  | false => rw [resolved_of_solved hunknown]
  | true =>
    have hself := h.sound.find_find hunknown
    obtain ⟨other, otherKind, hother⟩ := unknown_iff.1 hunknown
    rw [hother] at hself ⊢
    rw [substitute_unsolved h.wellFounded, hself]

/-- A variable that stands for itself is substituted by itself. -/
theorem substitute_final_beq (h : WellFounded (Within types)) (kinds : Partition Kind) {id : Nat}
    (kind : Kind) (hfinal : IsFinal types id) :
    (substitute types kinds (.unsolved id kind) == .unsolved id kind) = true := by
  have hself : types.Final (.unsolved id kind) := final_unsolved.2 hfinal
  have hunknown : shape.unknown (types.find (.unsolved id kind)) = true := by
    rw [shape.unknown_congr hself]
    rfl
  obtain ⟨other, otherKind, hother⟩ := unknown_iff.1 hunknown
  rw [Partition.Final, hother] at hself
  rw [substitute_unsolved h, hother, resolved]
  exact unsolved_beq.2 (unsolved_beq.1 hself)

theorem Acyclic.find_closed_beq (h : Acyclic kindsCreated typesCreated types)
    (kinds : Partition Kind) (id : Nat) (kind : Kind) :
    ((Ty.closed types kinds).find (.unsolved id kind) ==
      substitute types kinds (.unsolved id kind)) = true := by
  rw [Ty.closed, Partition.find_mapRepresentatives]
  cases hclass : types.classOf? (.unsolved id kind) with
  | some c =>
    dsimp only
    rw [← Partition.find_of_classOf? hclass, h.substitute_find]
    exact BEq.refl _
  | none =>
    have hfinal : types.Final (.unsolved id kind) := by
      rw [Partition.Final, Partition.find_of_absent hclass]
      exact BEq.refl _
    exact BEq.symm (substitute_final_beq h.wellFounded kinds kind (final_unsolved.1 hfinal))

theorem Acyclic.final_closed (h : Acyclic kindsCreated typesCreated types)
    (kinds : Partition Kind) {id : Nat} (hfinal : IsFinal types id) :
    IsFinal (Ty.closed types kinds) id :=
  BEq.trans (h.find_closed_beq kinds id .type)
    (substitute_final_beq h.wellFounded kinds .type hfinal)

/-- What stands in a closed solution was reached and stands for itself. -/
theorem Acyclic.within_closed (h : Acyclic kindsCreated typesCreated types)
    {kinds : Partition Kind} {inner outer : Nat}
    (hwithin : Within (Ty.closed types kinds) inner outer) :
    IsFinal (Ty.closed types kinds) inner ∧ Reaches types outer inner := by
  obtain ⟨kind, hmem⟩ := (mem_mentions_of_beq (h.find_closed_beq kinds outer .type)).1 hwithin.2
  obtain ⟨other, otherKind, hother, hreaches⟩ := reaches_of_mem_substitute h.wellFounded hmem
  obtain ⟨rfl, -⟩ := Prod.mk.inj (List.mem_singleton.1 (by simpa [mentions] using hother))
  exact ⟨h.final_closed kinds (final_of_mem_substitute h hmem), hreaches⟩

theorem Acyclic.closed (hkinds : Kind.Acyclic kindsCreated kinds)
    (h : Acyclic kindsCreated typesCreated types) :
    Acyclic kindsCreated typesCreated (Ty.closed types kinds) := by
  refine ⟨?_, wellFounded_of_minimal h.wellFounded fun w v hwithin =>
    .inr fun u => not_within_of_final (h.within_closed hwithin).1⟩
  refine h.sound.mapRepresentatives ?_ ?_ ?_ (h.substitute_proper hkinds)
  · intro type hunknown hfinal
    obtain ⟨id, kind, rfl⟩ := unknown_iff.1 hunknown
    exact substitute_final_beq h.wellFounded kinds kind (final_unsolved.1 hfinal)
  · intro type hsolved
    exact unknown_bind hsolved
  · intro type hleaf
    exact leaf_bind hleaf

/-- Closing the solutions spares every variable. -/
theorem Acyclic.spares_closed (h : Acyclic kindsCreated typesCreated types)
    (kinds : Partition Kind) (id : Nat) : Spares id types (Ty.closed types kinds) :=
  spares_of_within (h.final_closed kinds) fun _ _ _ hwithin => .inl (h.within_closed hwithin).2

end Ty

end PolyFront
