import PolyFront.Proofs.Faultless.Run
import PolyFront.Proofs.Solutions.Popping
import PolyFront.Proofs.Subtyping.Copies
import PolyFront.Proofs.Unification.Terms

/-!
# Variables that wait for a binder

A check of a type against itself creates variables of one sort only: each stands for a rigid
variable that a quantifier binds, and is solved by that one or not at all.  Nothing else is
represented by such a variable.  So solving it, closing the solutions and dropping it again all
leave the other variables as they are.
-/

namespace PolyFront

open PolyFront.Partition

namespace Ty

/-- All unsolved variables of the type were created. -/
def Below (created : Nat) (type : Ty) : Prop := ∀ id kind, (id, kind) ∈ type.mentions → id < created

theorem Below.mono {created created' : Nat} {type : Ty} (h : type.Below created)
    (hle : created ≤ created') : type.Below created' :=
  fun id kind hmem => Nat.lt_of_lt_of_le (h id kind hmem) hle

theorem below_unsolved {created id : Nat} {kind : Kind} :
    Below created (.unsolved id kind) ↔ id < created := by
  simp [Below, mentions]

theorem below_var (created : Nat) (quantifier : Quantifier) (name : String) (kind : Kind) :
    Below created (.var quantifier name kind) := by
  simp [Below, mentions]

/-! ## The substitution of one variable -/

variable {types : Partition Ty} {kinds : Partition Kind} {id other : Nat} {kind final : Kind}
  {quantifier : Quantifier} {name : String}

/-- A variable is substituted by what represents it, up to variables in that. -/
theorem exists_substitute_unsolved (types : Partition Ty) (kinds : Partition Kind) (id : Nat)
    (kind : Kind) : ∃ f : Nat → Kind → Ty,
      substitute types kinds (.unsolved id kind) =
        (types.find (.unsolved id kind)).bind f (Kind.substitute kinds) ∧
      ∀ other otherKind, types.find (.unsolved id kind) = .unsolved other otherKind →
        f other otherKind = .unsolved other (otherKind.substitute kinds) := by
  rw [substitute, bind_unsolved]
  cases hsize : types.size with
  | zero =>
    have habsent : types.classOf? (.unsolved id kind) = none := by
      rw [← Option.not_isSome_iff_eq_none]
      intro hsome
      obtain ⟨c, hc⟩ := Option.isSome_iff_exists.1 hsome
      obtain ⟨a, ha, -⟩ := exists_mem_elements hc
      rw [List.length_eq_zero_iff.1 hsize] at ha
      cases ha
    refine ⟨fun id kind => .unsolved id (kind.substitute kinds), ?_, fun _ _ _ => rfl⟩
    rw [find_of_absent habsent, expand, bind_unsolved]
  | succ fuel =>
    rw [expand, if_neg List.not_mem_nil]
    cases hfind : types.find (.unsolved id kind) with
    | unsolved other otherKind =>
      exact ⟨fun id kind => .unsolved id (kind.substitute kinds), by rw [bind_unsolved],
        fun _ _ _ => rfl⟩
    | _ => exact ⟨_, rfl, fun _ _ heq => by cases heq⟩

theorem substitute_eq_unsolved :
    substitute types kinds (.unsolved id kind) = .unsolved other final ↔
      ∃ found, types.find (.unsolved id kind) = .unsolved other found ∧
        found.substitute kinds = final := by
  obtain ⟨f, hsubstitute, hf⟩ := exists_substitute_unsolved types kinds id kind
  rw [hsubstitute]
  cases hfind : types.find (.unsolved id kind) with
  | unsolved found foundKind =>
    rw [bind_unsolved, hf found foundKind hfind]
    simp only [unsolved.injEq]
    constructor
    · rintro ⟨rfl, rfl⟩
      exact ⟨foundKind, ⟨rfl, rfl⟩, rfl⟩
    · rintro ⟨_, ⟨rfl, rfl⟩, rfl⟩
      exact ⟨rfl, rfl⟩
  | _ => simp

theorem substitute_eq_var :
    substitute types kinds (.unsolved id kind) = .var quantifier name final ↔
      ∃ found, types.find (.unsolved id kind) = .var quantifier name found ∧
        found.substitute kinds = final := by
  obtain ⟨f, hsubstitute, hf⟩ := exists_substitute_unsolved types kinds id kind
  rw [hsubstitute]
  cases hfind : types.find (.unsolved id kind) with
  | unsolved found foundKind =>
    rw [bind_unsolved, hf found foundKind hfind]
    simp
  | var foundQuantifier foundName foundKind =>
    rw [bind_var]
    simp only [var.injEq]
    constructor
    · rintro ⟨rfl, rfl, rfl⟩
      exact ⟨foundKind, ⟨rfl, rfl, rfl⟩, rfl⟩
    · rintro ⟨_, ⟨rfl, rfl, rfl⟩, rfl⟩
      exact ⟨rfl, rfl, rfl⟩
  | _ => simp

/-- What a type mentions that is substituted by itself is substituted by itself. -/
theorem substitute_of_self {type : Ty} (h : type.substitute types kinds = type) :
    (∀ id kind, (id, kind) ∈ type.mentions →
      substitute types kinds (.unsolved id kind) = .unsolved id kind) ∧
    ∀ kind ∈ type.carried, kind.substitute kinds = kind := by
  have hself := bind_eq_self h
  refine ⟨fun id kind hmem => ?_, hself.2⟩
  rw [substitute, bind_unsolved]
  exact hself.1 id kind hmem

theorem below_substitute {created : Nat} (h : types.Sound plainShape (Below created))
    (kinds : Partition Kind) {type : Ty} (htype : type.Below created) :
    (type.substitute types kinds).Below created := by
  have hexpand : ∀ fuel seen id kind, id < created →
      (expand types kinds fuel seen id kind).Below created := by
    intro fuel
    induction fuel with
    | zero =>
      intro seen id kind hid
      rw [expand]
      exact below_unsolved.2 hid
    | succ fuel ih =>
      intro seen id kind hid
      have hsolution : (if id ∈ seen then .unsolved id kind
          else types.find (.unsolved id kind)).Below created := by
        split
        · exact below_unsolved.2 hid
        · exact h.find_good (below_unsolved.2 hid)
      rw [expand]
      split
      · rename_i other otherKind heq
        rw [heq] at hsolution
        exact below_unsolved.2 (below_unsolved.1 hsolution)
      · intro other otherKind hmem
        obtain ⟨inner, innerKind, hinner, hmem⟩ := mem_mentions_bind.1 hmem
        exact ih _ inner innerKind (hsolution inner innerKind hinner) other otherKind hmem
  intro id kind hmem
  obtain ⟨inner, innerKind, hinner, hmem⟩ := mem_mentions_bind.1 hmem
  exact hexpand _ _ inner innerKind (htype inner innerKind hinner) id kind hmem

theorem eq_of_beq_var {type : Ty} (h : (type == .var quantifier name kind) = true) :
    type = .var quantifier name kind := by
  have heq := beq_iff.1 h
  cases type with
  | var => simpa [erased] using heq
  | _ => simp [erased] at heq

end Ty

namespace Store

variable {s s' s'' : Store} {touched : Nat → Prop}

/-- The solutions of kinds are acyclic, unsolved types represent variables only, and all that is
recorded of types mentions created variables only. -/
structure Orderly (s : Store) : Prop where
  acyclic : WellFounded (Kind.Within s.kinds)
  sound : s.types.Sound Ty.plainShape (Ty.Below s.nextType)

/-- The variable represents no type but itself. -/
def Lone (s : Store) (id : Nat) : Prop :=
  ∀ type, (s.types.find type == .unsolved id .type) = true → (type == .unsolved id .type) = true

/-- A named variable whose kind is substituted by itself. -/
def Rigid (s : Store) (type : Ty) : Prop :=
  ∃ quantifier name kind, type = .var quantifier name kind ∧ s.substituteKind kind = kind

/-- Only the touched ones among the variables that were there can get another substitution by a
variable, and what represented itself alone still does. -/
structure MovesBy (touched : Nat → Prop) (s s' : Store) : Prop where
  orderly : s'.Orderly
  created : s.nextType ≤ s'.nextType
  kinds : ∀ kind, s'.substituteKind kind = s.substituteKind kind
  spares : ∀ id kind other final, id < s.nextType → ¬touched id →
    s.substituteType (.unsolved id kind) = .unsolved other final →
      s'.substituteType (.unsolved id kind) = .unsolved other final
  settled : ∀ id kind quantifier name final, id < s.nextType → ¬touched id →
    s.substituteType (.unsolved id kind) = .var quantifier name final →
      s'.substituteType (.unsolved id kind) = .var quantifier name final
  lone : ∀ id, id < s.nextType → ¬touched id → s.Lone id → s'.Lone id
  rigid : ∀ type, s.Rigid type → s.types.find type = type → s'.types.find type = type

namespace MovesBy

theorem of_eq (h : s.Orderly) (hkinds : s'.kinds = s.kinds) (htypes : s'.types = s.types)
    (hnext : s'.nextType = s.nextType) : MovesBy touched s s' := by
  obtain ⟨stack, kinds, types, nextKind, nextType⟩ := s'
  dsimp only at hkinds htypes hnext
  subst hkinds htypes hnext
  exact ⟨⟨h.acyclic, h.sound⟩, Nat.le_refl _, fun _ => rfl, fun _ _ _ _ _ _ heq => heq,
    fun _ _ _ _ _ _ _ heq => heq, fun _ _ _ hlone => hlone, fun _ _ heq => heq⟩

theorem mono {touched' : Nat → Prop} (h : MovesBy touched s s')
    (himp : ∀ id, id < s.nextType → touched id → touched' id) : MovesBy touched' s s' where
  orderly := h.orderly
  created := h.created
  kinds := h.kinds
  spares id kind other final hid hfree :=
    h.spares id kind other final hid fun htouched => hfree (himp id hid htouched)
  settled id kind quantifier name final hid hfree :=
    h.settled id kind quantifier name final hid fun htouched => hfree (himp id hid htouched)
  lone id hid hfree := h.lone id hid fun htouched => hfree (himp id hid htouched)
  rigid := h.rigid

/-- What was created since the first step does not count in the second. -/
theorem trans {touched' : Nat → Prop} (h : MovesBy touched s s') (h' : MovesBy touched' s' s'')
    (himp : ∀ id, id < s.nextType → touched' id → touched id) : MovesBy touched s s'' where
  orderly := h'.orderly
  created := Nat.le_trans h.created h'.created
  kinds kind := (h'.kinds kind).trans (h.kinds kind)
  spares id kind other final hid hfree heq :=
    h'.spares id kind other final (Nat.lt_of_lt_of_le hid h.created)
      (fun htouched => hfree (himp id hid htouched)) (h.spares id kind other final hid hfree heq)
  settled id kind quantifier name final hid hfree heq :=
    h'.settled id kind quantifier name final (Nat.lt_of_lt_of_le hid h.created)
      (fun htouched => hfree (himp id hid htouched))
      (h.settled id kind quantifier name final hid hfree heq)
  lone id hid hfree hlone :=
    h'.lone id (Nat.lt_of_lt_of_le hid h.created) (fun htouched => hfree (himp id hid htouched))
      (h.lone id hid hfree hlone)
  rigid type hrigid heq := by
    refine h'.rigid type ?_ (h.rigid type hrigid heq)
    obtain ⟨quantifier, name, kind, rfl, hkind⟩ := hrigid
    exact ⟨quantifier, name, kind, rfl, (h.kinds kind).trans hkind⟩

end MovesBy

/-! ## Closing the solutions -/

theorem Orderly.substituteKind_idem (h : s.Orderly) (kind : Kind) :
    s.substituteKind (s.substituteKind kind) = s.substituteKind kind :=
  Kind.substitute_substitute h.acyclic kind

/-- An unsolved representative is substituted by itself. -/
theorem Orderly.substitute_found (h : s.Orderly) {type : Ty} {id : Nat} {kind : Kind}
    (hfind : s.types.find type = .unsolved id kind) (kinds : Partition Kind) :
    Ty.substitute s.types kinds (.unsolved id kind) = .unsolved id (kind.substitute kinds) := by
  have hself := h.sound.find_find (a := type) (by rw [hfind]; rfl)
  rw [hfind] at hself
  exact Ty.substitute_eq_unsolved.2 ⟨kind, hself, rfl⟩

theorem find_closeSolutions (s : Store) (type : Ty) :
    s.closeSolutions.types.find type =
        (s.types.find type).substitute s.types s.closeSolutions.kinds ∨
      s.types.find type = type ∧ s.closeSolutions.types.find type = type := by
  have hclosed : s.closeSolutions.types = Ty.closed s.types s.closeSolutions.kinds := rfl
  rw [hclosed, Ty.closed, find_mapRepresentatives]
  cases hclass : s.types.classOf? type with
  | none => exact .inr ⟨find_of_absent hclass, rfl⟩
  | some c => exact .inl (by rw [find_of_classOf? hclass])

theorem Orderly.closeSolutions (h : s.Orderly) (touched : Nat → Prop) :
    MovesBy touched s s.closeSolutions := by
  have hkinds : ∀ kind, s.closeSolutions.substituteKind kind = s.substituteKind kind :=
    fun kind => Kind.substitute_closed h.acyclic kind
  refine ⟨⟨Kind.wellFounded_closed h.acyclic, ?_⟩, Nat.le_refl _, hkinds, ?_, ?_, ?_, ?_⟩
  · refine h.sound.mapRepresentatives ?_ ?_ ?_ fun hgood => Ty.below_substitute h.sound _ hgood
    · intro type hunknown hfinal
      obtain ⟨id, kind, rfl⟩ := Ty.unknown_iff.1 hunknown
      have hfound : Ty.plainShape.unknown (s.types.find (.unsolved id kind)) = true := by
        rw [Ty.plainShape.unknown_congr hfinal]
        rfl
      obtain ⟨other, otherKind, hother⟩ := Ty.unknown_iff.1 hfound
      rw [Final, hother, Ty.unsolved_beq] at hfinal
      subst hfinal
      rw [Ty.substitute_eq_unsolved.2 ⟨otherKind, hother, rfl⟩]
      exact Ty.unsolved_beq.2 rfl
    · intro type hsolved
      exact Ty.unknown_bind hsolved
    · intro type hleaf
      cases hleaf
  · intro id kind other final _ _ heq
    obtain ⟨found, hfind, rfl⟩ := Ty.substitute_eq_unsolved.1 heq
    rcases find_closeSolutions s (.unsolved id kind) with hclosed | ⟨hself, hclosed⟩
    · rw [hfind, h.substitute_found hfind] at hclosed
      refine Ty.substitute_eq_unsolved.2 ⟨_, hclosed, ?_⟩
      exact (hkinds _).trans ((congrArg s.substituteKind (hkinds found)).trans
        (h.substituteKind_idem found))
    · rw [hfind] at hself
      exact Ty.substitute_eq_unsolved.2 ⟨found, hclosed.trans hself.symm, hkinds found⟩
  · intro id kind quantifier name final _ _ heq
    obtain ⟨found, hfind, rfl⟩ := Ty.substitute_eq_var.1 heq
    rcases find_closeSolutions s (.unsolved id kind) with hclosed | ⟨hself, -⟩
    · rw [hfind, Ty.substitute, Ty.bind_var] at hclosed
      refine Ty.substitute_eq_var.2 ⟨_, hclosed, ?_⟩
      exact (hkinds _).trans ((congrArg s.substituteKind (hkinds found)).trans
        (h.substituteKind_idem found))
    · rw [hfind] at hself
      cases hself
  · intro id _ _ hlone type heq
    rcases find_closeSolutions s type with hclosed | ⟨-, hclosed⟩
    · refine hlone type ?_
      rw [hclosed] at heq
      cases hfind : s.types.find type with
      | unsolved other kind =>
        rw [hfind, h.substitute_found hfind, Ty.unsolved_beq] at heq
        exact Ty.unsolved_beq.2 heq
      | _ =>
        have hsolved := Ty.shape.unknown_congr heq
        rw [hfind, Ty.substitute, Ty.unknown_bind rfl] at hsolved
        cases hsolved
    · rwa [hclosed] at heq
  · rintro _ ⟨quantifier, name, kind, rfl, hkind⟩ hself
    rcases find_closeSolutions s (.var quantifier name kind) with hclosed | ⟨-, hclosed⟩
    · rw [hclosed, hself, Ty.substitute, Ty.bind_var]
      exact congrArg (Ty.var quantifier name) ((hkinds kind).trans hkind)
    · exact hclosed

/-! ## Fresh variables -/

theorem Orderly.absent (h : s.Orderly) {id : Nat} (hid : s.nextType ≤ id) (kind : Kind) :
    s.types.classOf? (.unsolved id kind) = none := by
  refine classOf?_eq_none_iff.2 fun c hc hhas => ?_
  obtain ⟨type, htype, heq⟩ := Class.has_iff.1 hhas
  have hmem : (id, kind) ∈ (Ty.unsolved id kind).mentions := by simp [Ty.mentions]
  obtain ⟨otherKind, hmem'⟩ := (Ty.mem_mentions_of_beq heq).1 ⟨kind, hmem⟩
  have hlt := (h.sound.good c hc).1 type htype id otherKind hmem'
  omega

/-- A variable that was not created represents nothing but itself. -/
theorem Orderly.lone_of_uncreated (h : s.Orderly) {id : Nat}
    (hid : s.nextType ≤ id) : s.Lone id := by
  intro type heq
  cases hclass : s.types.classOf? type with
  | none => rwa [find_of_absent hclass] at heq
  | some c =>
    rw [find_of_classOf? hclass] at heq
    have hmem : (id, Kind.type) ∈ (Ty.unsolved id .type).mentions := by simp [Ty.mentions]
    obtain ⟨kind, hmem'⟩ := (Ty.mem_mentions_of_beq heq).2 ⟨.type, hmem⟩
    have hlt := (h.sound.good c (mem_of_classOf? hclass).1).2 id kind hmem'
    omega

/-- The store with one more type variable. -/
def withType (s : Store) (kind : Kind) (stack : Stack (Located Attributes)) : Store :=
  { s with
    stack := stack
    types := s.types.add (.unsolved s.nextType kind)
    nextType := s.nextType + 1 }

theorem find_withType (s : Store) (kind : Kind) (stack : Stack (Located Attributes)) (type : Ty) :
    (s.withType kind stack).types.find type = s.types.find type ∨
      (type == .unsolved s.nextType .type) = true ∧
        (s.withType kind stack).types.find type = .unsolved s.nextType kind := by
  rcases find_add s.types (.unsolved s.nextType kind) type with heq | ⟨-, hself, heq⟩
  · exact .inl heq
  · exact .inr ⟨BEq.trans hself (Ty.unsolved_beq.2 rfl), heq⟩

theorem Orderly.withType (h : s.Orderly) (touched : Nat → Prop) (kind : Kind)
    (stack : Stack (Located Attributes)) :
    MovesBy touched s (s.withType kind stack) := by
  have hold : ∀ {id} (otherKind : Kind), id < s.nextType →
      (s.withType kind stack).types.find (.unsolved id otherKind) =
        s.types.find (.unsolved id otherKind) := by
    intro id otherKind hid
    rcases find_withType s kind stack (.unsolved id otherKind) with heq | ⟨hself, -⟩
    · exact heq
    · exact (Nat.ne_of_lt hid (Ty.unsolved_beq.1 hself)).elim
  have hsound := (h.sound.mono fun _ hgood => hgood.mono (Nat.le_succ s.nextType)).add
    (Ty.below_unsolved.2 (Nat.lt_succ_self s.nextType) : Ty.Below _ (.unsolved s.nextType kind))
  refine ⟨⟨h.acyclic, hsound⟩, Nat.le_succ _, fun _ => rfl, ?_, ?_, ?_, ?_⟩
  · intro id otherKind other final hid _ heq
    obtain ⟨found, hfind, hfinal⟩ := Ty.substitute_eq_unsolved.1 heq
    exact Ty.substitute_eq_unsolved.2 ⟨found, (hold otherKind hid).trans hfind, hfinal⟩
  · intro id otherKind quantifier name final hid _ heq
    obtain ⟨found, hfind, hfinal⟩ := Ty.substitute_eq_var.1 heq
    exact Ty.substitute_eq_var.2 ⟨found, (hold otherKind hid).trans hfind, hfinal⟩
  · intro id hid _ hlone type heq
    rcases find_withType s kind stack type with hsame | ⟨-, hnew⟩
    · exact hlone type (hsame ▸ heq)
    · rw [hnew, Ty.unsolved_beq] at heq
      omega
  · rintro _ ⟨quantifier, name, otherKind, rfl, -⟩ hself
    rcases find_withType s kind stack (.var quantifier name otherKind) with hsame | ⟨hnew, -⟩
    · exact hsame.trans hself
    · have hshape := Ty.plainShape.unknown_congr hnew
      cases hshape

theorem Orderly.lone_withType (h : s.Orderly) (kind : Kind) (stack : Stack (Located Attributes)) :
    (s.withType kind stack).Lone s.nextType := by
  intro type heq
  rcases find_withType s kind stack type with hsame | ⟨hself, -⟩
  · exact h.lone_of_uncreated (Nat.le_refl _) type (hsame ▸ heq)
  · exact hself

theorem Orderly.substitute_withType (h : s.Orderly) {kind : Kind}
    (hkind : s.substituteKind kind = kind)
    (stack : Stack (Located Attributes)) :
    (s.withType kind stack).substituteType (.unsolved s.nextType kind) =
      .unsolved s.nextType kind := by
  refine Ty.substitute_eq_unsolved.2 ⟨kind, ?_, hkind⟩
  rcases find_withType s kind stack (.unsolved s.nextType kind) with heq | ⟨-, heq⟩
  · exact heq.trans (find_of_absent (h.absent (Nat.le_refl _) kind))
  · exact heq

/-! ## Solving by a binder -/

section Solve

variable {id : Nat} {kind : Kind} {binder : Ty}

/-- Only the solved variable gets another representative when it represents nothing else. -/
theorem Orderly.find_union (h : s.Orderly) (hlone : s.Lone id)
    (hself : s.substituteType (.unsolved id kind) = .unsolved id kind) (hrigid : s.Rigid binder)
    (hbinder : s.types.find binder = binder) (type : Ty) :
    (type == .unsolved id .type) = true ∧
        (s.types.union (.unsolved id kind) binder s.pickType).find type = binder ∨
      (type == .unsolved id .type) = false ∧
        (s.types.union (.unsolved id kind) binder s.pickType).find type = s.types.find type := by
  obtain ⟨quantifier, name, binderKind, rfl, -⟩ := hrigid
  generalize hb : Ty.var quantifier name binderKind = binder at hbinder ⊢
  have hbeq : ∀ {other}, (other == binder) = true → other = binder := by
    subst hb
    exact Ty.eq_of_beq_var
  have hunknown : Ty.plainShape.unknown binder = false := by
    subst hb
    rfl
  obtain ⟨found, hfind, -⟩ := Ty.substitute_eq_unsolved.1 hself
  -- What is not the solved variable has the same representative once both are present.
  have hprepared : ∀ {other}, (other == .unsolved id .type) = false →
      (s.types.prepared (.unsolved id kind) binder).find other = s.types.find other := by
    intro other hother
    have hadd : (s.types.add (.unsolved id kind)).find other = s.types.find other := by
      rcases find_add s.types (.unsolved id kind) other with heq | ⟨-, hmem, -⟩
      · exact heq
      · rw [BEq.trans hmem (Ty.unsolved_beq.2 rfl)] at hother
        cases hother
    rcases find_add (s.types.add (.unsolved id kind)) binder other with heq | ⟨-, hmem, heq⟩
    · exact heq.trans hadd
    · rw [Partition.prepared, heq, hbeq hmem, hbinder]
  obtain ⟨⟨l, hl⟩, r, hr⟩ := exists_classOf?_prepared s.types (.unsolved id kind) binder
  have hlrep : (l.representative == .unsolved id .type) = true := by
    have heq := find_prepared_beq s.types (.unsolved id kind) binder (.unsolved id kind)
    rw [find_of_classOf? hl, hfind] at heq
    exact BEq.trans heq (Ty.unsolved_beq.2 rfl)
  have hne : (binder == .unsolved id .type) = false := by
    rw [← Bool.not_eq_true]
    intro heq
    rw [Ty.plainShape.unknown_congr heq] at hunknown
    cases hunknown
  have hrrep : r.representative = binder := by
    rw [← find_of_classOf? hr, hprepared hne, hbinder]
  have hlr : l ≠ r := by
    rintro rfl
    rw [hrrep, hne] at hlrep
    cases hlrep
  have hpick : s.pickType l.representative r.representative = binder := by
    have hlunknown : Ty.plainShape.unknown l.representative = true := by
      rw [Ty.plainShape.unknown_congr hlrep]
      rfl
    rw [← hrrep] at hunknown
    exact ((Ty.picks_plain s.stack.outermostFirst).solved hlunknown hunknown).trans hrrep
  have hclasses := mem_of_classOf? hl
  cases hcase : type == .unsolved id .type with
  | true =>
    have hin : l.Has type :=
      (Class.has_congr (BEq.trans hcase (Ty.unsolved_beq.2 rfl))).2 hclasses.2
    rcases classOf?_union s.pickType h.sound.distinct hl hr hlr type with ⟨-, hsome⟩ | ⟨hout, -⟩
    · exact .inl ⟨rfl, (find_of_classOf? hsome).trans hpick⟩
    · exact (hout (.inl hin)).elim
  | false =>
    refine .inr ⟨rfl, ?_⟩
    have hdistinct := distinct_prepared h.sound.distinct (.unsolved id kind) binder
    rcases classOf?_union s.pickType h.sound.distinct hl hr hlr type with ⟨hin, hsome⟩ | ⟨-, heq⟩
    · rw [find_of_classOf? hsome, Class.merged, hpick, ← hprepared hcase]
      rcases hin with hin | hin
      · -- The class of the solved variable has no other members.
        have hrep : (s.types.find type == .unsolved id .type) = true := by
          rw [← hprepared hcase, find_of_classOf? (classOf?_eq_some hdistinct hclasses.1 hin)]
          exact hlrep
        rw [hlone type hrep] at hcase
        cases hcase
      · rw [find_of_classOf? (classOf?_eq_some hdistinct (mem_of_classOf? hr).1 hin), hrrep]
    · rw [find, heq]
      exact hprepared hcase

theorem Orderly.solveType (h : s.Orderly) (hid : id < s.nextType) (hlone : s.Lone id)
    (hself : s.substituteType (.unsolved id kind) = .unsolved id kind) (hrigid : s.Rigid binder)
    (hbinder : s.types.find binder = binder) :
    MovesBy (· = id) s (s.solveType id kind binder) ∧
      (s.solveType id kind binder).Lone id ∧
      (s.solveType id kind binder).substituteType (.unsolved id kind) = binder := by
  have hfind := h.find_union hlone hself hrigid hbinder
  have hother : ∀ {other} (otherKind : Kind), other ≠ id →
      (s.types.union (.unsolved id kind) binder s.pickType).find (.unsolved other otherKind) =
        s.types.find (.unsolved other otherKind) := by
    intro other otherKind hne
    rcases hfind (.unsolved other otherKind) with ⟨heq, -⟩ | ⟨-, heq⟩
    · exact (hne (Ty.unsolved_beq.1 heq)).elim
    · exact heq
  obtain ⟨quantifier, name, binderKind, rfl, hkind⟩ := hrigid
  have hbelow := Ty.below_var s.nextType quantifier name binderKind
  have hunsolved : Ty.plainShape.unknown (s.types.find (.unsolved id kind)) = true := by
    obtain ⟨found, hfound, -⟩ := Ty.substitute_eq_unsolved.1 hself
    rw [hfound]
    rfl
  -- No type is represented by a variable that was solved.
  have hlonely : ∀ other, s.Lone other ∨ other = id → ∀ type,
      ((s.types.union (.unsolved id kind) (.var quantifier name binderKind) s.pickType).find type ==
        .unsolved other .type) = true → (type == .unsolved other .type) = true := by
    intro other hcase type heq
    rcases hfind type with ⟨-, hsolved⟩ | ⟨-, hsame⟩
    · rw [hsolved] at heq
      cases Ty.plainShape.unknown_congr heq
    · rw [hsame] at heq
      rcases hcase with hlone' | rfl
      · exact hlone' type heq
      · exact hlone type heq
  have hunion : MovesBy (· = id) s { s with
      types := s.types.union (.unsolved id kind) (.var quantifier name binderKind) s.pickType } :=
          by
    refine ⟨⟨h.acyclic, h.sound.union (Ty.picks_plain _) (Ty.below_unsolved.2 hid) hbelow
      hunsolved⟩, Nat.le_refl _, fun _ => rfl, ?_, ?_, ?_, ?_⟩
    · intro other otherKind final finalKind _ hne heq
      obtain ⟨found, hfound, hfinal⟩ := Ty.substitute_eq_unsolved.1 heq
      exact Ty.substitute_eq_unsolved.2 ⟨found, (hother otherKind hne).trans hfound, hfinal⟩
    · intro other otherKind quantifier' name' final _ hne heq
      obtain ⟨found, hfound, hfinal⟩ := Ty.substitute_eq_var.1 heq
      exact Ty.substitute_eq_var.2 ⟨found, (hother otherKind hne).trans hfound, hfinal⟩
    · exact fun other _ _ hlone' => hlonely other (.inl hlone')
    · rintro _ ⟨quantifier', name', kind', rfl, -⟩ hself'
      rcases hfind (.var quantifier' name' kind') with ⟨heq, -⟩ | ⟨-, heq⟩
      · cases Ty.plainShape.unknown_congr heq
      · exact heq.trans hself'
  have hclosed := hunion.orderly.closeSolutions fun _ => False
  refine ⟨hunion.trans hclosed fun _ _ hfalse => hfalse.elim, ?_, ?_⟩
  · exact hclosed.lone id hid not_false (hlonely id (.inr rfl))
  · refine hclosed.settled id kind quantifier name binderKind hid not_false ?_
    rcases hfind (.unsolved id kind) with ⟨-, heq⟩ | ⟨hne, -⟩
    · exact Ty.substitute_eq_var.2 ⟨binderKind, heq, hkind⟩
    · rw [Ty.unsolved_beq.2 rfl] at hne
      cases hne

end Solve

/-! ## Dropping variables -/

/-- A variable that represents nothing else can be removed. -/
theorem Orderly.remove (h : s.Orderly) {id : Nat} (hlone : s.Lone id) {pick : Ty → Ty → Ty}
    (hpick : Ty.plainShape.Picks pick) :
    MovesBy (· = id) s { s with types := s.types.remove (.unsolved id .type) pick } ∧
      ∀ other, s.Lone other →
        Lone { s with types := s.types.remove (.unsolved id .type) pick } other := by
  have hvariable : Ty.plainShape.unknown (.unsolved id .type) = true := rfl
  have hfind : ∀ type, (type == .unsolved id .type) = true ∧
        (s.types.remove (.unsolved id .type) pick).find type = type ∨
      (s.types.remove (.unsolved id .type) pick).find type = s.types.find type := by
    intro type
    rcases h.sound.find_remove hpick hvariable type with heq | hself | ⟨hrep, -, -, -⟩
    · exact .inr heq
    · exact .inl hself
    · have hself := hlone type hrep
      have habsent := classOf?_remove_self h.sound.distinct pick hself
      exact .inl ⟨hself, find_of_absent habsent⟩
  have hother : ∀ {other} (kind : Kind), other ≠ id →
      (s.types.remove (.unsolved id .type) pick).find (.unsolved other kind) =
        s.types.find (.unsolved other kind) := by
    intro other kind hne
    rcases hfind (.unsolved other kind) with ⟨heq, -⟩ | heq
    · exact (hne (Ty.unsolved_beq.1 heq)).elim
    · exact heq
  have hlonely : ∀ other, s.Lone other → ∀ type,
      ((s.types.remove (.unsolved id .type) pick).find type == .unsolved other .type) = true →
        (type == .unsolved other .type) = true := by
    intro other hlone' type heq
    rcases hfind type with ⟨-, hself⟩ | hsame
    · rwa [hself] at heq
    · exact hlone' type (hsame ▸ heq)
  refine ⟨⟨⟨h.acyclic, h.sound.remove hpick hvariable⟩, Nat.le_refl _, fun _ => rfl, ?_, ?_,
    fun other _ _ => hlonely other, ?_⟩, hlonely⟩
  · intro other kind final finalKind _ hne heq
    obtain ⟨found, hfound, hfinal⟩ := Ty.substitute_eq_unsolved.1 heq
    exact Ty.substitute_eq_unsolved.2 ⟨found, (hother kind hne).trans hfound, hfinal⟩
  · intro other kind quantifier name final _ hne heq
    obtain ⟨found, hfound, hfinal⟩ := Ty.substitute_eq_var.1 heq
    exact Ty.substitute_eq_var.2 ⟨found, (hother kind hne).trans hfound, hfinal⟩
  · rintro _ ⟨quantifier, name, kind, rfl, -⟩ hself
    rcases hfind (.var quantifier name kind) with ⟨heq, -⟩ | heq
    · cases Ty.plainShape.unknown_congr heq
    · exact heq.trans hself

theorem Orderly.removeAll (h : s.Orderly) {ids : List Nat} (htouched : ∀ id ∈ ids, touched id)
    (hlone : ∀ id ∈ ids, s.Lone id) {pick : Ty → Ty → Ty} (hpick : Ty.plainShape.Picks pick) :
    MovesBy touched s { s with
      types := ids.foldl (fun types id => types.remove (.unsolved id .type) pick) s.types } := by
  induction ids generalizing s with
  | nil => exact .of_eq h rfl rfl rfl
  | cons id rest ih =>
    obtain ⟨hmoves, hlonely⟩ := h.remove (hlone id List.mem_cons_self) hpick
    have htouches : ∀ other, other < s.nextType → other = id → touched other := by
      rintro _ - rfl
      exact htouched _ List.mem_cons_self
    have hrest := ih hmoves.orderly (fun other hother =>
        htouched other (List.mem_cons_of_mem _ hother))
      fun other hother => hlonely other (hlone other (List.mem_cons_of_mem _ hother))
    exact (hmoves.mono htouches).trans hrest fun _ _ htouched => htouched

theorem Orderly.forget (h : s.Orderly) {frame : Frame (Located Attributes)}
    (hkinds : frame.unsolvedKinds = []) (hlone : ∀ id ∈ frame.unsolvedTypes, s.Lone id) :
    MovesBy (· ∈ frame.unsolvedTypes) s (s.forget frame) := by
  have hremoved := h.removeAll (fun _ hid => hid) hlone
    (Ty.picks_plain s.stack.outermostFirst)
  rw [Store.forget, hkinds]
  exact hremoved

end Store

namespace Solve

open Store

variable {s : Store} {touched : Nat → Prop} {inv : Store → Prop}

/-- The run answers yes and keeps the invariant and the frames. -/
def Agrees (inv : Store → Prop) (touched : Nat → Prop) (s : Store) (run : Solve Bool) : Prop :=
  ∃ s', run s = .ok true s' ∧ inv s' ∧ s'.stack = s.stack ∧ MovesBy touched s s'

namespace Agrees

theorem pure (h : s.Orderly) (hinv : inv s) : Agrees inv touched s (Pure.pure true) :=
  ⟨s, rfl, hinv, rfl, .of_eq h rfl rfl rfl⟩

theorem bind {first : Solve Bool} {next : Bool → Solve Bool} (hfirst : Agrees inv touched s first)
    (hnext : ∀ s', inv s' → s'.Orderly → s'.stack = s.stack → MovesBy touched s s' →
      Agrees inv touched s' (next true)) : Agrees inv touched s (first >>= next) := by
  obtain ⟨s', hrun, hinv', hstack, hmoves⟩ := hfirst
  obtain ⟨s'', hrun', hinv'', hstack', hmoves'⟩ := hnext s' hinv' hmoves.orderly hstack hmoves
  exact ⟨s'', (Run.ok_bind hrun).trans hrun', hinv'', hstack'.trans hstack,
    hmoves.trans hmoves' fun _ _ htouched => htouched⟩

theorem substituteKind {kind : Kind} {next : Kind → Solve Bool}
    (h : Agrees inv touched s (next (s.substituteKind kind))) :
    Agrees inv touched s (Solve.substituteKind kind >>= next) := h

theorem substituteType {type : Ty} {next : Ty → Solve Bool}
    (h : Agrees inv touched s (next (s.substituteType type))) :
    Agrees inv touched s (Solve.substituteType type >>= next) := h

theorem allM {α : Type} {check : α → Solve Bool} {items : List α} (hs : s.Orderly) (hinv : inv s)
    (h : ∀ item ∈ items, ∀ s', s'.Orderly → inv s' → MovesBy touched s s' →
      Agrees inv touched s' (check item)) : Agrees inv touched s (items.allM check) := by
  have hall : ∀ s', s'.Orderly → inv s' → MovesBy touched s s' →
      Agrees inv touched s' (items.allM check) := by
    induction items with
    | nil => exact fun s' hs' hinv' _ => .pure hs' hinv'
    | cons item rest ih =>
      intro s' hs' hinv' hmoves
      refine Agrees.bind (h item List.mem_cons_self s' hs' hinv' hmoves) ?_
      intro s'' hinv'' hs'' _ hmoves'
      exact ih (fun other hother => h other (List.mem_cons_of_mem _ hother)) s'' hs'' hinv''
        (hmoves.trans hmoves' fun _ _ htouched => htouched)
  exact hall s hs hinv (.of_eq hs rfl rfl rfl)

end Agrees

/-! ## Frames -/

/-- The store once a frame was pushed on its stack. -/
def pushed (s : Store) (frame : Frame (Located Attributes)) : Store :=
  { s with stack := s.stack.push frame }

/-- A body that leaves nothing behind in its frame but lone variables leaves nothing behind at
all. -/
theorem withScope_moves {kind : ScopeKind} (hdrops : kind.tag.dropsVariables = true)
    {body : Solve Bool} {answer : Bool} {s₁ : Store} {frame : Frame (Located Attributes)}
    (hrun : body (pushed s (.empty kind)) = .ok answer s₁) (hmoves : MovesBy touched s s₁)
    (hstack : s₁.stack = s.stack.push frame) (hkind : frame.kind = kind)
    (hkinds : frame.unsolvedKinds = [])
    (hlone : ∀ id ∈ frame.unsolvedTypes, s.nextType ≤ id ∧ id < s₁.nextType ∧ s₁.Lone id) :
    ∃ s', withScope kind body s = .ok answer s' ∧ s'.stack = s.stack ∧ MovesBy touched s s' ∧
      MovesBy (· ∈ frame.unsolvedTypes) s₁ s' := by
  have hclosed := hmoves.orderly.closeSolutions (· ∈ frame.unsolvedTypes)
  have hpop : Stack.pop kind.tag s₁.closeSolutions.stack = .ok frame s.stack := by
    have htag : frame.tag = kind.tag := congrArg ScopeKind.tag hkind
    exact hstack ▸ Stack.pop_eq_ok rfl htag
  have hpopped : MovesBy (· ∈ frame.unsolvedTypes) s₁ { s₁.closeSolutions with stack := s.stack } :=
    have hpop' : MovesBy (· ∈ frame.unsolvedTypes) s₁.closeSolutions
        { s₁.closeSolutions with stack := s.stack } := .of_eq hclosed.orderly rfl rfl rfl
    hclosed.trans hpop' fun _ _ hmem => hmem
  have hlonely : ∀ id ∈ frame.unsolvedTypes, Lone { s₁.closeSolutions with stack := s.stack } id :=
    fun id hid => (hmoves.orderly.closeSolutions fun _ =>
        False).lone id (hlone id hid).2.1 not_false
      (hlone id hid).2.2
  have hforget := hpopped.trans (hpopped.orderly.forget hkinds hlonely) fun _ _ hmem => hmem
  refine ⟨Store.forget { s₁.closeSolutions with stack := s.stack } frame, ?_, rfl, ?_, hforget⟩
  · have hclose : (modify Store.closeSolutions : Solve Unit) s₁ = .ok () s₁.closeSolutions := rfl
    have hrun' : popScope kind.tag s₁ =
        .ok frame (Store.forget { s₁.closeSolutions with stack := s.stack } frame) := by
      rw [popScope, if_pos hdrops]
      exact (Run.ok_bind hclose).trans ((Run.ok_bind (Run.within_ok hpop)).trans rfl)
    have hpush : pushScope kind s = .ok () (pushed s (.empty kind)) := rfl
    refine (Run.ok_bind hpush).trans ((Run.ok_bind hrun).trans ?_)
    exact (Run.ok_bind hrun').trans rfl
  · -- The dropped variables were not there before.
    exact hmoves.trans hforget fun id hid hmem => (Nat.not_lt.2 (hlone id hmem).1 hid).elim

/-! ## Kinds against themselves -/

theorem exists_of_mem_zip_self {α : Type} {items : List α} {pair : α × α}
    (h : pair ∈ items.zip items) : ∃ item ∈ items, pair = (item, item) := by
  rw [List.zip_eq_zipWith, List.zipWith_self, List.mem_map] at h
  obtain ⟨item, hitem, rfl⟩ := h
  exact ⟨item, hitem, rfl⟩

/-- A kind that is substituted by itself is a sub-kind of itself, and the check solves nothing. -/
theorem checkSubKindWithin_self (fuel : Nat) : ∀ {s : Store} {kind : Kind}, s.Orderly →
    s.substituteKind kind = kind → kind.weight ≤ fuel →
      Agrees (fun _ => True) (fun _ => False) s (checkSubKindWithin fuel kind kind) := by
  induction fuel with
  | zero =>
    intro s kind _ _ hle
    have hpos := kind.weight_pos
    omega
  | succ fuel ih =>
    intro s kind hs hself hle
    refine .substituteKind (.substituteKind ?_)
    rw [hself]
    cases kind with
    | type => exact .pure hs trivial
    | unsolved id =>
      dsimp only
      rw [if_pos rfl]
      exact .pure hs trivial
    | higher args result =>
      rw [Store.substituteKind, Kind.substitute, Kind.bind_higher] at hself
      injection hself with hargs hresult
      have hargs : ∀ arg ∈ args, s.substituteKind arg = arg :=
        List.map_inj_left.1 (hargs.trans (List.map_id' args).symm)
      rw [Kind.weight] at hle
      dsimp only
      rw [if_pos rfl]
      have hpushed : MovesBy (fun _ => False) s (pushed s (.empty .checkSubKind)) :=
        .of_eq hs rfl rfl rfl
      obtain ⟨s₁, hrun, -, hstack, hmoves⟩ :
          Agrees (fun _ => True) (fun _ => False) (pushed s (.empty .checkSubKind)) (do
            let matched ← (args.zip args).allM fun pair => checkSubKindWithin fuel pair.2 pair.1
            if matched then checkSubKindWithin fuel result result else Pure.pure false) := by
        refine .bind (.allM hpushed.orderly trivial fun pair hpair s' hs' _ hmoves => ?_)
          fun s' _ hs' _ hmoves => ?_
        · obtain ⟨arg, harg, rfl⟩ := exists_of_mem_zip_self hpair
          have hweight := Kind.weight_le_weightList harg
          exact ih hs' ((hmoves.kinds arg).trans (hargs arg harg)) (by dsimp only; omega)
        · exact ih hs' ((hmoves.kinds result).trans hresult) (by omega)
      obtain ⟨s', hrun', hstack', hmoves', -⟩ := withScope_moves rfl hrun
        (hpushed.trans hmoves fun _ _ hfalse => hfalse) hstack rfl rfl fun _ hmem => by cases hmem
      exact ⟨s', hrun', trivial, hstack', hmoves'⟩

theorem checkSubKind_self {kind : Kind} (hs : s.Orderly) (hself : s.substituteKind kind = kind) :
    Agrees (fun _ => True) (fun _ => False) s (checkSubKind kind kind) := by
  have hfuel : ∃ fuel, kindFuel [kind, kind] s = .ok fuel s ∧ kind.weight ≤ fuel := by
    refine ⟨_, rfl, ?_⟩
    rw [total_append, total_cons]
    exact Nat.le_trans (by omega) (Nat.le_mul_self _)
  obtain ⟨fuel, hrun, hle⟩ := hfuel
  obtain ⟨s', hrun', hrest⟩ := checkSubKindWithin_self fuel hs hself hle
  exact ⟨s', (Run.ok_bind hrun).trans hrun', hrest⟩

end Solve

end PolyFront
