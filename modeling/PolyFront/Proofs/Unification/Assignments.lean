import PolyFront.Proofs.Unification.Instantiation

/-!
# Assignments and refinement

An assignment satisfies the recorded solutions when it gives every variable the value of its
solution, or, what is the same, of its expansion.  One store refines another when its solutions
absorb the earlier ones; what satisfies the later solutions then satisfies the earlier ones.

All parts of expansions that are no variables are, up to substitution, parts of the kinds that were
there at the start.  No path through a substituted kind is longer than these are many.
-/

namespace PolyFront

namespace Store

variable {s s' s'' : Store} {known : List Kind}

/-! ## Assignments -/

/-- The assignment gives every variable the value of its recorded solution. -/
def Satisfied (s : Store) (assignment : Nat → Kind) : Prop :=
  ∀ id, assignment id = (s.kinds.find (.unsolved id)).bind assignment

theorem Sound.satisfied_iff (h : s.Sound) {assignment : Nat → Kind} :
    s.Satisfied assignment ↔ ∀ id, assignment id = (s.expansion id).bind assignment := by
  have hwell := h.kinds.wellFounded
  refine ⟨fun hsatisfied id => ?_, fun hexpansion id => ?_⟩
  · induction id using hwell.induction with
    | h id ih =>
      by_cases hfinal : s.kinds.find (.unsolved id) = .unsolved id
      · have hself : s.expansion id = .unsolved id :=
          h.final_iff_expansion.1 (Kind.final_iff.2 hfinal)
        rw [hself, Kind.bind_unsolved]
      · have hsubstitute : s.expansion id = (s.kinds.find (.unsolved id)).bind s.expansion := by
          rw [← substituteKind_eq_bind]
          exact (Kind.substitute_find hwell id).symm
        rw [hsubstitute, Kind.bind_bind, hsatisfied id]
        refine Kind.bind_congr fun inner hinner => ?_
        exact ih inner ⟨fun hself => hfinal (Kind.final_iff.1 hself), hinner⟩
  · have hsubstitute : (s.kinds.find (.unsolved id)).bind s.expansion = s.expansion id := by
      rw [← substituteKind_eq_bind]
      exact Kind.substitute_find hwell id
    rw [hexpansion id, ← hsubstitute, Kind.bind_bind]
    exact Kind.bind_congr fun inner _ => (hexpansion inner).symm

/-- The value of a kind is that of its substitution. -/
theorem Satisfied.bind_substituteKind {assignment : Nat → Kind}
    (hsatisfied : s.Satisfied assignment) (h : s.Sound) (kind : Kind) :
    (s.substituteKind kind).bind assignment = kind.bind assignment := by
  rw [substituteKind_eq_bind, Kind.bind_bind]
  exact Kind.bind_congr fun id _ => (h.satisfied_iff.1 hsatisfied id).symm

theorem Sound.bind_expansion (h : s.Sound) (kind : Kind) :
    (kind.bind s.expansion).bind s.expansion = kind.bind s.expansion :=
  Kind.bind_self fun _ hv => h.expansion_of_mem hv

/-- The expansions are an assignment that satisfies the solutions. -/
theorem Sound.satisfied_expansion (h : s.Sound) : s.Satisfied s.expansion :=
  h.satisfied_iff.2 fun id => (h.bind_expansion (.unsolved id)).symm

/-! ## Refinement -/

/-- Solutions were found that absorb the earlier ones. -/
structure Refines (s s' : Store) : Prop where
  tidy : s'.Tidy
  stack : s'.stack = s.stack
  created : s.nextKind ≤ s'.nextKind
  absorbs : ∀ id, (s.expansion id).bind s'.expansion = s'.expansion id

theorem Tidy.refines (h : s.Tidy) : Refines s s where
  tidy := h
  stack := rfl
  created := Nat.le_refl _
  absorbs id := h.sound.bind_expansion (.unsolved id)

theorem Refines.bind (h : Refines s s') (kind : Kind) :
    (kind.bind s.expansion).bind s'.expansion = kind.bind s'.expansion := by
  rw [Kind.bind_bind]
  exact Kind.bind_congr fun id _ => h.absorbs id

theorem Refines.trans (h : Refines s s') (h' : Refines s' s'') : Refines s s'' where
  tidy := h'.tidy
  stack := h'.stack.trans h.stack
  created := Nat.le_trans h.created h'.created
  absorbs id := by rw [← h'.bind (s.expansion id), h.absorbs, h'.absorbs]

theorem Refines.live (h : Refines s s') {kind : Kind} (hkind : s.Live kind) : s'.Live kind := by
  intro id hid
  rw [Registered, h.stack]
  exact hkind id hid

theorem Rewrites.refines {τ : Nat → Kind} (h : Rewrites τ s s') (hs : s.Tidy) : Refines s s' where
  tidy := h.tidy
  stack := h.stack
  created := h.created
  absorbs id := by
    rw [h.expansion id]
    refine Kind.bind_congr fun v hv => ?_
    have hmem : v ∈ (Kind.bind s.expansion (.unsolved id)).unknowns := hv
    have hself := hs.sound.expansion_of_mem hmem
    rw [h.expansion, hself, Kind.bind_unsolved]

/-- What satisfies the later solutions satisfies the earlier ones. -/
theorem Refines.satisfied (h : Refines s s') (hs : s.Tidy) {assignment : Nat → Kind}
    (hsatisfied : s'.Satisfied assignment) : s.Satisfied assignment := by
  have hlater := h.tidy.sound.satisfied_iff.1 hsatisfied
  refine hs.sound.satisfied_iff.2 fun id => ?_
  rw [hlater, ← h.absorbs, Kind.bind_bind]
  exact Kind.bind_congr fun v _ => (hlater v).symm

/-! ## Bounds on paths -/

/-- Every part of an expansion that is no variable comes from a known kind. -/
def Generated (known : List Kind) (s : Store) : Prop :=
  ∀ id depth part, Kind.At depth part (s.expansion id) → part.isUnsolved = false →
    ∃ origin ∈ known, part = origin.bind s.expansion

/-- The kind stands, up to substitution, that deep in a kind of which all parts are known. -/
def Stands (known : List Kind) (s : Store) (depth : Nat) (kind : Kind) : Prop :=
  ∃ root : Kind, (∀ below part, Kind.At below part root → part ∈ known) ∧
    Kind.At depth (kind.bind s.expansion) (root.bind s.expansion)

theorem Generated.origin (h : Generated known s) {depth below : Nat} {kind part : Kind}
    (hstands : Stands known s depth kind) (hat : Kind.At below part (kind.bind s.expansion))
    (hsolid : part.isUnsolved = false) : ∃ origin ∈ known, part = origin.bind s.expansion := by
  obtain ⟨root, hroot, hkind⟩ := hstands
  rcases Kind.at_bind (hkind.trans hat) with ⟨origin, horigin, -, heq⟩ | ⟨id, -, inner, hinner⟩
  · exact ⟨origin, hroot _ _ horigin, heq⟩
  · exact h id inner part hinner hsolid

/-- No path is longer than the known kinds are many. -/
theorem Generated.depth_le (h : Generated known s) {depth below : Nat} {kind part : Kind}
    (hstands : Stands known s depth kind) (hat : Kind.At below part (kind.bind s.expansion)) :
    depth + below ≤ known.length := by
  obtain ⟨root, hroot, hkind⟩ := hstands
  have hself : Stands known s 0 root := ⟨root, hroot, .root _⟩
  rw [← List.length_map (Kind.bind s.expansion)]
  refine (hkind.trans hat).depth_le fun inner solid hinner hsolid => ?_
  obtain ⟨origin, horigin, rfl⟩ := h.origin hself hinner hsolid
  exact List.mem_map_of_mem horigin

theorem Stands.refines {depth : Nat} {kind : Kind} (hstands : Stands known s depth kind)
    (h : Refines s s') : Stands known s' depth kind := by
  obtain ⟨root, hroot, hkind⟩ := hstands
  refine ⟨root, hroot, ?_⟩
  rw [← h.bind kind, ← h.bind root]
  exact hkind.bind s'.expansion

/-- A part of a substituted kind stands deeper. -/
theorem Stands.part {depth below : Nat} {kind part : Kind} (hstands : Stands known s depth kind)
    (hs : s.Sound) (hat : Kind.At below part (s.substituteKind kind)) :
    Stands known s (depth + below) part := by
  obtain ⟨root, hroot, hkind⟩ := hstands
  rw [substituteKind_eq_bind] at hat
  have hself : part.bind s.expansion = part :=
    Kind.bind_self fun _ hv => hs.expansion_of_mem (hat.unknowns_subset hv)
  refine ⟨root, hroot, ?_⟩
  rw [hself]
  exact hkind.trans hat

/-- Replacing a variable by a kind whose parts come from known ones. -/
theorem Generated.rewrites (h : Generated known s) {id : Nat} {kind : Kind}
    (hrewrites : Rewrites (Kind.single id kind) s s') (hid : id ∉ kind.unknowns)
    (hkind : ∀ below part, Kind.At below part kind → part.isUnsolved = false →
      ∃ origin ∈ known, part = origin.bind s.expansion) : Generated known s' := by
  intro v depth part hat hsolid
  have hafter : ∀ origin : Kind, (origin.bind s.expansion).bind (Kind.single id kind) =
      origin.bind s'.expansion := by
    intro origin
    rw [Kind.bind_bind]
    exact Kind.bind_congr fun w _ => (hrewrites.expansion w).symm
  rw [hrewrites.expansion] at hat
  rcases Kind.at_bind hat with ⟨inner, hinner, hinnerSolid, rfl⟩ | ⟨w, -, below, hbelow⟩
  · obtain ⟨origin, horigin, rfl⟩ := h v depth inner hinner hinnerSolid
    exact ⟨origin, horigin, hafter origin⟩
  · by_cases hw : w = id
    · rw [hw, Kind.single_self] at hbelow
      obtain ⟨origin, horigin, heq⟩ := hkind below part hbelow hsolid
      refine ⟨origin, horigin, ?_⟩
      rw [← hafter, ← heq]
      refine (Kind.bind_single_of_not_mem (fun hmem => hid ?_) kind).symm
      exact hbelow.unknowns_subset hmem
    · rw [Kind.single_of_ne hw] at hbelow
      cases hbelow
      cases hsolid

end Store

end PolyFront
