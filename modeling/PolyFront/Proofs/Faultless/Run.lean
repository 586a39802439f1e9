import PolyFront.Scope.Stack

/-!
# Runs without faults

A run keeps an invariant when, from every state that satisfies it, the run ends without a
fault in a state that satisfies it again.  The rules below follow the way runs are put
together, so that a function is shown to be free of faults by the shape of its definition.

The invariants of interest fix the constructs that are on a stack of frames: whatever is
pushed is popped again by the construct that pushed it.
-/

namespace PolyFront

namespace Run

variable {σ τ α β : Type}

/-- What comes after a run that ends without a fault starts where it ends. -/
theorem ok_bind {run : Run σ α} {next : α → Run σ β} {s t : σ} {a : α}
    (h : run s = .ok a t) : (run >>= next) s = next a t := by
  show EStateM.bind run next s = _
  rw [EStateM.bind, h]

theorem within_ok {part : σ → τ} {update : τ → σ → σ} {run : Run τ α} {s : σ} {t : τ} {a : α}
    (h : run (part s) = .ok a t) : within part update run s = .ok a (update t s) := by
  rw [within, h]

/-- From every state that satisfies the invariant the run ends in such a state, with a result
that satisfies the condition. -/
def Keeps (inv : σ → Prop) (run : Run σ α) (good : α → Prop) : Prop :=
  ∀ s, inv s → ∃ a s', run s = .ok a s' ∧ inv s' ∧ good a

variable {inv : σ → Prop}

theorem Keeps.pure {good : α → Prop} {a : α} (h : good a) :
    Keeps inv (Pure.pure a : Run σ α) good :=
  fun s hs => ⟨a, s, rfl, hs, h⟩

theorem Keeps.bind {mid : α → Prop} {good : β → Prop} {run : Run σ α} {next : α → Run σ β}
    (hrun : Keeps inv run mid) (hnext : ∀ a, mid a → Keeps inv (next a) good) :
    Keeps inv (run >>= next) good := by
  intro s hs
  obtain ⟨a, s₁, hok, hs₁, ha⟩ := hrun s hs
  obtain ⟨b, s₂, hok₂, hs₂, hb⟩ := hnext a ha s₁ hs₁
  exact ⟨b, s₂, (ok_bind hok).trans hok₂, hs₂, hb⟩

theorem Keeps.mono {good good' : α → Prop} {run : Run σ α} (h : Keeps inv run good)
    (himp : ∀ a, good a → good' a) : Keeps inv run good' := by
  intro s hs
  obtain ⟨a, s', hok, hs', ha⟩ := h s hs
  exact ⟨a, s', hok, hs', himp a ha⟩

/-- A run of which nothing but the absence of faults is asked. -/
theorem Keeps.trivial {good : α → Prop} {run : Run σ α} (h : Keeps inv run good) :
    Keeps inv run fun _ => True :=
  h.mono fun _ _ => True.intro

theorem Keeps.get : Keeps inv (MonadState.get : Run σ σ) inv :=
  fun s hs => ⟨s, s, rfl, hs, hs⟩

theorem Keeps.set {s' : σ} (h : inv s') :
    Keeps inv (MonadStateOf.set s' : Run σ PUnit) fun _ => True :=
  fun _ _ => ⟨_, s', rfl, h, True.intro⟩

theorem Keeps.modify {f : σ → σ} (h : ∀ s, inv s → inv (f s)) :
    Keeps inv (modify f : Run σ PUnit) fun _ => True :=
  fun s hs => ⟨_, f s, rfl, h s hs, True.intro⟩

theorem Keeps.ite {c : Prop} [Decidable c] {good : α → Prop} {run run' : Run σ α}
    (hrun : c → Keeps inv run good) (hrun' : ¬c → Keeps inv run' good) :
    Keeps inv (if c then run else run') good := by
  split
  · exact hrun ‹_›
  · exact hrun' ‹_›

/-- An action that is done only under a condition. -/
theorem Keeps.when {c : Prop} [Decidable c] {run : Run σ PUnit}
    (hrun : Keeps inv run fun _ => True) :
    Keeps inv (if c then run else Pure.pure PUnit.unit) fun _ => True :=
  Keeps.ite (fun _ => hrun) fun _ => Keeps.pure True.intro

/-- An action that is done only under a condition, before the rest of a run. -/
theorem Keeps.whenThen {c : Prop} [Decidable c] {good : α → Prop} {run : Run σ PUnit}
    {rest : Run σ α} (hrun : Keeps inv run fun _ => True) (hrest : Keeps inv rest good) :
    Keeps inv (if c then (run >>= fun _ => rest) else rest) good :=
  Keeps.ite (fun _ => Keeps.bind hrun fun _ _ => hrest) fun _ => hrest

theorem Keeps.mapM {f : α → Run σ β} {good : β → Prop} {items : List α}
    (h : ∀ item ∈ items, Keeps inv (f item) good) :
    Keeps inv (items.mapM f) fun results => ∀ result ∈ results, good result := by
  induction items with
  | nil => exact Keeps.pure (by simp)
  | cons item rest ih =>
    rw [List.mapM_cons]
    refine Keeps.bind (h item List.mem_cons_self) fun b hb => ?_
    refine Keeps.bind (ih fun other hother => h other (List.mem_cons_of_mem _ hother)) ?_
    intro bs hbs
    refine Keeps.pure fun result hresult => ?_
    rcases List.mem_cons.1 hresult with rfl | hmem
    · exact hb
    · exact hbs result hmem

theorem Keeps.mapM_trivial {f : α → Run σ β} {items : List α}
    (h : ∀ item ∈ items, Keeps inv (f item) fun _ => True) :
    Keeps inv (items.mapM f) fun _ => True :=
  (Keeps.mapM h).trivial

theorem Keeps.forM {f : α → Run σ PUnit} {items : List α}
    (h : ∀ item ∈ items, Keeps inv (f item) fun _ => True) :
    Keeps inv (items.forM f) fun _ => True := by
  induction items with
  | nil => exact Keeps.pure True.intro
  | cons item rest ih =>
    refine Keeps.bind (h item List.mem_cons_self) fun _ _ => ?_
    exact ih fun other hother => h other (List.mem_cons_of_mem _ hother)

theorem Keeps.foldlM {f : β → α → Run σ β} {good : β → Prop} {items : List α} {start : β}
    (hstart : good start)
    (h : ∀ b, good b → ∀ item ∈ items, Keeps inv (f b item) good) :
    Keeps inv (items.foldlM f start) good := by
  induction items generalizing start with
  | nil => exact Keeps.pure hstart
  | cons item rest ih =>
    rw [List.foldlM_cons]
    refine Keeps.bind (h start hstart item List.mem_cons_self) fun b hb => ?_
    exact ih hb fun b' hb' other hother => h b' hb' other (List.mem_cons_of_mem _ hother)

theorem Keeps.allM {f : α → Run σ Bool} {items : List α}
    (h : ∀ item ∈ items, Keeps inv (f item) fun _ => True) :
    Keeps inv (items.allM f) fun _ => True := by
  induction items with
  | nil => exact Keeps.pure True.intro
  | cons item rest ih =>
    refine Keeps.bind (h item List.mem_cons_self) fun b _ => ?_
    cases b with
    | true => exact ih fun other hother => h other (List.mem_cons_of_mem _ hother)
    | false => exact Keeps.pure True.intro

theorem Keeps.anyM {f : α → Run σ Bool} {items : List α}
    (h : ∀ item ∈ items, Keeps inv (f item) fun _ => True) :
    Keeps inv (items.anyM f) fun _ => True := by
  induction items with
  | nil => exact Keeps.pure True.intro
  | cons item rest ih =>
    refine Keeps.bind (h item List.mem_cons_self) fun b _ => ?_
    cases b with
    | true => exact Keeps.pure True.intro
    | false => exact ih fun other hother => h other (List.mem_cons_of_mem _ hother)

/-- A run on a part of the state keeps what it keeps of that part. -/
theorem Keeps.within {part : σ → τ} {update : τ → σ → σ} {partInv : τ → Prop}
    {good : α → Prop} {run : Run τ α} (h : Keeps partInv run good)
    (hpart : ∀ s, inv s → partInv (part s))
    (hupdate : ∀ s t, inv s → partInv t → inv (update t s)) :
    Keeps inv (Run.within part update run) good := by
  intro s hs
  obtain ⟨a, t, hok, ht, ha⟩ := h (part s) (hpart s hs)
  refine ⟨a, update t s, ?_, hupdate s t hs ht, ha⟩
  simp only [Run.within, hok]

end Run

namespace Stack

variable {α : Type}

/-- The constructs on a stack, innermost first. -/
def shape (stack : Stack α) : List ScopeKind := stack.frames.map Frame.kind

@[simp]
theorem shape_push (stack : Stack α) (frame : Frame α) :
    (stack.push frame).shape = frame.kind :: stack.shape := rfl

theorem depth_eq_length_shape (stack : Stack α) : stack.depth = stack.shape.length := by
  simp [depth, shape]

theorem exists_frames_of_shape_eq_cons {stack : Stack α} {kind : ScopeKind}
    {shape : List ScopeKind} (h : stack.shape = kind :: shape) :
    ∃ frame rest, stack.frames = frame :: rest ∧ frame.kind = kind ∧
      rest.map Frame.kind = shape :=
  List.map_eq_cons_iff.1 h

/-- A stack whose innermost construct is the expected one is popped without a fault. -/
theorem pop_eq_ok {stack : Stack α} {frame : Frame α} {rest : List (Frame α)}
    {expected : ScopeTag} (hframes : stack.frames = frame :: rest)
    (htag : frame.tag = expected) :
    Stack.pop expected stack = .ok frame { stack with frames := rest } := by
  obtain ⟨frames, builtIns⟩ := stack
  obtain rfl : frames = frame :: rest := hframes
  subst htag
  exact congrFun (if_pos rfl) (⟨rest, builtIns⟩ : Stack α)

end Stack

end PolyFront
