import PolyFront.Checking.Checker
import PolyFront.Proofs.Grounding.Holes

/-!
# Runs that keep the world in order

A run yields results that are good when it leads, from every later world in which no kind is shown,
to one in order in which its result is good.  What is good once is good later, so that the rules
follow the way runs are put together.  Some runs are for frames of certain constructs only.
-/

namespace PolyFront

namespace World

/-- The world is in order, no kind is shown, and its frames are among those of the constructs. -/
structure Calm (among : ScopeTag → Prop) (w : World) : Prop extends w.Kept where
  hidden : w.shown = []
  scopes : ∀ frame ∈ w.store.stack.frames, among frame.tag

variable {among : ScopeTag → Prop} {w w' : World}

theorem Calm.steps (h : w.Calm among) (hsteps : Steps [] w w') : w'.Calm among where
  toKept := hsteps.kept
  hidden := by rw [hsteps.shown, h.hidden]; rfl
  scopes := by
    cases hframes : w.store.stack.frames with
    | nil => exact (h.nonempty hframes).elim
    | cons frame rest =>
      obtain ⟨frame', hframes', htag, -⟩ := hsteps.stack.frames hframes
      have hold := h.scopes
      rw [hframes] at hold
      rw [hframes']
      intro other hother
      rcases List.mem_cons.1 hother with rfl | hother
      · rw [htag]
        exact hold frame List.mem_cons_self
      · exact hold other (List.mem_cons_of_mem _ hother)

theorem Calm.pushed (h : w.Calm among) (kind : ScopeKind) :
    (w.pushed kind).Calm (fun tag => among tag ∨ tag = kind.tag) where
  toKept := h.toKept.pushed kind
  hidden := h.hidden
  scopes := by
    intro frame hframe
    rcases List.mem_cons.1 hframe with rfl | hframe
    · exact .inr rfl
    · exact .inl (h.scopes frame hframe)

end World

namespace Run

open World

variable {σ α β : Type} {view : σ → Store} {among : ScopeTag → Prop} {w : World}
  {good : World → α → Prop}

/-- From every later world that is calm the run leads to one in which its result is good. -/
def Yields (view : σ → Store) (among : ScopeTag → Prop) (w : World) (run : Run σ α)
    (good : World → α → Prop) : Prop :=
  ∀ (w₁ : World) (s : σ), Later w w₁ → w₁.Calm among → view s = w₁.store →
    Ends run s fun a s' => ∃ w₂, w₂.store = view s' ∧ Steps [] w₁ w₂ ∧ good w₂ a

theorem Yields.pure {a : α} (h : ∀ w', Later w w' → good w' a) :
    Yields view among w (Pure.pure a : Run σ α) good :=
  fun w₁ _ hlater hcalm hs => Ends.pure ⟨w₁, hs.symm, hcalm.toKept.steps, h w₁ hlater⟩

theorem Yields.throw (fault : Fault) :
    Yields view among w (MonadExcept.throw fault : Run σ α) good := by
  intro _ _ _ _ _ _ _ hrun
  cases hrun

theorem Yields.bind {run : Run σ α} {next : α → Run σ β} {good' : World → β → Prop}
    (hrun : Yields view among w run good)
    (hnext : ∀ w' a, Later w w' → good w' a → Yields view among w' (next a) good') :
    Yields view among w (run >>= next) good' := by
  intro w₁ s hlater hcalm hs
  refine Ends.bind ((hrun w₁ s hlater hcalm hs).mono ?_)
  rintro a s₁ ⟨w₂, hs₁, hsteps, ha⟩
  refine (hnext w₂ a (hlater.trans hsteps.toLater) ha w₂ s₁ (.refl w₂) (hcalm.steps hsteps)
    hs₁.symm).mono ?_
  rintro b s₂ ⟨w₃, hs₂, hsteps', hb⟩
  exact ⟨w₃, hs₂, hsteps.trans hsteps', hb⟩

theorem Yields.mono {good' : World → α → Prop} {run : Run σ α} (h : Yields view among w run good)
    (himp : ∀ w' a, Later w w' → good w' a → good' w' a) : Yields view among w run good' := by
  intro w₁ s hlater hcalm hs
  refine (h w₁ s hlater hcalm hs).mono ?_
  rintro a s' ⟨w₂, hs', hsteps, ha⟩
  exact ⟨w₂, hs', hsteps, himp w₂ a (hlater.trans hsteps.toLater) ha⟩

/-- A run may start later. -/
theorem Yields.later {w' : World} {run : Run σ α} (h : Yields view among w run good)
    (hlater : Later w w') : Yields view among w' run good :=
  fun w₁ s hlater' => h w₁ s (hlater.trans hlater')

/-- The next step looks at the state. -/
theorem Yields.get {next : σ → Run σ α}
    (h : ∀ w₁ s, Later w w₁ → w₁.Calm among → view s = w₁.store →
      Yields view among w₁ (next s) good) :
    Yields view among w (MonadState.get >>= next) good := fun w₁ s hlater hcalm hs =>
  Ends.bind (Ends.get (h w₁ s hlater hcalm hs w₁ s (.refl w₁) hcalm hs))

/-- The store is left as it is. -/
theorem Yields.modify {f : σ → σ} (h : ∀ s, view (f s) = view s) :
    Yields view among w (modify f : Run σ PUnit) fun _ _ => True := fun w₁ s _ hcalm hs =>
  Ends.modify ⟨w₁, by rw [h, hs], hcalm.toKept.steps, True.intro⟩

theorem Yields.ite {c : Prop} [Decidable c] {run run' : Run σ α}
    (hrun : c → Yields view among w run good) (hrun' : ¬c → Yields view among w run' good) :
    Yields view among w (if c then run else run') good := by
  split
  · exact hrun ‹_›
  · exact hrun' ‹_›

/-- An action that is done only under a condition. -/
theorem Yields.when {c : Prop} [Decidable c] {run : Run σ PUnit}
    (hrun : Yields view among w run fun _ _ => True) :
    Yields view among w (if c then run else Pure.pure PUnit.unit) fun _ _ => True :=
  Yields.ite (fun _ => hrun) fun _ => Yields.pure fun _ _ => True.intro

/-- An action that is done only under a condition, before the rest of a run. -/
theorem Yields.whenThen {c : Prop} [Decidable c] {run : Run σ PUnit} {rest : Run σ α}
    (hrun : Yields view among w run fun _ _ => True) (hrest : Yields view among w rest good) :
    Yields view among w (if c then (run >>= fun _ => rest) else rest) good :=
  Yields.ite (fun _ => hrun.bind fun _ _ hlater _ => hrest.later hlater) fun _ => hrest

/-- What is good once is good later. -/
def Stays (good : World → β → Prop) : Prop := ∀ ⦃w w' b⦄, Later w w' → good w b → good w' b

theorem Stays.const (good : β → Prop) : Stays fun _ b => good b := fun _ _ _ _ h => h

theorem stays_fits : Stays fun w type => w.Fits type := fun _ _ _ hlater h => hlater.fits h

theorem Yields.mapM {f : α → Run σ β} {good : World → β → Prop} (hstays : Stays good)
    {items : List α} (h : ∀ item ∈ items, Yields view among w (f item) good) :
    Yields view among w (items.mapM f) fun w' results => ∀ result ∈ results, good w' result := by
  induction items generalizing w with
  | nil => exact Yields.pure fun _ _ _ hresult => (List.not_mem_nil hresult).elim
  | cons item rest ih =>
    rw [List.mapM_cons]
    refine (h item List.mem_cons_self).bind fun w₁ b hlater hb => ?_
    refine (ih fun other hother => (h other (List.mem_cons_of_mem _ hother)).later hlater).bind ?_
    intro w₂ bs hlater' hbs
    refine Yields.pure fun w₃ hlater'' result hresult => ?_
    rcases List.mem_cons.1 hresult with rfl | hresult
    · exact hstays (hlater'.trans hlater'') hb
    · exact hstays hlater'' (hbs result hresult)

theorem Yields.forM {f : α → Run σ PUnit} {items : List α}
    (h : ∀ item ∈ items, Yields view among w (f item) fun _ _ => True) :
    Yields view among w (items.forM f) fun _ _ => True := by
  induction items generalizing w with
  | nil => exact Yields.pure fun _ _ => True.intro
  | cons item rest ih =>
    refine (h item List.mem_cons_self).bind fun w₁ _ hlater _ => ?_
    exact ih fun other hother => (h other (List.mem_cons_of_mem _ hother)).later hlater

theorem Yields.allM {f : α → Run σ Bool} {items : List α}
    (h : ∀ item ∈ items, Yields view among w (f item) fun _ _ => True) :
    Yields view among w (items.allM f) fun _ _ => True := by
  induction items generalizing w with
  | nil => exact Yields.pure fun _ _ => True.intro
  | cons item rest ih =>
    refine (h item List.mem_cons_self).bind fun w₁ holds hlater _ => ?_
    cases holds with
    | true => exact ih fun other hother => (h other (List.mem_cons_of_mem _ hother)).later hlater
    | false => exact Yields.pure fun _ _ => True.intro

theorem Yields.anyM {f : α → Run σ Bool} {items : List α}
    (h : ∀ item ∈ items, Yields view among w (f item) fun _ _ => True) :
    Yields view among w (items.anyM f) fun _ _ => True := by
  induction items generalizing w with
  | nil => exact Yields.pure fun _ _ => True.intro
  | cons item rest ih =>
    refine (h item List.mem_cons_self).bind fun w₁ holds hlater _ => ?_
    cases holds with
    | true => exact Yields.pure fun _ _ => True.intro
    | false => exact ih fun other hother => (h other (List.mem_cons_of_mem _ hother)).later hlater

end Run

open Run World

/-- Work on the store leads to results that are good. -/
abbrev Solve.Yields {α : Type} (among : ScopeTag → Prop) (w : World) (run : Solve α)
    (good : World → α → Prop) : Prop := Run.Yields id among w run good

/-- Checking leads to results that are good. -/
abbrev Check.Yields {α : Type} (among : ScopeTag → Prop) (w : World) (run : Check α)
    (good : World → α → Prop) : Prop := Run.Yields Checker.store among w run good

section Lift

variable {α : Type} {among : ScopeTag → Prop} {w : World} {good : World → α → Prop}

theorem Solve.Yields.lift {run : Solve α} (h : Solve.Yields among w run good) :
    Check.Yields among w (liftM run : Check α) good := by
  intro w₁ c hlater hcalm hc
  exact Ends.within ((h w₁ c.store hlater hcalm hc).mono fun _ _ hpost => hpost)

/-- Work that is described where it starts. -/
theorem Solve.yields_of_ends {run : Solve α} (h : ∀ w₁, Later w w₁ → w₁.Calm among →
    Ends run w₁.store fun a s' => ∃ w₂, w₂.store = s' ∧ Steps [] w₁ w₂ ∧ good w₂ a) :
    Solve.Yields among w run good := by
  rintro w₁ _ hlater hcalm rfl
  exact h w₁ hlater hcalm

end Lift

/-! ## Frames -/

section Scope

variable {α : Type} {among : ScopeTag → Prop} {w : World} {good : World → α → Prop}
  {kind : ScopeKind}

theorem Solve.popScope_steps (kind : ScopeKind) {w w₁ : World} (hw : w.Kept)
    (h : Steps [] (w.pushed kind) w₁) :
    Ends (Solve.popScope kind.tag) w₁.store fun _ s' => ∃ w₂, w₂.store = s' ∧ Steps [] w w₂ ∧
      Later w₁ w₂ := by
  cases hdrops : kind.tag.dropsVariables with
  | true =>
    refine (popScope_left hdrops).mono ?_
    rintro frame _ ⟨rest, hframes, -, rfl⟩
    obtain ⟨hsteps, hlater, -, -⟩ := h.drop hw hdrops hframes
      (fun _ hother => (List.not_mem_nil hother).elim) (motive := fun _ => True) True.intro
      fun _ _ _ => True.intro
    exact ⟨_, rfl, hsteps, hlater⟩
  | false =>
    refine (popScope_handed hdrops).mono ?_
    rintro frame _ ⟨rest, hframes, -, rfl⟩
    obtain ⟨hsteps, hlater⟩ := h.handOn hw hframes
    exact ⟨_, rfl, hsteps, hlater⟩

theorem Solve.withScope_yields {body : Solve α} (hstays : Stays good)
    (hbody : Solve.Yields (fun tag => among tag ∨ tag = kind.tag) w body good) :
    Solve.Yields among w (Solve.withScope kind body) good := by
  rintro w₁ _ hlater hcalm rfl
  refine Ends.bind (Ends.modify (Ends.bind ((hbody (w₁.pushed kind) _
    (hlater.trans (w₁.later_pushed kind)) (hcalm.pushed kind) rfl).mono ?_)))
  rintro a _ ⟨w₂, rfl, hsteps, ha⟩
  refine Ends.bind ((popScope_steps _ hcalm.toKept hsteps).mono ?_)
  rintro _ _ ⟨w₃, rfl, hpopped, hlater'⟩
  exact Ends.pure ⟨w₃, rfl, hpopped, hstays hlater' ha⟩

theorem Check.withScope_yields {body : Check α} (hstays : Stays good)
    (hbody : Check.Yields (fun tag => among tag ∨ tag = kind.tag) w body good) :
    Check.Yields among w (Check.withScope kind body) good := by
  intro w₁ c hlater hcalm hc
  refine Ends.bind (Ends.within (Ends.modify (Ends.bind ((hbody (w₁.pushed kind) _
    (hlater.trans (w₁.later_pushed kind)) (hcalm.pushed kind) ?_).mono ?_))))
  · show c.store.pushed kind = _
    rw [hc]
    rfl
  rintro a c₂ ⟨w₂, hc₂, hsteps, ha⟩
  refine Ends.bind (Ends.within ?_)
  rw [← hc₂]
  refine (Solve.popScope_steps _ hcalm.toKept hsteps).mono ?_
  rintro _ _ ⟨w₃, rfl, hpopped, hlater'⟩
  exact Ends.pure ⟨w₃, rfl, hpopped, hstays hlater' ha⟩

end Scope

end PolyFront
