import PolyFront.Proofs.Solutions.Runs

/-!
# Runs that end alike

Two runs from one state end in the same state with the same result.  A recursion that is cut off
at some depth is not cut off at all where it ends alike for every larger depth.
-/

namespace PolyFront

namespace Run

variable {σ α β : Type} {s : σ}

/-- Both runs end without a fault and alike, and the condition holds there. -/
def Meets (run run' : Run σ α) (s : σ) (post : α → σ → Prop) : Prop :=
  ∃ a s', run s = .ok a s' ∧ run' s = .ok a s' ∧ post a s'

theorem Meets.pure {post : α → σ → Prop} {a : α} (h : post a s) :
    Meets (Pure.pure a : Run σ α) (Pure.pure a) s post :=
  ⟨a, s, rfl, rfl, h⟩

theorem Meets.bind {post : β → σ → Prop} {run run' : Run σ α} {next next' : α → Run σ β}
    (h : Meets run run' s fun a s' => Meets (next a) (next' a) s' post) :
    Meets (run >>= next) (run' >>= next') s post := by
  obtain ⟨a, s', hrun, hrun', b, s'', hnext, hnext', hpost⟩ := h
  refine ⟨b, s'', ?_, ?_, hpost⟩
  · change EStateM.bind run next s = _
    rw [EStateM.bind, hrun]
    exact hnext
  · change EStateM.bind run' next' s = _
    rw [EStateM.bind, hrun']
    exact hnext'

theorem Meets.mono {post post' : α → σ → Prop} {run run' : Run σ α} (h : Meets run run' s post)
    (himp : ∀ a s', post a s' → post' a s') : Meets run run' s post' := by
  obtain ⟨a, s', hrun, hrun', hpost⟩ := h
  exact ⟨a, s', hrun, hrun', himp a s' hpost⟩

theorem Meets.get {post : σ → σ → Prop} (h : post s s) :
    Meets (MonadState.get : Run σ σ) MonadState.get s post :=
  ⟨s, s, rfl, rfl, h⟩

theorem Meets.modify {post : PUnit → σ → Prop} {f : σ → σ} (h : post PUnit.unit (f s)) :
    Meets (modify f : Run σ PUnit) (modify f) s post :=
  ⟨PUnit.unit, f s, rfl, rfl, h⟩

theorem Meets.ends {post : α → σ → Prop} {run run' : Run σ α} (h : Meets run run' s post) :
    Ends run s post := by
  obtain ⟨a, s', hrun, -, hpost⟩ := h
  intro b s'' hrun'
  rw [hrun] at hrun'
  cases hrun'
  exact hpost

/-- A single run that ends without a fault. -/
theorem Meets.of_ok {post : α → σ → Prop} {run : Run σ α} {a : α} {s' : σ}
    (hrun : run s = .ok a s') (h : post a s') : Meets run run s post :=
  ⟨a, s', hrun, hrun, h⟩

end Run

end PolyFront
