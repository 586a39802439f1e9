import Mathlib.Order.Defs.Unbundled
import PolyFront.Fault

/-!
# What holds where a run ends

A condition holds after a run from a state when it holds of the result and the state in which
the run ends, if it ends without a fault.  The rules follow the way runs are put together.
-/

namespace PolyFront

namespace Run

variable {σ τ α β : Type}

/-- If the run from the state ends without a fault, the condition holds there. -/
def Ends (run : Run σ α) (s : σ) (post : α → σ → Prop) : Prop :=
  ∀ a s', run s = .ok a s' → post a s'

variable {s : σ}

theorem Ends.pure {post : α → σ → Prop} {a : α} (h : post a s) :
    Ends (Pure.pure a : Run σ α) s post := by
  intro a' s' hrun
  cases hrun
  exact h

theorem Ends.bind {post : β → σ → Prop} {run : Run σ α} {next : α → Run σ β}
    (h : Ends run s fun a s' => Ends (next a) s' post) : Ends (run >>= next) s post := by
  intro b s'' hrun
  change EStateM.bind run next s = _ at hrun
  rw [EStateM.bind] at hrun
  cases hfirst : run s with
  | ok a s' =>
    rw [hfirst] at hrun
    exact h a s' hfirst b s'' hrun
  | error fault s' =>
    rw [hfirst] at hrun
    cases hrun

theorem Ends.mono {post post' : α → σ → Prop} {run : Run σ α} (h : Ends run s post)
    (himp : ∀ a s', post a s' → post' a s') : Ends run s post' :=
  fun a s' hrun => himp a s' (h a s' hrun)

theorem Ends.and {post post' : α → σ → Prop} {run : Run σ α} (h : Ends run s post)
    (h' : Ends run s post') : Ends run s fun a s' => post a s' ∧ post' a s' :=
  fun a s' hrun => ⟨h a s' hrun, h' a s' hrun⟩

theorem Ends.get {post : σ → σ → Prop} (h : post s s) :
    Ends (MonadState.get : Run σ σ) s post := by
  intro a s' hrun
  cases hrun
  exact h

theorem Ends.modify {post : PUnit → σ → Prop} {f : σ → σ} (h : post PUnit.unit (f s)) :
    Ends (modify f : Run σ PUnit) s post := by
  intro a s' hrun
  cases hrun
  exact h

theorem Ends.set {post : PUnit → σ → Prop} {s' : σ} (h : post PUnit.unit s') :
    Ends (MonadStateOf.set s' : Run σ PUnit) s post := by
  intro a s'' hrun
  cases hrun
  exact h

/-- A run that ends leaves what it does not work on as it was. -/
theorem Ends.within {part : σ → τ} {update : τ → σ → σ} {run : Run τ α} {post : α → σ → Prop}
    (h : Ends run (part s) fun a inner => post a (update inner s)) :
    Ends (Run.within part update run) s post := by
  intro a s' hrun
  unfold Run.within at hrun
  cases hinner : run (part s) with
  | ok b inner =>
    rw [hinner] at hrun
    cases hrun
    exact h a inner hinner
  | error fault inner =>
    rw [hinner] at hrun
    cases hrun

theorem Ends.allM (inv : σ → Prop) {f : α → Run σ Bool} {items : List α}
    (h : ∀ item ∈ items, ∀ s, inv s → Ends (f item) s fun _ => inv) (hs : inv s) :
    Ends (items.allM f) s fun _ => inv := by
  induction items generalizing s with
  | nil => exact Ends.pure hs
  | cons item rest ih =>
    refine Ends.bind ((h item List.mem_cons_self s hs).mono fun holds s' hs' => ?_)
    cases holds with
    | true => exact ih (fun other hother => h other (List.mem_cons_of_mem _ hother)) hs'
    | false => exact Ends.pure hs'

/-! ## Runs that relate states -/

section Relates

variable {rel : σ → σ → Prop}

/-- From every state the run ends in a related one, if it ends without a fault. -/
def Relates (rel : σ → σ → Prop) (run : Run σ α) : Prop := ∀ s, Ends run s fun _ s' => rel s s'

theorem Relates.modify {f : σ → σ} (h : ∀ s, rel s (f s)) :
    Relates rel (modify f : Run σ PUnit) := fun s => Ends.modify (h s)

theorem Relates.ite {c : Prop} [Decidable c] {run other : Run σ α} (hrun : Relates rel run)
    (hother : Relates rel other) : Relates rel (if c then run else other) := by
  split
  · exact hrun
  · exact hother

variable [IsPreorder σ rel]

theorem Relates.pure (a : α) : Relates rel (Pure.pure a : Run σ α) :=
  fun s => Ends.pure (refl_of rel s)

theorem Relates.get : Relates rel (MonadState.get : Run σ σ) :=
  fun s => Ends.get (refl_of rel s)

theorem Relates.bind {run : Run σ α} {next : α → Run σ β} (hrun : Relates rel run)
    (hnext : ∀ a, Relates rel (next a)) : Relates rel (run >>= next) :=
  fun s => Ends.bind ((hrun s).mono fun a s₁ h₁ =>
    (hnext a s₁).mono fun _ _ h₂ => trans_of rel h₁ h₂)

theorem Relates.mapM {f : α → Run σ β} {items : List α} (h : ∀ item ∈ items, Relates rel (f item)) :
    Relates rel (items.mapM f) := by
  induction items with
  | nil => exact Relates.pure []
  | cons item rest ih =>
    rw [List.mapM_cons]
    refine (h item List.mem_cons_self).bind fun b => ?_
    refine (ih fun other hother => h other (List.mem_cons_of_mem _ hother)).bind fun bs => ?_
    exact Relates.pure (b :: bs)

theorem Relates.allM {f : α → Run σ Bool} {items : List α}
    (h : ∀ item ∈ items, Relates rel (f item)) : Relates rel (items.allM f) := by
  induction items with
  | nil => exact Relates.pure true
  | cons item rest ih =>
    refine (h item List.mem_cons_self).bind fun holds => ?_
    cases holds with
    | true => exact ih fun other hother => h other (List.mem_cons_of_mem _ hother)
    | false => exact Relates.pure false

end Relates

end Run

end PolyFront
