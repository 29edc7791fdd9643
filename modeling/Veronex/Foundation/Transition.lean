import Mathlib.Data.List.Basic

/-! # Runs of a partial step function

Everything here is about an arbitrary deterministic step `step : σ → α → Option σ`, where the
action `α` carries every choice the environment makes (`none`: the action is not enabled).

* `Run step ok s t`: some sequence of actions leads from `s` to `t`, each of them allowed by `ok`
  in the state it was taken in.
* `Run.invariant`: the induction rule for a state predicate. The step case may use the run that
  leads to the state, so that invariants proved earlier are available in it.
* `Run.monotone`: the same for a preorder on the states.
* `Run.along`: what holds of every state that is reached may be asked of every step.
* `exec`: the same runs, computed from a list of actions; `Run.of_exec` and
  `Run.exists_of_exec` turn a computed run into a `Run`.
* `EachStep`: what holds of every single step of the run a list of actions takes.
-/
namespace Concurrency
set_option autoImplicit false

universe u v
variable {σ : Type u} {α : Type v}

/-- Runs of `step` all of whose steps satisfy `ok`. -/
inductive Run (step : σ → α → Option σ) (ok : σ → α → Prop) : σ → σ → Prop
  | refl (s : σ) : Run step ok s s
  | snoc {s t w : σ} {a : α} (h : Run step ok s t) (hok : ok t a) (hs : step t a = some w) :
      Run step ok s w

namespace Run
variable {step : σ → α → Option σ} {ok ok' : σ → α → Prop} {s t w : σ} {a : α}

theorem single (hok : ok s a) (hs : step s a = some t) : Run step ok s t :=
  .snoc (.refl s) hok hs

theorem trans (h₁ : Run step ok s t) (h₂ : Run step ok t w) : Run step ok s w := by
  induction h₂ with
  | refl => exact h₁
  | snoc _ hok hs ih => exact .snoc ih hok hs

theorem mono (hle : ∀ s a, ok s a → ok' s a) (h : Run step ok s t) : Run step ok' s t := by
  induction h with
  | refl => exact .refl _
  | snoc _ hok hs ih => exact .snoc ih (hle _ _ hok) hs

/-- A predicate that holds at the start and is kept by every allowed step holds at the end. -/
theorem invariant {I : σ → Prop} (h : Run step ok s t) (h₀ : I s)
    (hstep : ∀ x y a, Run step ok s x → I x → ok x a → step x a = some y → I y) : I t := by
  induction h with
  | refl => exact h₀
  | snoc hr hok hs ih => exact hstep _ _ _ hr ih hok hs

/-- A preorder that every step of the run moves up along relates its two ends. -/
theorem monotone {R : σ → σ → Prop} (h : Run step ok s t) (hrefl : ∀ x, R x x)
    (htrans : ∀ x y z, R x y → R y z → R x z)
    (hstep : ∀ x y a, Run step ok s x → ok x a → step x a = some y → R x y) : R s t := by
  induction h with
  | refl => exact hrefl s
  | snoc hr hok hs ih => exact htrans _ _ _ ih (hstep _ _ _ hr hok hs)

/-- What holds of every state that is reached holds wherever a step of the run is taken. -/
theorem along {P : σ → Prop} (h : Run step ok s t) (hP : ∀ x, Run step ok s x → P x) :
    Run step (fun x _ => P x) s t := by
  induction h with
  | refl => exact .refl _
  | snoc hr _ hs ih => exact .snoc ih (hP _ hr) hs

end Run

/-! ## Computed runs -/

/-- Takes the actions one after the other, stopping at one that is not allowed or not enabled. -/
def exec (step : σ → α → Option σ) (allowed : σ → α → Bool) : σ → List α → Option σ
  | s, [] => some s
  | s, a :: as => if allowed s a then (step s a).bind fun t => exec step allowed t as else none

section Exec
variable {step : σ → α → Option σ} {allowed : σ → α → Bool} {ok : σ → α → Prop}

theorem Run.of_exec (hok : ∀ s a, allowed s a = true → ok s a) :
    ∀ {as : List α} {s t : σ}, exec step allowed s as = some t → Run step ok s t
  | [], s, t, h => by
      have hst : s = t := by simpa [exec] using h
      exact hst ▸ .refl s
  | a :: as, s, t, h => by
      simp only [exec] at h
      split at h
      · next ha =>
        obtain ⟨w, hw, ht⟩ := Option.bind_eq_some_iff.mp h
        exact (Run.single (hok s a ha) hw).trans (Run.of_exec hok ht)
      · cases h

/-- A computed run that ends in a state satisfying the test `p`. -/
theorem Run.exists_of_exec (hok : ∀ s a, allowed s a = true → ok s a) {as : List α} {s : σ}
    {p : σ → Bool} (h : (exec step allowed s as).any p = true) :
    ∃ t, Run step ok s t ∧ p t = true := by
  cases he : exec step allowed s as with
  | none => simp [he] at h
  | some t => exact ⟨t, Run.of_exec hok he, by simpa [he] using h⟩

end Exec

/-! ## Every step of a run -/

/-- Every step the actions take satisfies `P`; the run ends at an action that is not enabled. -/
def EachStep (step : σ → α → Option σ) (P : σ → α → σ → Prop) : σ → List α → Prop
  | _, [] => True
  | s, a :: as => ∀ t, step s a = some t → P s a t ∧ EachStep step P t as

section EachStep
variable {step : σ → α → Option σ} {P Q : σ → α → σ → Prop}

/-- Two predicates that agree wherever an invariant holds agree along every run from there. -/
theorem eachStep_congr_of {I : σ → Prop} (hstep : ∀ s a t, I s → step s a = some t → I t)
    (h : ∀ s a t, I s → step s a = some t → (P s a t ↔ Q s a t)) {s : σ} (hs : I s)
    (as : List α) : EachStep step P s as ↔ EachStep step Q s as := by
  induction as generalizing s with
  | nil => exact Iff.rfl
  | cons a as ih =>
    refine forall_congr' fun t => imp_congr_right fun ht => ?_
    exact and_congr (h s a t hs ht) (ih (hstep s a t hs ht))

theorem eachStep_congr (h : ∀ s a t, step s a = some t → (P s a t ↔ Q s a t)) (s : σ)
    (as : List α) : EachStep step P s as ↔ EachStep step Q s as :=
  eachStep_congr_of (I := fun _ => True) (fun _ _ _ _ _ => trivial) (fun s a t _ => h s a t)
    trivial as

/-- The last step of a computed run. -/
theorem EachStep.last {as : List α} {a : α} {s t w : σ} (h : EachStep step P s (as ++ [a]))
    (hexec : exec step (fun _ _ => true) s as = some t) (hs : step t a = some w) : P t a w := by
  induction as generalizing s with
  | nil =>
    obtain rfl : s = t := by simpa [exec] using hexec
    exact (h w hs).1
  | cons b as ih =>
    simp only [exec, if_true] at hexec
    obtain ⟨u, hu, hrest⟩ := Option.bind_eq_some_iff.mp hexec
    exact ih (h u hu).2 hrest

end EachStep

end Concurrency
