import Veronex.Foundation.Transition

/-! # Two runs side by side

* `Paired step A s s' as as'`: the actions `as` from `s` and `as'` from `s'`, each pair of them related
  by `A` in the states it is taken in.
* `exec_paired`: where a step from one of two related states has one beside it to a related state, so
  has a run.
-/
namespace Concurrency
set_option autoImplicit false

universe u v
variable {σ : Type u} {α : Type v}

def Paired (step : σ → α → Option σ) (A : σ → σ → α → α → Prop) : σ → σ → List α → List α → Prop
  | _, _, [], [] => True
  | s, s', a :: as, a' :: as' => A s s' a a' ∧
      ∀ t t', step s a = some t → step s' a' = some t' → Paired step A t t' as as'
  | _, _, [], _ :: _ | _, _, _ :: _, [] => False

variable {step : σ → α → Option σ} {A : σ → σ → α → α → Prop} {R : σ → σ → Prop}
  {P : σ → α → σ → Prop}

theorem exec_paired
    (hstep : ∀ s s' a a' t, R s s' → A s s' a a' → step s a = some t → P s a t →
      ∃ t', step s' a' = some t' ∧ R t t')
    {as as' : List α} {s s' t : σ} (hR : R s s') (hpaired : Paired step A s s' as as')
    (heach : EachStep step P s as) (hexec : exec step (fun _ _ => true) s as = some t) :
    ∃ t', exec step (fun _ _ => true) s' as' = some t' ∧ R t t' := by
  induction as generalizing as' s s' with
  | nil =>
    cases as' with
    | nil =>
      obtain rfl := Option.some.inj hexec
      exact ⟨s', rfl, hR⟩
    | cons a' as' => exact hpaired.elim
  | cons a as ih =>
    cases as' with
    | nil => exact hpaired.elim
    | cons a' as' =>
      simp only [exec, if_true] at hexec
      obtain ⟨w, hw, hrest⟩ := Option.bind_eq_some_iff.mp hexec
      obtain ⟨w', hw', hww'⟩ := hstep s s' a a' w hR hpaired.1 hw (heach w hw).1
      obtain ⟨t', ht', hRt⟩ := ih hww' (hpaired.2 w w' hw hw') (heach w hw).2 hrest
      exact ⟨t', by simp only [exec, if_true, hw', Option.bind_some, ht'], hRt⟩

end Concurrency
