import Mathlib.Data.List.Infix
import Mathlib.Tactic.Common

/-! # Runs that are lists of calls

A component all of whose operations always run to their end is a function `call : σ → α → σ`; a run
is the list of its calls and the states it passes through are those after its prefixes.

`foldl_invariant` is the induction rule. `foldl_exact_iff` is the rule for a predicate that single
calls may break: if a call keeps the predicate exactly when it is `Good`, every state of a run has
the predicate exactly when every call of the run is `Good` where it is made.
-/
namespace Concurrency
set_option autoImplicit false

universe u v
variable {σ : Type u} {α : Type v} {call : σ → α → σ} {s : σ}

theorem foldl_invariant {I : σ → Prop} (h₀ : I s) (hcall : ∀ t a, I t → I (call t a))
    (as : List α) : I (as.foldl call s) := by
  induction as using List.reverseRecOn with
  | nil => exact h₀
  | append_singleton as a ih =>
    rw [List.foldl_concat]
    exact hcall _ a ih

/-- Every state of the run satisfies `P`. -/
def Throughout (call : σ → α → σ) (s : σ) (as : List α) (P : σ → Prop) : Prop :=
  ∀ pre, pre <+: as → P (pre.foldl call s)

/-- Every call of the run is `Good` in the state it is made in. -/
def EveryCall (call : σ → α → σ) (s : σ) (as : List α) (Good : σ → α → Prop) : Prop :=
  ∀ pre a, pre ++ [a] <+: as → Good (pre.foldl call s) a

theorem throughout_concat {as : List α} {a : α} {P : σ → Prop} :
    Throughout call s (as ++ [a]) P ↔
      Throughout call s as P ∧ P (call (as.foldl call s) a) := by
  constructor
  · intro h
    refine ⟨fun pre hpre => h pre (hpre.trans (List.prefix_append ..)), ?_⟩
    have hlast := h _ (List.prefix_refl _)
    rwa [List.foldl_concat] at hlast
  · rintro ⟨hbefore, hlast⟩ pre hpre
    rcases List.prefix_concat_iff.mp hpre with rfl | hpre
    · rwa [List.foldl_concat]
    · exact hbefore pre hpre

theorem everyCall_concat {as : List α} {a : α} {Good : σ → α → Prop} :
    EveryCall call s (as ++ [a]) Good ↔
      EveryCall call s as Good ∧ Good (as.foldl call s) a := by
  constructor
  · intro h
    exact ⟨fun pre b hpre => h pre b (hpre.trans (List.prefix_append ..)),
      h as a (List.prefix_refl _)⟩
  · rintro ⟨hbefore, hlast⟩ pre b hpre
    rcases List.prefix_concat_iff.mp hpre with heq | hpre
    · obtain ⟨rfl, rfl⟩ : pre = as ∧ b = a := by simpa using heq
      exact hlast
    · exact hbefore pre b hpre

theorem everyCall_nil {Good : σ → α → Prop} : EveryCall call s [] Good := by
  intro pre a hpre
  simp at hpre

/-- A run is checked call by call. -/
theorem everyCall_cons {a : α} {as : List α} {Good : σ → α → Prop} :
    EveryCall call s (a :: as) Good ↔ Good s a ∧ EveryCall call (call s a) as Good := by
  constructor
  · intro h
    refine ⟨h [] a (List.prefix_append [a] as), fun pre b hpre => h (a :: pre) b ?_⟩
    exact List.cons_prefix_cons.mpr ⟨rfl, hpre⟩
  · rintro ⟨hfirst, hrest⟩ pre b hpre
    cases pre with
    | nil =>
      obtain ⟨rfl, -⟩ := List.cons_prefix_cons.mp hpre
      exact hfirst
    | cons c pre =>
      obtain ⟨rfl, htail⟩ := List.cons_prefix_cons.mp hpre
      exact hrest pre b htail

/-- Two conditions on the calls that agree under an invariant of the run. -/
theorem everyCall_congr {I : σ → Prop} {Good Good' : σ → α → Prop} (hI₀ : I s)
    (hI : ∀ t a, I t → I (call t a)) (h : ∀ t a, I t → (Good t a ↔ Good' t a)) (as : List α) :
    EveryCall call s as Good ↔ EveryCall call s as Good' := by
  refine forall_congr' fun pre => forall_congr' fun a => imp_congr_right fun _ => ?_
  exact h _ a (foldl_invariant hI₀ hI pre)

theorem throughout_nil {P : σ → Prop} (h₀ : P s) : Throughout call s [] P := by
  intro pre hpre
  obtain rfl : pre = [] := List.prefix_nil.mp hpre
  exact h₀

/-- `I` always holds; under it a call keeps `P` exactly when it is `Good`. -/
theorem foldl_exact_iff {I P : σ → Prop} {Good : σ → α → Prop} (hI₀ : I s) (hP₀ : P s)
    (hI : ∀ t a, I t → I (call t a))
    (hexact : ∀ t a, I t → P t → (P (call t a) ↔ Good t a)) (as : List α) :
    Throughout call s as P ↔ EveryCall call s as Good := by
  induction as using List.reverseRecOn with
  | nil => exact ⟨fun _ => everyCall_nil, fun _ => throughout_nil hP₀⟩
  | append_singleton as a ih =>
    have hinv : I (as.foldl call s) := foldl_invariant hI₀ hI as
    rw [throughout_concat, everyCall_concat, ih]
    refine and_congr_right fun hgood => ?_
    have hreached : P (as.foldl call s) := ih.mpr hgood as (List.prefix_refl _)
    exact hexact _ a hinv hreached

/-- The sufficient half: calls that are all `Good` keep `P` in every state of the run. -/
theorem foldl_throughout {P : σ → Prop} {Good : σ → α → Prop} (hP₀ : P s)
    (hkept : ∀ t a, P t → Good t a → P (call t a)) {as : List α}
    (h : EveryCall call s as Good) : Throughout call s as P := by
  induction as using List.reverseRecOn with
  | nil => exact throughout_nil hP₀
  | append_singleton as a ih =>
    obtain ⟨hbefore, hlast⟩ := everyCall_concat.mp h
    have hthrough := ih hbefore
    exact throughout_concat.mpr ⟨hthrough, hkept _ a (hthrough as (List.prefix_refl _)) hlast⟩

/-- Calls that each set at most the flag of their own key, and decide from what no other call
changes: after a run exactly the flags of the calls that go through are set besides. -/
theorem foldl_marked {κ : Type*} [DecidableEq κ] {I : σ → Prop} (flag : σ → κ → Bool) (key : α → κ)
    (goes : α → Bool) (hI₀ : I s)
    (hcall : ∀ t a, I t → I (call t a) ∧
      ∀ k, flag (call t a) k = (flag t k || (decide (key a = k) && goes a)))
    (as : List α) (k : κ) :
    flag (as.foldl call s) k = (flag s k || as.any fun a => decide (key a = k) && goes a) := by
  induction as using List.reverseRecOn with
  | nil => simp
  | append_singleton as a ih =>
    have hinv : I (as.foldl call s) := foldl_invariant hI₀ (fun t a h => (hcall t a h).1) as
    rw [List.foldl_concat, (hcall _ a hinv).2 k, ih, List.any_append, Bool.or_assoc]
    simp

/-! ## The order of events -/

/-- No call that is a `B` comes after one that is an `A`. -/
def NeverAfter (call : σ → α → σ) (s : σ) (as : List α) (A B : σ → α → Prop) : Prop :=
  ∀ pre a mid b, pre ++ a :: mid ++ [b] <+: as → A (pre.foldl call s) a →
    ¬ B ((pre ++ a :: mid).foldl call s) b

section NeverAfter
variable {A B B' C : σ → α → Prop} {I Q : σ → Prop} {as : List α}

theorem neverAfter_congr (hI₀ : I s) (hI : ∀ t a, I t → I (call t a))
    (h : ∀ t a, I t → (B t a ↔ B' t a)) :
    NeverAfter call s as A B ↔ NeverAfter call s as A B' := by
  refine forall_congr' fun pre => forall_congr' fun a => forall_congr' fun mid =>
    forall_congr' fun b => imp_congr_right fun _ => imp_congr_right fun _ => ?_
  exact not_congr (h _ b (foldl_invariant hI₀ hI _))

/-- A call of a run at which a predicate is lost. -/
theorem exists_lost {Q : σ → Prop} (as : List α) (hstart : Q s) (hend : ¬ Q (as.foldl call s)) :
    ∃ pre a post, as = pre ++ a :: post ∧ Q (pre.foldl call s) ∧
      ¬ Q (call (pre.foldl call s) a) := by
  induction as generalizing s with
  | nil => exact absurd hstart hend
  | cons a as ih =>
    by_cases hkept : Q (call s a)
    · obtain ⟨pre, b, post, rfl, hbefore, hafter⟩ := ih hkept hend
      exact ⟨a :: pre, b, post, rfl, hbefore, hafter⟩
    · exact ⟨[], a, as, rfl, hstart, hkept⟩

/-- An `A` leads to `Q`, a `B` is only made outside `Q` and only a `C` leaves `Q`: if no `B` comes
after a `C`, none comes after an `A`. -/
theorem NeverAfter.of_gap (hI₀ : I s) (hI : ∀ t a, I t → I (call t a))
    (hA : ∀ t a, I t → A t a → Q (call t a)) (hB : ∀ t b, I t → B t b → ¬ Q t)
    (hC : ∀ t c, I t → Q t → ¬ Q (call t c) → C t c) (h : NeverAfter call s as C B) :
    NeverAfter call s as A B := by
  intro pre a mid b hprefix ha hb
  have hgained : Q (call (pre.foldl call s) a) := hA _ a (foldl_invariant hI₀ hI pre) ha
  have hlost : ¬ Q (mid.foldl call (call (pre.foldl call s) a)) := by
    have hend := hB _ b (foldl_invariant hI₀ hI _) hb
    rwa [List.foldl_append, List.foldl_cons] at hend
  obtain ⟨before, c, after, rfl, hbefore, hafter⟩ := exists_lost mid hgained hlost
  have hrun : (pre ++ a :: before).foldl call s = before.foldl call (call (pre.foldl call s) a) := by
    rw [List.foldl_append, List.foldl_cons]
  have hc : C ((pre ++ a :: before).foldl call s) c := by
    refine hC _ c (foldl_invariant hI₀ hI _) ?_ ?_
    · rwa [hrun]
    · rwa [hrun]
  have hsplit : pre ++ a :: (before ++ c :: after) = (pre ++ a :: before) ++ c :: after := by
    simp
  rw [hsplit] at hprefix hb
  exact h _ c after b hprefix hc hb

end NeverAfter

end Concurrency
