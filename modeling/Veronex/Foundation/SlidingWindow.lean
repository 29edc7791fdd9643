import Mathlib.Algebra.Order.Group.Int
import Mathlib.Data.List.Induction
import Mathlib.Tactic.Common

/-! # Sliding windows

Events at non-decreasing times, some of them admitted. If every admitted event counts the events of
the window that ends at it, itself among them, and finds at most `limit`, then no window holds more
admitted events than that: its last admitted event has counted the others.
-/
namespace Concurrency
set_option autoImplicit false

variable {α : Type} (time : α → ℤ) (admitted : α → Bool) (width : ℤ) (limit : ℕ)

def inWindow (t : ℤ) (a : α) : Bool := t - width < time a && time a ≤ t

/-- An admitted event found at most `limit` events after the start of its window. -/
def CountsWindow (l : List α) : Prop :=
  ∀ before a after, l = before ++ a :: after → admitted a →
    before.countP (fun b => time a - width < time b) + 1 ≤ limit

variable {time admitted width limit} {l : List α}

theorem CountsWindow.of_append {m : List α} (h : CountsWindow time admitted width limit (l ++ m)) :
    CountsWindow time admitted width limit l := by
  intro before a after hl ha
  exact h before a (after ++ m) (by rw [hl, List.append_assoc, List.cons_append]) ha

theorem countP_window_le (hmono : l.Pairwise fun a b => time a ≤ time b)
    (h : CountsWindow time admitted width limit l) (t : ℤ) :
    l.countP (fun a => admitted a && inWindow time width t a) ≤ limit := by
  induction l using List.reverseRecOn with
  | nil => simp
  | append_singleton l last ih =>
    have hrest := ih (List.pairwise_append.mp hmono).1 h.of_append
    rw [List.countP_append, List.countP_singleton]
    split
    · next hlast =>
      simp only [inWindow, Bool.and_eq_true, decide_eq_true_eq] at hlast
      have hcount := h l last [] rfl hlast.1
      -- what the window at `t` holds besides was counted by the last event
      have hle : l.countP (fun a => admitted a && inWindow time width t a) ≤
          l.countP fun b => time last - width < time b := by
        refine List.countP_mono_left fun a _ ha => ?_
        simp only [inWindow, Bool.and_eq_true, decide_eq_true_eq] at ha ⊢
        omega
      omega
    · exact hrest

end Concurrency
