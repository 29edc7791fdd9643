import Mathlib.Data.List.Basic
import Mathlib.Tactic.Common

/-! # Broadcast channels

A channel is the list of everything that was ever sent. A receiver is a position in it: the channel
keeps the last `cap` values, and a receiver that is further behind is told so once and goes on with
the oldest value that is kept.

* `slice log i j`: the values between two positions.
* `recv_cases`: what one receive does.
* `lastOf_push`: a buffer of bounded length that drops its front holds the last values pushed to it.
-/
namespace Broadcast
set_option autoImplicit false

universe u
variable {α : Type u} {cap : ℕ} {log : List α} {x : α} {i j k : ℕ}

/-! ## Positions -/

/-- The values from position `i` on, as far as position `j`. -/
def slice (log : List α) (i j : ℕ) : List α := (log.take j).drop i

@[simp] theorem slice_self (log : List α) (i : ℕ) : slice log i i = [] := by
  simp [slice]

theorem slice_succ (hij : i ≤ j) (h : log[j]? = some x) : slice log i (j + 1) = slice log i j ++ [x] := by
  obtain ⟨hj, hx⟩ := List.getElem?_eq_some_iff.mp h
  have htake : log.take (j + 1) = log.take j ++ [x] := by
    rw [List.take_add_one, h]
    rfl
  have hlength : i ≤ (log.take j).length := by
    rw [List.length_take]
    omega
  rw [slice, htake, List.drop_append_of_le_length hlength]
  rfl

/-- What was sent later does not change a slice. -/
theorem slice_append (hj : j ≤ log.length) (new : List α) : slice (log ++ new) i j = slice log i j := by
  rw [slice, List.take_append_of_le_length hj]
  rfl

theorem slice_sublist (hjk : j ≤ k) : (slice log i j).Sublist (slice log i k) :=
  (List.take_sublist_take_left hjk).drop i

theorem slice_zero (log : List α) (j : ℕ) : slice log 0 j = log.take j := rfl

/-! ## Receivers -/

inductive Received (α : Type u)
  | value (x : α)
  | lagged

/-- What a receiver at `pos` is given, and where it is then. -/
def recv (cap : ℕ) (log : List α) (pos : ℕ) : Option (Received α × ℕ) :=
  if log.length - pos ≤ cap then log[pos]?.map fun x => (Received.value x, pos + 1)
  else some (Received.lagged, log.length - cap)

theorem recv_cases {r : Received α} {pos pos' : ℕ} (h : recv cap log pos = some (r, pos')) :
    (∃ x, r = .value x ∧ log[pos]? = some x ∧ pos' = pos + 1 ∧ log.length - pos ≤ cap) ∨
      (r = .lagged ∧ cap < log.length - pos ∧ pos < pos' ∧ pos' ≤ log.length) := by
  unfold recv at h
  split at h
  · next hcap =>
    obtain ⟨x, hx, heq⟩ := Option.map_eq_some_iff.mp h
    cases heq
    exact Or.inl ⟨x, rfl, hx, rfl, hcap⟩
  · cases h
    exact Or.inr ⟨rfl, by omega, by omega, by omega⟩

theorem recv_le {r : Received α} {pos pos' : ℕ} (h : recv cap log pos = some (r, pos')) :
    pos ≤ pos' ∧ pos' ≤ log.length := by
  rcases recv_cases h with ⟨x, -, hx, rfl, -⟩ | ⟨-, -, hlt, hle⟩
  · obtain ⟨hpos, -⟩ := List.getElem?_eq_some_iff.mp hx
    omega
  · omega

/-! ## Bounded buffers -/

/-- The last `cap` values. -/
def lastOf (cap : ℕ) (xs : List α) : List α := xs.drop (xs.length - cap)

/-- `push_back`, after `pop_front` if the buffer is full. -/
def push (cap : ℕ) (buf : List α) (x : α) : List α :=
  (if cap ≤ buf.length then buf.tail else buf) ++ [x]

theorem lastOf_length (cap : ℕ) (xs : List α) : (lastOf cap xs).length = min cap xs.length := by
  rw [lastOf, List.length_drop]
  omega

theorem lastOf_push (hcap : 0 < cap) (xs : List α) (x : α) :
    push cap (lastOf cap xs) x = lastOf cap (xs ++ [x]) := by
  have hlength := lastOf_length cap xs
  rw [push, hlength]
  by_cases h : cap ≤ xs.length
  · have hdrop : (xs ++ [x]).length - cap = xs.length - cap + 1 := by
      simp only [List.length_append, List.length_cons, List.length_nil]
      omega
    rw [if_pos (by omega), lastOf, lastOf, hdrop, List.tail_drop,
      List.drop_append_of_le_length (by omega)]
  · have hall : (xs ++ [x]).length - cap = 0 := by
      simp only [List.length_append, List.length_cons, List.length_nil]
      omega
    have hold : xs.length - cap = 0 := by omega
    rw [if_neg (by omega), lastOf, lastOf, hall, hold, List.drop_zero, List.drop_zero]

theorem lastOf_sublist (cap : ℕ) (xs : List α) : (lastOf cap xs).Sublist xs := List.drop_sublist _ _

theorem lastOf_map {β : Type u} (f : α → β) (cap : ℕ) (xs : List α) :
    (lastOf cap xs).map f = lastOf cap (xs.map f) := by
  rw [lastOf, lastOf, List.map_drop, List.length_map]

end Broadcast
