import Mathlib.Data.Option.Basic
import Mathlib.Tactic.Common

/-! # Bounded loops that may be left early

`for i in 0..n` over a state, with a body that goes on or leaves the loop. `before` is the state the
loop is in before a round, if it gets there.

`before_invariant` is the induction rule; `forLoop_cases` says in which round a loop is left, and
`forLoop_of_stop` where a body that leaves it leads.
-/
namespace Concurrency
set_option autoImplicit false

universe u v
variable {σ : Type u} {ε : Type v}

/-- What the body of a loop leaves. -/
inductive LoopStep (σ : Type u) (ε : Type v)
  | next (s : σ)
  | stop (s : σ) (e : ε)

/-- The state after the loop, and how it was left early. -/
def forLoop (body : ℕ → σ → LoopStep σ ε) : ℕ → ℕ → σ → σ × Option ε
  | 0, _, s => (s, none)
  | left + 1, i, s =>
    match body i s with
    | .next s => forLoop body left (i + 1) s
    | .stop s e => (s, some e)

/-- The state before a round. -/
def before (body : ℕ → σ → LoopStep σ ε) (s : σ) : ℕ → Option σ
  | 0 => some s
  | i + 1 =>
    (before body s i).bind fun t =>
      match body i t with
      | .next t => some t
      | .stop _ _ => none

section Rules
variable {body : ℕ → σ → LoopStep σ ε} {s t w : σ} {e : ε} {i n : ℕ}

theorem before_succ_iff : before body s (i + 1) = some w ↔
    ∃ t, before body s i = some t ∧ body i t = .next w := by
  rw [before, Option.bind_eq_some_iff]
  refine exists_congr fun t => and_congr_right fun _ => ?_
  cases body i t with
  | next t => simp
  | stop t e => simp

theorem before_succ (ht : before body s i = some t) (hnext : body i t = .next w) :
    before body s (i + 1) = some w :=
  before_succ_iff.mpr ⟨t, ht, hnext⟩

/-- A property of the state and the round that every round keeps holds before every round. -/
theorem before_invariant {I : ℕ → σ → Prop} (h₀ : I 0 s)
    (hnext : ∀ i t w, before body s i = some t → I i t → body i t = .next w → I (i + 1) w)
    (h : before body s i = some t) : I i t := by
  induction i generalizing t with
  | zero =>
    obtain rfl : s = t := by simpa [before] using h
    exact h₀
  | succ i ih =>
    obtain ⟨u, hu, hbody⟩ := before_succ_iff.mp h
    exact hnext i u t hu (ih hu) hbody

/-- From the state before a round on, the loop is the rest of the loop. -/
theorem forLoop_of_before (h : before body s i = some t) (hi : i ≤ n) :
    forLoop body n 0 s = forLoop body (n - i) i t := by
  induction i generalizing t with
  | zero =>
    obtain rfl : s = t := by simpa [before] using h
    rfl
  | succ i ih =>
    obtain ⟨u, hu, hbody⟩ := before_succ_iff.mp h
    have hleft : n - i = n - (i + 1) + 1 := by omega
    rw [ih hu (by omega), hleft, forLoop, hbody]

theorem forLoop_of_stop (h : before body s i = some t) (hi : i < n)
    (hstop : body i t = .stop w e) : forLoop body n 0 s = (w, some e) := by
  have hleft : n - i = n - i - 1 + 1 := by omega
  rw [forLoop_of_before h (by omega), hleft, forLoop, hstop]

/-- A loop runs out of rounds, or a round leaves it. -/
theorem forLoop_cases (body : ℕ → σ → LoopStep σ ε) (n : ℕ) (s : σ) :
    (∃ t, before body s n = some t ∧ forLoop body n 0 s = (t, none)) ∨
      ∃ i t w e, i < n ∧ before body s i = some t ∧ body i t = .stop w e ∧
        forLoop body n 0 s = (w, some e) := by
  induction n with
  | zero => exact .inl ⟨s, rfl, rfl⟩
  | succ n ih =>
    cases ih with
    | inr h =>
      obtain ⟨i, t, w, e, hi, ht, hstop, -⟩ := h
      exact .inr ⟨i, t, w, e, by omega, ht, hstop, forLoop_of_stop ht (by omega) hstop⟩
    | inl h =>
      obtain ⟨t, ht, -⟩ := h
      cases hbody : body n t with
      | stop w e =>
        exact .inr ⟨n, t, w, e, by omega, ht, hbody, forLoop_of_stop ht (by omega) hbody⟩
      | next w =>
        have hw := before_succ ht hbody
        refine .inl ⟨w, hw, ?_⟩
        rw [forLoop_of_before hw (Nat.le_refl _), Nat.sub_self]
        rfl

end Rules

end Concurrency
