import Mathlib.Algebra.BigOperators.Ring.Finset
import Mathlib.Algebra.Ring.Nat
import Mathlib.Tactic.Common

/-! # Rotating buckets

`n` counters used in turn: at clear number `c` bucket `c % n` is emptied, and from then on events are
added to it. An event is written down with the bucket it was added to and the number of the last
clear before it. `Counted`: each bucket is the number of its events that no clear has dropped since.
`Counted.sum`: so is the sum over all buckets of some ages.

The counters live in any additive monoid with a one, such as words that wrap.
-/
namespace Rotating
set_option autoImplicit false

/-- How many clears ago bucket `i` was emptied, if the last clear was number `c`. -/
def age (n c i : ℕ) : ℕ := (c % n + n - i) % n

section Age
variable {n c i : ℕ}

theorem age_lt (hn : 0 < n) : age n c i < n := Nat.mod_lt _ hn

theorem age_mod : age n c (c % n) = 0 := by
  rw [age, Nat.add_sub_cancel_left, Nat.mod_self]

/-- The bucket that is emptied next is the oldest one. -/
theorem age_succ (hi : i < n) (hne : i ≠ (c + 1) % n) : age n (c + 1) i = age n c i + 1 := by
  have hn : 0 < n := by omega
  have hlt : c % n < n := Nat.mod_lt c hn
  have hwrap : (c + 1) % n = if c % n + 1 = n then 0 else c % n + 1 := by
    rw [Nat.add_mod_eq_ite]
    rcases Nat.lt_or_ge 1 n with h1 | h1
    · rw [Nat.mod_eq_of_lt h1]
      split
      · rw [if_pos (by omega)]
        omega
      · rw [if_neg (by omega)]
    · have hone : n = 1 := by omega
      subst hone
      omega
  rw [hwrap] at hne
  unfold age
  rw [hwrap]
  split at hne
  · next h =>
    rw [if_pos h, Nat.zero_add, Nat.mod_eq_of_lt (by omega : n - i < n)]
    have hsum : c % n + n - i = n - 1 - i + n := by omega
    rw [hsum, Nat.add_mod_right, Nat.mod_eq_of_lt (by omega)]
    omega
  · next h =>
    rw [if_neg h]
    rcases Nat.lt_or_ge (c % n) i with hlow | hge
    · rw [Nat.mod_eq_of_lt (by omega : c % n + n - i < n),
        Nat.mod_eq_of_lt (by omega : c % n + 1 + n - i < n)]
      omega
    · have h₁ : c % n + n - i = c % n - i + n := by omega
      have h₂ : c % n + 1 + n - i = c % n + 1 - i + n := by omega
      rw [h₁, h₂, Nat.add_mod_right, Nat.add_mod_right, Nat.mod_eq_of_lt (by omega : c % n - i < n),
        Nat.mod_eq_of_lt (by omega : c % n + 1 - i < n)]
      omega

/-- The age of the bucket of clear number `t`, until it is emptied again. -/
theorem age_of_le {t : ℕ} (hn : 0 < n) (hle : t ≤ c) (hlt : c < t + n) : age n c (t % n) = c - t := by
  obtain ⟨d, rfl⟩ := Nat.exists_eq_add_of_le hle
  induction d with
  | zero => rw [Nat.add_zero, age_mod, Nat.sub_self]
  | succ d ih =>
    have hd : d < n := by omega
    have hne : t % n ≠ (t + d + 1) % n := by
      intro heq
      have hzero : (t + d + 1 - t) % n = 0 := Nat.sub_mod_eq_zero_of_mod_eq heq.symm
      have hle' := Nat.le_of_dvd (by omega) (Nat.dvd_of_mod_eq_zero hzero)
      omega
    have hih := ih (by omega) (by omega)
    rw [← Nat.add_assoc, age_succ (Nat.mod_lt t hn) hne, hih]
    omega

end Age

/-- An event: its bucket and the number of the last clear before it. -/
structure Entry where
  slot : ℕ
  cleared : ℕ
  deriving DecidableEq, Repr

/-- No clear of its bucket has dropped the event. -/
def Live (n c : ℕ) (e : Entry) : Prop := c ≤ e.cleared + age n c e.slot

instance (n c : ℕ) (e : Entry) : Decidable (Live n c e) := inferInstanceAs (Decidable (_ ≤ _))

section Live
variable {n c : ℕ} {e : Entry}

theorem live_new (n : ℕ) (e : Entry) : Live n e.cleared e := Nat.le_add_right _ _

/-- A clear drops the events of one bucket and no others. -/
theorem live_succ_iff (hslot : e.slot < n) (hle : e.cleared ≤ c) :
    Live n (c + 1) e ↔ e.slot ≠ (c + 1) % n ∧ Live n c e := by
  have hn : 0 < n := by omega
  unfold Live
  by_cases hsame : e.slot = (c + 1) % n
  · have hzero : age n (c + 1) e.slot = 0 := by rw [hsame, age_mod]
    constructor
    · intro h
      omega
    · intro h
      exact absurd hsame h.1
  · have hsucc := age_succ hslot hsame
    constructor
    · intro h
      exact ⟨hsame, by omega⟩
    · intro h
      omega

/-- An event is dropped after at most `n` clears. -/
theorem Live.recent (hn : 0 < n) (h : Live n c e) : c < e.cleared + n := by
  have hage : age n c e.slot < n := age_lt hn
  unfold Live at h
  omega

end Live

section Counted
variable {M : Type*} [AddCommMonoidWithOne M] {n c : ℕ} {slots : ℕ → M} {log : List Entry}

/-- Each bucket is the number of its events that are left. -/
structure Counted (n c : ℕ) (slots : ℕ → M) (log : List Entry) : Prop where
  count : ∀ i < n, slots i = (log.countP fun e => e.slot = i ∧ Live n c e : ℕ)
  bounded : ∀ e ∈ log, e.slot < n ∧ e.cleared ≤ c

theorem Counted.start (n : ℕ) : Counted n 0 (fun _ => (0 : M)) [] where
  count i _ := by simp
  bounded e he := by simp at he

/-- `b[i] += 1`. -/
theorem Counted.add {i : ℕ} (h : Counted n c slots log) (hi : i < n) :
    Counted n c (Function.update slots i (slots i + 1)) (log ++ [⟨i, c⟩]) where
  count j hj := by
    rw [List.countP_append, List.countP_singleton, Nat.cast_add]
    by_cases hji : j = i
    · have hlive : Live n c ⟨i, c⟩ := live_new n ⟨i, c⟩
      subst hji
      rw [Function.update_self, h.count j hj]
      simp [hlive]
    · have hij : i ≠ j := fun heq => hji heq.symm
      rw [Function.update_of_ne hji, h.count j hj]
      simp [hij]
  bounded e he := by
    rw [List.mem_append, List.mem_singleton] at he
    rcases he with he | rfl
    · exact h.bounded e he
    · exact ⟨hi, le_refl c⟩

/-- Clear number `c + 1`. -/
theorem Counted.clear (h : Counted n c slots log) (hn : 0 < n) :
    Counted n (c + 1) (Function.update slots ((c + 1) % n) 0) log where
  count j hj := by
    have hcongr : ∀ e ∈ log, (decide (e.slot = j ∧ Live n (c + 1) e) = true ↔
        decide (j ≠ (c + 1) % n ∧ e.slot = j ∧ Live n c e) = true) := by
      intro e he
      obtain ⟨hslot, hle⟩ := h.bounded e he
      have hiff := live_succ_iff hslot hle
      simp only [decide_eq_true_eq, hiff]
      constructor
      · rintro ⟨rfl, hne, hlive⟩
        exact ⟨hne, rfl, hlive⟩
      · rintro ⟨hne, rfl, hlive⟩
        exact ⟨rfl, hne, hlive⟩
    rw [List.countP_congr hcongr]
    by_cases hnext : j = (c + 1) % n
    · rw [hnext, Function.update_self]
      simp
    · rw [Function.update_of_ne hnext, h.count j hj]
      simp [hnext]
  bounded e he := by
    obtain ⟨hslot, hle⟩ := h.bounded e he
    exact ⟨hslot, by omega⟩

/-- The sum over the buckets of the ages in `p` is the number of their events that are left. -/
theorem Counted.sum (h : Counted n c slots log) (p : ℕ → Prop) [DecidablePred p] :
    (∑ i ∈ Finset.range n, if p (age n c i) then slots i else 0) =
      (log.countP fun e => p (age n c e.slot) ∧ Live n c e : ℕ) := by
  have hslots : (∑ i ∈ Finset.range n, if p (age n c i) then slots i else 0) =
      ∑ i ∈ Finset.range n,
        ((log.countP fun e => e.slot = i ∧ p (age n c e.slot) ∧ Live n c e : ℕ) : M) := by
    refine Finset.sum_congr rfl fun i hi => ?_
    rw [Finset.mem_range] at hi
    by_cases hp : p (age n c i)
    · rw [if_pos hp, h.count i hi]
      congr 1
      refine List.countP_congr fun e _ => ?_
      simp only [decide_eq_true_eq]
      constructor
      · rintro ⟨rfl, hlive⟩
        exact ⟨rfl, hp, hlive⟩
      · rintro ⟨rfl, -, hlive⟩
        exact ⟨rfl, hlive⟩
    · rw [if_neg hp]
      have hnone : log.countP (fun e => e.slot = i ∧ p (age n c e.slot) ∧ Live n c e) = 0 := by
        refine List.countP_eq_zero.mpr fun e _ => ?_
        simp only [decide_eq_true_eq]
        rintro ⟨rfl, hpe, -⟩
        exact hp hpe
      rw [hnone, Nat.cast_zero]
  rw [hslots, ← Nat.cast_sum]
  congr 1
  have hbounded := h.bounded
  clear hslots h
  induction log with
  | nil => simp
  | cons e log ih =>
    have hrest := ih fun x hx => hbounded x (List.mem_cons_of_mem e hx)
    have hslot : e.slot < n := (hbounded e List.mem_cons_self).1
    simp only [List.countP_cons, Finset.sum_add_distrib, hrest]
    congr 1
    by_cases hpe : p (age n c e.slot) ∧ Live n c e
    · have hone : ∀ i ∈ Finset.range n,
          (if decide (e.slot = i ∧ p (age n c e.slot) ∧ Live n c e) = true then 1 else 0) =
            if i = e.slot then 1 else 0 := by
        intro i _
        simp [hpe, eq_comm]
      rw [Finset.sum_congr rfl hone, Finset.sum_ite_eq' (Finset.range n) e.slot fun _ => 1]
      simp [hpe, hslot]
    · have hzero : ∀ i ∈ Finset.range n,
          (if decide (e.slot = i ∧ p (age n c e.slot) ∧ Live n c e) = true then 1 else 0) = 0 := by
        intro i _
        simp [hpe]
      rw [Finset.sum_congr rfl hzero]
      simp [hpe]

end Counted

end Rotating
