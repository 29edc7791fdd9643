import Mathlib.Data.List.Perm.Basic
import Mathlib.Algebra.BigOperators.Group.List.Basic
import Mathlib.Algebra.Order.BigOperators.Group.List
import Mathlib.Algebra.GroupWithZero.Nat
import Mathlib.Algebra.Order.Group.Nat
import Mathlib.Tactic.Common

/-! # A pool of tasks

A pool is the list of the tasks that were ever started. One step replaces one task by its
successor and appends the tasks it spawned (`advance`). `Replaced` is that change up to the order
of the list, which is all that predicates (`Replaced.forall`) and weights (`Replaced.weight`)
over the pool need.
-/
namespace Concurrency
set_option autoImplicit false

universe u
variable {τ : Type u}

/-- The pool after the task at position `k` became `t'` and spawned `new`. -/
def advance (ts : List τ) (k : ℕ) (t' : τ) (new : List τ) : List τ := ts.set k t' ++ new

/-- One task `t` of `ts` became `t'`, the tasks `new` were added, the `others` stayed. -/
def Replaced (ts : List τ) (t t' : τ) (new others ts' : List τ) : Prop :=
  ts.Perm (t :: others) ∧ ts'.Perm (t' :: (others ++ new))

/-- The others are the tasks at the other positions. -/
theorem advance_replaced {ts : List τ} {k : ℕ} {t : τ} (h : ts[k]? = some t) (t' : τ)
    (new : List τ) :
    ∃ others, Replaced ts t t' new others (advance ts k t' new) ∧
      ∀ x ∈ others, ∃ l, l ≠ k ∧ ts[l]? = some x := by
  obtain ⟨hk, ht⟩ := List.getElem?_eq_some_iff.mp h
  refine ⟨ts.take k ++ ts.drop (k + 1), ⟨?_, ?_⟩, fun x hx => ?_⟩
  · have hsplit : ts = ts.take k ++ t :: ts.drop (k + 1) := by
      rw [← ht, List.getElem_cons_drop, List.take_append_drop]
    exact (List.Perm.of_eq hsplit).trans List.perm_middle
  · rw [advance, List.set_eq_take_append_cons_drop, if_pos hk, List.append_assoc, List.cons_append]
    exact List.perm_middle.trans (by rw [List.append_assoc])
  · rcases List.mem_append.mp hx with hx | hx
    · obtain ⟨l, hl, rfl⟩ := List.mem_take_iff_getElem.mp hx
      exact ⟨l, by omega, List.getElem?_eq_getElem (by omega)⟩
    · obtain ⟨l, hl, rfl⟩ := List.mem_drop_iff_getElem.mp hx
      exact ⟨k + 1 + l, by omega, List.getElem?_eq_getElem (by omega)⟩

theorem set_replaced {ts : List τ} {k : ℕ} {t : τ} (h : ts[k]? = some t) (t' : τ) :
    ∃ others, Replaced ts t t' [] others (ts.set k t') := by
  obtain ⟨others, hrep, -⟩ := advance_replaced h t' []
  rw [advance, List.append_nil] at hrep
  exact ⟨others, hrep⟩

namespace Replaced
variable {ts ts' others new : List τ} {t t' x : τ}

theorem mem_before (h : Replaced ts t t' new others ts') : x ∈ ts ↔ x = t ∨ x ∈ others := by
  rw [h.1.mem_iff, List.mem_cons]

theorem mem_after (h : Replaced ts t t' new others ts') :
    x ∈ ts' ↔ x = t' ∨ x ∈ others ∨ x ∈ new := by
  rw [h.2.mem_iff, List.mem_cons, List.mem_append]

theorem task_mem (h : Replaced ts t t' new others ts') : t ∈ ts := h.mem_before.mpr (.inl rfl)

theorem successor_mem (h : Replaced ts t t' new others ts') : t' ∈ ts' :=
  h.mem_after.mpr (.inl rfl)

theorem new_mem (h : Replaced ts t t' new others ts') (hx : x ∈ new) : x ∈ ts' :=
  h.mem_after.mpr (.inr (.inr hx))

theorem other_mem (h : Replaced ts t t' new others ts') (hx : x ∈ others) : x ∈ ts' :=
  h.mem_after.mpr (.inr (.inl hx))

theorem other_mem_before (h : Replaced ts t t' new others ts') (hx : x ∈ others) : x ∈ ts :=
  h.mem_before.mpr (.inr hx)

theorem length_le (h : Replaced ts t t' new others ts') : ts.length ≤ ts'.length := by
  have hbefore := h.1.length_eq
  have hafter := h.2.length_eq
  simp only [List.length_cons, List.length_append] at hbefore hafter
  omega

/-- A property of every task is kept when the successor and the new tasks have it. -/
theorem forall_mem {P : τ → Prop} (h : Replaced ts t t' new others ts')
    (hother : ∀ x ∈ others, P x) (ht' : P t') (hnew : ∀ x ∈ new, P x) : ∀ x ∈ ts', P x := by
  intro x hx
  rcases h.mem_after.mp hx with rfl | hx | hx
  · exact ht'
  · exact hother x hx
  · exact hnew x hx

/-- A task with the property is still there unless it was the one that moved. -/
theorem exists_mem {P : τ → Prop} (h : Replaced ts t t' new others ts')
    (hex : ∃ x ∈ ts, P x) (ht : P t → P t') : ∃ x ∈ ts', P x := by
  obtain ⟨x, hx, hp⟩ := hex
  rcases h.mem_before.mp hx with rfl | hx
  · exact ⟨t', h.successor_mem, ht hp⟩
  · exact ⟨x, h.other_mem hx, hp⟩

end Replaced

/-! ## Weights -/

/-- The total weight of a pool. -/
def weight {M : Type*} [AddMonoid M] (f : τ → M) (ts : List τ) : M := (ts.map f).sum

@[simp] theorem weight_nil {M : Type*} [AddMonoid M] (f : τ → M) : weight f [] = 0 := rfl

@[simp] theorem weight_cons {M : Type*} [AddMonoid M] (f : τ → M) (t : τ) (ts : List τ) :
    weight f (t :: ts) = f t + weight f ts := by
  simp [weight]

@[simp] theorem weight_append {M : Type*} [AddMonoid M] (f : τ → M) (ts us : List τ) :
    weight f (ts ++ us) = weight f ts + weight f us := by
  simp [weight]

theorem weight_perm {M : Type*} [AddCommMonoid M] (f : τ → M) {ts us : List τ} (h : ts.Perm us) :
    weight f ts = weight f us :=
  (h.map f).sum_eq

theorem le_weight_of_mem (f : τ → ℕ) {t : τ} {ts : List τ} (h : t ∈ ts) : f t ≤ weight f ts :=
  List.single_le_sum (by simp) _ (List.mem_map_of_mem h)

theorem add_le_weight_of_mem (f : τ → ℕ) {t u : τ} {ts : List τ} (ht : t ∈ ts) (hu : u ∈ ts)
    (hne : t ≠ u) : f t + f u ≤ weight f ts := by
  obtain ⟨xs, ys, rfl⟩ := List.append_of_mem ht
  have hu' : u ∈ xs ++ ys := by
    rcases List.mem_append.mp hu with hu | hu
    · exact List.mem_append_left _ hu
    · exact List.mem_append_right _ ((List.mem_cons.mp hu).resolve_left (Ne.symm hne))
  have hle := le_weight_of_mem f hu'
  rw [weight_append] at hle
  rw [weight_append, weight_cons]
  omega

theorem weight_eq_zero (f : τ → ℕ) {ts : List τ} : weight f ts = 0 ↔ ∀ t ∈ ts, f t = 0 := by
  simp [weight, List.sum_eq_zero_iff]

/-- What a partial map finds, added up. -/
theorem sum_filterMap {β M : Type*} [AddMonoid M] (f : τ → Option β) (g : β → M) (ts : List τ) :
    ((ts.filterMap f).map g).sum = weight (fun t => (f t).elim 0 g) ts := by
  induction ts with
  | nil => rfl
  | cons t ts ih =>
    rw [weight_cons, ← ih]
    cases h : f t <;> simp [h]

theorem sum_indicator (p : τ → Prop) [DecidablePred p] (ts : List τ) :
    (ts.map fun t => if p t then 1 else 0).sum = ts.countP p := by
  induction ts with
  | nil => rfl
  | cons t ts ih =>
    rw [List.map_cons, List.sum_cons, ih, List.countP_cons, Nat.add_comm]
    simp

/-- A weight is at most the number of tasks that weigh anything, times a bound for each. -/
theorem weight_le_countP_mul (f : τ → ℕ) {b : ℕ} {ts : List τ} (h : ∀ t ∈ ts, f t ≤ b) :
    weight f ts ≤ ts.countP (fun t => f t ≠ 0) * b := by
  induction ts with
  | nil => simp
  | cons t ts ih =>
    have hts := ih fun u hu => h u (List.mem_cons_of_mem _ hu)
    have ht := h t (List.mem_cons_self ..)
    rw [weight_cons, List.countP_cons]
    by_cases hzero : f t = 0
    · simpa [hzero] using hts
    · have hone : (if decide (f t ≠ 0) then 1 else 0) = 1 := by simp [hzero]
      rw [hone, Nat.add_mul, Nat.one_mul]
      omega

/-- A weight that a map lowers for every task is lowered for the pool. -/
theorem weight_map_le (f : τ → ℕ) {g : τ → τ} {ts : List τ} (h : ∀ t ∈ ts, f (g t) ≤ f t) :
    weight f (ts.map g) ≤ weight f ts := by
  induction ts with
  | nil => exact le_rfl
  | cons t ts ih =>
    rw [List.map_cons, weight_cons, weight_cons]
    have ht := h t (List.mem_cons_self ..)
    have hts := ih fun u hu => h u (List.mem_cons_of_mem _ hu)
    omega

theorem weight_congr {M : Type*} [AddMonoid M] {f g : τ → M} {ts : List τ}
    (h : ∀ t ∈ ts, f t = g t) : weight f ts = weight g ts := by
  rw [weight, weight, List.map_congr_left h]

theorem weight_zero {M : Type*} [AddMonoid M] {f : τ → M} {ts : List τ} (h : ∀ t ∈ ts, f t = 0) :
    weight f ts = 0 := by
  induction ts with
  | nil => rfl
  | cons t ts ih =>
    have ht := h t (List.mem_cons_self ..)
    have hts := ih fun u hu => h u (List.mem_cons_of_mem _ hu)
    rw [weight_cons, ht, hts, add_zero]

theorem weight_filter {M : Type*} [AddMonoid M] (p : τ → Prop) [DecidablePred p] (f : τ → M)
    (ts : List τ) : weight f (ts.filter p) = weight (fun t => if p t then f t else 0) ts := by
  induction ts with
  | nil => rfl
  | cons t ts ih =>
    rw [weight_cons, ← ih]
    by_cases hp : p t
    · rw [List.filter_cons_of_pos (by simpa using hp), weight_cons, if_pos hp]
    · rw [List.filter_cons_of_neg (by simpa using hp), if_neg hp, zero_add]

theorem weight_flatMap {M β : Type*} [AddMonoid M] (f : β → M) (g : τ → List β) (ts : List τ) :
    weight f (ts.flatMap g) = weight (fun t => weight f (g t)) ts := by
  induction ts with
  | nil => rfl
  | cons t ts ih => rw [List.flatMap_cons, weight_append, weight_cons, ih]

theorem weight_add {M : Type*} [AddCommMonoid M] (f g : τ → M) (ts : List τ) :
    weight (fun t => f t + g t) ts = weight f ts + weight g ts :=
  List.sum_map_add

theorem weight_natCast (f : τ → ℕ) (ts : List τ) :
    ((weight f ts : ℕ) : ℤ) = weight (fun t => (f t : ℤ)) ts := by
  induction ts with
  | nil => rfl
  | cons t ts ih => rw [weight_cons, weight_cons, ← ih, Int.natCast_add]

/-- Where one task of a kind is there, a weight that only the kind has is the weight of the task. -/
theorem weight_eq_of_once {M : Type*} [AddCommMonoid M] {f : τ → M} {g : τ → ℕ} {ts : List τ} {t : τ}
    (honce : weight g ts ≤ 1) (ht : t ∈ ts) (hg : g t = 1) (h : ∀ u ∈ ts, g u = 0 → f u = 0) :
    weight f ts = f t := by
  obtain ⟨xs, ys, rfl⟩ := List.append_of_mem ht
  rw [weight_append, weight_cons, hg] at honce
  have hxs : weight g xs = 0 := by omega
  have hys : weight g ys = 0 := by omega
  have hleft : weight f xs = 0 := weight_zero fun u hu =>
    h u (List.mem_append_left _ hu) ((weight_eq_zero g).mp hxs u hu)
  have hright : weight f ys = 0 := weight_zero fun u hu =>
    h u (List.mem_append_right _ (List.mem_cons_of_mem _ hu)) ((weight_eq_zero g).mp hys u hu)
  rw [weight_append, weight_cons, hleft, hright, zero_add, add_zero]

/-- A weight, by the group of each task. -/
theorem weight_grouped {M κ : Type*} [AddCommMonoid M] [DecidableEq κ] {f : τ → M} {group : τ → κ}
    {ks : List κ} {ts : List τ} (hks : ks.Nodup) (h : ∀ t ∈ ts, f t ≠ 0 → group t ∈ ks) :
    weight f ts = weight (fun k => weight (fun t => if group t = k then f t else 0) ts) ks := by
  induction ts with
  | nil =>
    symm
    exact weight_zero fun _ _ => rfl
  | cons t ts ih =>
    have hts := ih fun u hu => h u (List.mem_cons_of_mem _ hu)
    have hone : weight (fun k => if group t = k then f t else 0) ks = f t := by
      by_cases hzero : f t = 0
      · rw [hzero]
        exact weight_zero fun k _ => by split <;> rfl
      · have hmem := h t (List.mem_cons_self ..) hzero
        have hcount : weight (fun k => if group t = k then 1 else 0) ks ≤ 1 := by
          have hle := List.nodup_iff_count.mp hks (group t)
          rw [weight, sum_indicator]
          rw [List.count_eq_countP] at hle
          refine (List.countP_congr fun k _ => ?_).trans_le hle
          rw [decide_eq_true_iff, beq_iff_eq, eq_comm]
        rw [weight_eq_of_once hcount hmem (if_pos rfl) fun k _ hk => ?_, if_pos rfl]
        split
        · next heq => rw [if_pos heq] at hk; cases hk
        · rfl
    rw [weight_cons, hts, ← hone, weight, weight, ← List.sum_map_add]
    rfl

namespace Replaced
variable {ts ts' others new : List τ} {t t' : τ} {M : Type*} [AddCommMonoid M]

theorem weight_before (h : Replaced ts t t' new others ts') (f : τ → M) :
    weight f ts = f t + weight f others := by
  rw [weight_perm f h.1, weight_cons]

theorem weight_after (h : Replaced ts t t' new others ts') (f : τ → M) :
    weight f ts' = f t' + (weight f others + weight f new) := by
  rw [weight_perm f h.2, weight_cons, weight_append]

theorem countP_before (h : Replaced ts t t' new others ts') (p : τ → Bool) :
    ts.countP p = others.countP p + if p t then 1 else 0 := by
  rw [h.1.countP_eq, List.countP_cons]

theorem countP_after (h : Replaced ts t t' [] others ts') (p : τ → Bool) :
    ts'.countP p = others.countP p + if p t' then 1 else 0 := by
  rw [h.2.countP_eq, List.append_nil, List.countP_cons]

end Replaced

end Concurrency
