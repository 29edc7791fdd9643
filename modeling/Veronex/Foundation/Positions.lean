import Mathlib.Data.List.Basic
import Mathlib.Data.List.Induction
import Mathlib.Tactic.Common

/-! # Positions in blocks

A list is cut into blocks, and each element that satisfies `p` is given its position in its own
block. `positions_range_iff`: when these positions number the elements of all blocks.
`flatMap_eq_iff`: when two ways to fill the blocks lead to the same list.
-/
namespace Concurrency
set_option autoImplicit false

universe u
variable {α : Type u} {p : α → Bool} {xs : List α} {xss : List (List α)} {k : ℕ} {c : α}

/-- The positions of the elements that satisfy `p`. -/
def positions (p : α → Bool) (xs : List α) : List ℕ :=
  (xs.zipIdx.filter fun e => p e.1).map Prod.snd

/-- Each element that satisfies `p` is where its number is, the first one having number `k`. -/
def InPlace (p : α → Bool) (k : ℕ) (xs : List α) : Prop :=
  ∀ front c back, xs = front ++ c :: back → p c = true → front.length = k + front.countP p

/-- The same for the blocks, whose elements are numbered through. -/
def BlocksInPlace (p : α → Bool) (xss : List (List α)) : Prop :=
  ∀ before xs after, xss = before ++ xs :: after → InPlace p (before.flatten.countP p) xs

@[simp] theorem positions_nil : positions p [] = [] := rfl

theorem positions_concat :
    positions p (xs ++ [c]) = positions p xs ++ if p c then [xs.length] else [] := by
  unfold positions
  rw [List.zipIdx_append, List.filter_append, List.map_append]
  by_cases hc : p c = true
  · simp [hc]
  · simp [hc]

theorem positions_length (p : α → Bool) (xs : List α) : (positions p xs).length = xs.countP p := by
  induction xs using List.reverseRecOn with
  | nil => rfl
  | append_singleton xs c ih =>
    rw [positions_concat, List.length_append, ih, List.countP_append, List.countP_singleton]
    by_cases hc : p c = true
    · simp [hc]
    · simp [hc]

theorem inPlace_concat :
    InPlace p k (xs ++ [c]) ↔ InPlace p k xs ∧ (p c = true → xs.length = k + xs.countP p) := by
  constructor
  · intro h
    refine ⟨fun front d back heq hd => ?_, fun hc => h xs c [] rfl hc⟩
    refine h front d (back ++ [c]) ?_ hd
    rw [heq, List.append_assoc, List.cons_append]
  · rintro ⟨h, hlast⟩ front d back heq hd
    rcases List.eq_nil_or_concat back with rfl | ⟨back', e, rfl⟩
    · obtain ⟨rfl, hdc⟩ := List.append_inj' heq rfl
      obtain rfl : c = d := (List.cons.inj hdc).1
      exact hlast hd
    · refine h front d back' ?_ hd
      have heq' : xs ++ [c] = (front ++ d :: back') ++ [e] := by
        rw [heq, List.concat_eq_append, List.append_assoc, List.cons_append]
      exact (List.append_inj' heq' rfl).1

theorem positions_range'_iff : positions p xs = List.range' k (xs.countP p) ↔ InPlace p k xs := by
  induction xs using List.reverseRecOn with
  | nil =>
    refine iff_of_true rfl fun front c back heq => ?_
    simp at heq
  | append_singleton xs c ih =>
    rw [inPlace_concat, ← ih, positions_concat, List.countP_append, List.countP_singleton]
    by_cases hc : p c = true
    · have hlength : (positions p xs).length = (List.range' k (xs.countP p)).length := by
        rw [positions_length, List.length_range']
      rw [if_pos hc, if_pos hc, List.range'_concat, Nat.one_mul]
      constructor
      · intro h
        obtain ⟨hrest, hlast⟩ := List.append_inj h hlength
        exact ⟨hrest, fun _ => (List.cons.inj hlast).1⟩
      · rintro ⟨hrest, hlast⟩
        rw [hrest, hlast hc]
    · rw [if_neg hc, if_neg hc, List.append_nil, Nat.add_zero]
      simp [hc]

theorem blocksInPlace_concat : BlocksInPlace p (xss ++ [xs]) ↔
    BlocksInPlace p xss ∧ InPlace p (xss.flatten.countP p) xs := by
  constructor
  · intro h
    refine ⟨fun before ys after heq => ?_, h xss xs [] rfl⟩
    refine h before ys (after ++ [xs]) ?_
    rw [heq, List.append_assoc, List.cons_append]
  · rintro ⟨h, hlast⟩ before ys after heq
    rcases List.eq_nil_or_concat after with rfl | ⟨after', zs, rfl⟩
    · obtain ⟨rfl, hys⟩ := List.append_inj' heq rfl
      obtain rfl : xs = ys := (List.cons.inj hys).1
      exact hlast
    · refine h before ys after' ?_
      have heq' : xss ++ [xs] = (before ++ ys :: after') ++ [zs] := by
        rw [heq, List.concat_eq_append, List.append_assoc, List.cons_append]
      exact (List.append_inj' heq' rfl).1

theorem flatMap_positions_length (p : α → Bool) (xss : List (List α)) :
    (xss.flatMap (positions p)).length = xss.flatten.countP p := by
  induction xss with
  | nil => rfl
  | cons xs xss ih =>
    rw [List.flatMap_cons, List.length_append, positions_length, ih, List.flatten_cons,
      List.countP_append]

/-- The positions in the blocks number the elements of all blocks exactly if every element is where
its number is. -/
theorem positions_range_iff :
    xss.flatMap (positions p) = List.range (xss.flatten.countP p) ↔ BlocksInPlace p xss := by
  rw [List.range_eq_range']
  induction xss using List.reverseRecOn with
  | nil =>
    refine iff_of_true rfl fun before xs after heq => ?_
    simp at heq
  | append_singleton xss xs ih =>
    have hlength : (xss.flatMap (positions p)).length =
        (List.range' 0 (xss.flatten.countP p)).length := by
      rw [flatMap_positions_length, List.length_range']
    have hcut : List.range' 0 (xss.flatten.countP p + xs.countP p) =
        List.range' 0 (xss.flatten.countP p) ++ List.range' (xss.flatten.countP p) (xs.countP p) := by
      rw [← List.range'_append_1, Nat.zero_add]
    rw [blocksInPlace_concat, ← ih, ← positions_range'_iff, List.flatMap_append, List.flatten_append,
      List.countP_append, List.flatMap_singleton, List.flatten_singleton, hcut]
    constructor
    · exact fun h => List.append_inj h hlength
    · rintro ⟨hrest, hlast⟩
      rw [hrest, hlast]

/-! ## Two ways to fill the blocks -/

section Fill
universe v
variable {β : Type v} {f g : α → List β}

theorem length_flatMap_le (hle : ∀ a ∈ xs, (g a).length ≤ (f a).length) :
    (xs.flatMap g).length ≤ (xs.flatMap f).length := by
  induction xs with
  | nil => simp
  | cons a xs ih =>
    obtain ⟨ha, hxs⟩ := List.forall_mem_cons.mp hle
    have hrest := ih hxs
    rw [List.flatMap_cons, List.flatMap_cons, List.length_append, List.length_append]
    omega

/-- Where no block of the one is shorter, they agree block by block. -/
theorem flatMap_eq_iff (hle : ∀ a ∈ xs, (g a).length ≤ (f a).length) :
    xs.flatMap f = xs.flatMap g ↔ ∀ a ∈ xs, f a = g a := by
  refine ⟨fun h => ?_, List.flatMap_congr⟩
  induction xs with
  | nil => simp
  | cons a xs ih =>
    obtain ⟨ha, hxs⟩ := List.forall_mem_cons.mp hle
    have hrest := length_flatMap_le hxs
    rw [List.flatMap_cons, List.flatMap_cons] at h
    have hlength := congrArg List.length h
    rw [List.length_append, List.length_append] at hlength
    obtain ⟨hhead, htail⟩ := List.append_inj h (by omega)
    exact List.forall_mem_cons.mpr ⟨hhead, ih hxs htail⟩

end Fill

end Concurrency
