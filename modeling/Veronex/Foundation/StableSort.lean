import Mathlib.Data.List.Sort
import Mathlib.Tactic.Common

/-! # The order a stable sort leaves

`pairwise_mergeSort_iff`: what holds of every pair of a sorted list, read off the list before the
sort: of a pair that is in order already as it stands, of any other pair the other way round.
`pairwise_insertionSort_key`: a list sorted by a key is in the order of the keys.
-/
namespace Concurrency
set_option autoImplicit false
open List

universe u
variable {α : Type u} {le : α → α → Bool} {l : List α} {a b : α}

/-- Two elements of a list stand in it one before the other. -/
theorem pair_sublist_or (ha : a ∈ l) (hb : b ∈ l) (hne : a ≠ b) : [a, b] <+ l ∨ [b, a] <+ l := by
  induction l with
  | nil => cases ha
  | cons x l ih =>
    rcases List.mem_cons.mp ha with rfl | ha'
    · have hbl := (List.mem_cons.mp hb).resolve_left (Ne.symm hne)
      exact .inl ((List.singleton_sublist.mpr hbl).cons_cons a)
    · rcases List.mem_cons.mp hb with rfl | hb'
      · exact .inr ((List.singleton_sublist.mpr ha').cons_cons b)
      · rcases ih ha' hb' with h | h
        · exact .inl (h.cons x)
        · exact .inr (h.cons x)

/-- The elements that tie with one keep their order. -/
theorem filter_mergeSort (htrans : ∀ a b c, le a b → le b c → le a c)
    (htotal : ∀ a b, le a b || le b a) (a : α) :
    (l.mergeSort le).filter (fun x => le a x && le x a) =
      l.filter fun x => le a x && le x a := by
  have hties : (l.filter fun x => le a x && le x a).Pairwise fun x y => le x y := by
    refine List.pairwise_of_forall_mem_list fun x hx y hy => ?_
    have hx' := (Bool.and_eq_true_iff.mp (List.mem_filter.mp hx).2).2
    have hy' := (Bool.and_eq_true_iff.mp (List.mem_filter.mp hy).2).1
    exact htrans x a y hx' hy'
  have hsub : (l.filter fun x => le a x && le x a) <+ l.mergeSort le :=
    List.sublist_mergeSort htrans htotal hties List.filter_sublist
  have hfiltered := hsub.filter fun x => le a x && le x a
  rw [List.filter_filter] at hfiltered
  simp only [Bool.and_self] at hfiltered
  have hlength := ((List.mergeSort_perm l le).filter fun x => le a x && le x a).length_eq
  exact (hfiltered.eq_of_length hlength.symm).symm

theorem pairwise_mergeSort_iff (htrans : ∀ a b c, le a b → le b c → le a c)
    (htotal : ∀ a b, le a b || le b a) {R : α → α → Prop} :
    (l.mergeSort le).Pairwise R ↔
      l.Pairwise fun a b => (le a b = true → R a b) ∧ (le a b = false → R b a) := by
  have hrefl : ∀ x, le x x = true := fun x => by simpa using htotal x x
  have hsorted := List.pairwise_mergeSort htrans htotal l
  rw [List.pairwise_iff_forall_sublist, List.pairwise_iff_forall_sublist]
  rw [List.pairwise_iff_forall_sublist] at hsorted
  constructor
  · intro h a b hab
    refine ⟨fun hle => h (List.pair_sublist_mergeSort htrans htotal hle hab), fun hnle => h ?_⟩
    have hne : a ≠ b := by
      rintro rfl
      rw [hrefl] at hnle
      cases hnle
    have hmem : ∀ x, x ∈ [a, b] → x ∈ l.mergeSort le :=
      fun x hx => List.mem_mergeSort.mpr (hab.subset hx)
    rcases pair_sublist_or (hmem a (by simp)) (hmem b (by simp)) hne with hsub | hsub
    · rw [hsorted hsub] at hnle
      cases hnle
    · exact hsub
  · intro h a b hab
    have hle := hsorted hab
    by_cases hback : le b a = true
    · -- a tie keeps the order it had
      have hsub : [a, b] <+ l.filter fun x => le a x && le x a := by
        rw [← filter_mergeSort htrans htotal a]
        have hfiltered := hab.filter fun x => le a x && le x a
        simpa [hrefl, hle, hback] using hfiltered
      exact (h (hsub.trans List.filter_sublist)).1 hle
    · have hne : a ≠ b := by
        rintro rfl
        exact hback hle
      have hmem : ∀ x, x ∈ [a, b] → x ∈ l :=
        fun x hx => List.mem_mergeSort.mp (hab.subset hx)
      rcases pair_sublist_or (hmem a (by simp)) (hmem b (by simp)) hne with hsub | hsub
      · exact (h hsub).1 hle
      · exact (h hsub).2 (by simpa using hback)

theorem pairwise_insertionSort_key {κ : Type u} [LinearOrder κ] (key : α → κ)
    [DecidableRel fun a b : α => key a ≤ key b] (l : List α) :
    (l.insertionSort fun a b => key a ≤ key b).Pairwise fun a b => key a ≤ key b := by
  have : Std.Total fun a b : α => key a ≤ key b := ⟨fun a b => le_total (key a) (key b)⟩
  have : IsTrans α fun a b => key a ≤ key b := ⟨fun _ _ _ => le_trans⟩
  exact List.pairwise_insertionSort _ l

end Concurrency
