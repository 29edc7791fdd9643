import Mathlib.Data.List.Lex
import Mathlib.Data.List.Nodup
import Mathlib.Data.List.Sort
import Mathlib.Tactic.Common

/-! # Values under distinct keys

Records have distinct keys, some of them are kept, and a list of keys is looked up among them.
`filterMap_perm_iff`: when the values found are those of all records. `mem_take_iff_countP`: which
elements of a sorted list are among the first.
-/
namespace Concurrency
set_option autoImplicit false

universe u v w

section Keys
variable {κ : Type u} {ε : Type v} {β : Type w} {keys : List κ} {records : List ε} {key : ε → κ}
  {val : ε → β} {kept : ε → Bool} {find : κ → Option β}

/-- The values found are those of the kept records whose keys are looked up. -/
theorem filterMap_perm_filter [DecidableEq κ] (hkeys : keys.Nodup) (hrecords : (records.map key).Nodup)
    (hfind : ∀ k v, find k = some v ↔ ∃ x ∈ records, kept x = true ∧ key x = k ∧ val x = v) :
    (keys.filterMap find).Perm
      ((records.filter fun x => kept x && decide (key x ∈ keys)).map val) := by
  induction keys with
  | nil => simp
  | cons k keys ih =>
    obtain ⟨hk, hkeys⟩ := List.nodup_cons.mp hkeys
    have hrest := ih hkeys
    cases hval : find k with
    | none =>
      -- no kept record has the key
      have hsame : (records.filter fun x => kept x && decide (key x ∈ k :: keys)) =
          records.filter fun x => kept x && decide (key x ∈ keys) := by
        refine List.filter_congr fun x hx => ?_
        cases hkept : kept x with
        | false => rfl
        | true =>
          have hne : key x ≠ k := by
            rintro rfl
            have hsome := (hfind (key x) (val x)).mpr ⟨x, hx, hkept, rfl, rfl⟩
            rw [hval] at hsome
            cases hsome
          simp [hne]
      rw [List.filterMap_cons_none hval, hsame]
      exact hrest
    | some v =>
      obtain ⟨x, hx, hkept, hxk, rfl⟩ := (hfind k v).mp hval
      obtain ⟨before, after, rfl⟩ := List.append_of_mem hx
      have hother : ∀ y ∈ before ++ after, key y ≠ k := by
        intro y hy hyk
        have hperm : (before ++ x :: after).Perm (x :: (before ++ after)) := List.perm_middle
        have hnodup := (hperm.map key).nodup_iff.mp hrecords
        rw [List.map_cons, List.nodup_cons] at hnodup
        exact hnodup.1 (List.mem_map.mpr ⟨y, hy, hyk.trans hxk.symm⟩)
      have hsame : ∀ ys : List ε, (∀ y ∈ ys, key y ≠ k) →
          (ys.filter fun y => kept y && decide (key y ∈ k :: keys)) =
            ys.filter fun y => kept y && decide (key y ∈ keys) := by
        intro ys hys
        refine List.filter_congr fun y hy => ?_
        simp [hys y hy]
      have hin : ((x :: after).filter fun y => kept y && decide (key y ∈ k :: keys)) =
          x :: after.filter fun y => kept y && decide (key y ∈ k :: keys) :=
        List.filter_cons_of_pos (by simp [hkept, hxk])
      have hout : ((x :: after).filter fun y => kept y && decide (key y ∈ keys)) =
          after.filter fun y => kept y && decide (key y ∈ keys) :=
        List.filter_cons_of_neg (by simp [hxk, hk])
      rw [List.filter_append, hout, List.map_append] at hrest
      rw [List.filterMap_cons_some hval, List.filter_append, hin,
        hsame before fun y hy => hother y (List.mem_append_left _ hy),
        hsame after fun y hy => hother y (List.mem_append_right _ hy), List.map_append, List.map_cons]
      exact (hrest.cons _).trans List.perm_middle.symm

/-- The values found are those of all records exactly if every record is kept and looked up. -/
theorem filterMap_perm_iff [DecidableEq κ] (hkeys : keys.Nodup) (hrecords : (records.map key).Nodup)
    (hfind : ∀ k v, find k = some v ↔ ∃ x ∈ records, kept x = true ∧ key x = k ∧ val x = v) :
    (keys.filterMap find).Perm (records.map val) ↔ ∀ x ∈ records, kept x = true ∧ key x ∈ keys := by
  have hperm := filterMap_perm_filter hkeys hrecords hfind
  constructor
  · intro h
    have hlength := (hperm.symm.trans h).length_eq
    rw [List.length_map, List.length_map, List.length_filter_eq_length_iff] at hlength
    intro x hx
    simpa using hlength x hx
  · intro h
    rw [List.filter_eq_self.mpr fun x hx => by simpa using h x hx] at hperm
    exact hperm

end Keys

section Positions
variable {α : Type u} {β : Type v} {γ : Type w} {f : β → Option γ}

theorem filterMap_zipIdx_getElem? (xs : List α) (ys : List β) (n : ℕ) :
    (xs.zipIdx n).filterMap (fun p => ys[p.2]?.bind f) = ((ys.drop n).take xs.length).filterMap f := by
  induction xs generalizing n with
  | nil => simp
  | cons x xs ih =>
    rw [List.zipIdx_cons, List.filterMap_cons, ih, List.length_cons]
    by_cases hn : n < ys.length
    · rw [List.drop_eq_getElem_cons hn, List.take_succ_cons, List.filterMap_cons,
        List.getElem?_eq_getElem hn]
      rfl
    · have hdrop : ys.drop n = [] := List.drop_eq_nil_iff.mpr (Nat.le_of_not_lt hn)
      have hdrop' : ys.drop (n + 1) = [] := List.drop_eq_nil_iff.mpr (by omega)
      rw [List.getElem?_eq_none (Nat.le_of_not_lt hn), hdrop, hdrop']
      simp

/-- Each element of one list stands for the one at its position in another. -/
theorem filterMap_positions (xs : List α) (ys : List β) :
    xs.zipIdx.filterMap (fun p => ys[p.2]?.bind f) = (ys.take xs.length).filterMap f :=
  filterMap_zipIdx_getElem? xs ys 0

end Positions

section Sorted
variable {α : Type u} [LinearOrder α] {xs : List α} {a : α} {n : ℕ}

/-- An element of a strictly sorted list is among the first `n` exactly if fewer than `n` are
smaller. -/
theorem mem_take_iff_countP (hxs : xs.Pairwise (· < ·)) (ha : a ∈ xs) :
    a ∈ xs.take n ↔ xs.countP (fun b => b < a) < n := by
  induction xs generalizing n with
  | nil => cases ha
  | cons b xs ih =>
    obtain ⟨hb, hxs⟩ := List.pairwise_cons.mp hxs
    cases n with
    | zero => simp
    | succ n =>
      rw [List.take_succ_cons, List.mem_cons, List.countP_cons]
      rcases List.mem_cons.mp ha with rfl | ha
      · have hnone : xs.countP (fun b => b < a) = 0 :=
          List.countP_eq_zero.mpr fun c hc => by simpa using (hb c hc).le
        simp [hnone]
      · have hlt := hb a ha
        rw [ih hxs ha]
        simp [hlt, hlt.ne']

/-- Sorting distinct elements leaves them strictly sorted. -/
theorem pairwise_lt_insertionSort (hxs : xs.Nodup) :
    (xs.insertionSort (· ≤ ·)).Pairwise (· < ·) := by
  have hnodup := (List.perm_insertionSort (· ≤ ·) xs).nodup_iff.mpr hxs
  exact (List.pairwise_insertionSort (· ≤ ·) xs).imp₂ (fun a b hle hne => lt_of_le_of_ne hle hne) hnodup

/-- The first `n` of distinct elements in their order. -/
theorem mem_take_insertionSort (hxs : xs.Nodup) (ha : a ∈ xs) :
    a ∈ (xs.insertionSort (· ≤ ·)).take n ↔ xs.countP (fun b => b < a) < n := by
  have hmem : a ∈ xs.insertionSort (· ≤ ·) := (List.mem_insertionSort _).mpr ha
  rw [mem_take_iff_countP (pairwise_lt_insertionSort hxs) hmem,
    (List.perm_insertionSort (· ≤ ·) xs).countP_eq]

end Sorted

end Concurrency
