import Mathlib.Data.List.AList
import Mathlib.Algebra.BigOperators.Group.List.Basic
import Mathlib.Algebra.Order.BigOperators.Group.List
import Mathlib.Algebra.Order.Group.Nat
import Mathlib.Tactic.Common

/-! # Totals over a finite map

`total f s` adds up `f key value` over the entries of an association list. An update moves a total
by the difference of the values at the one key it touches; `total_insert_of_lookup` and
`total_erase_of_lookup` say so without subtraction.
-/
namespace Concurrency
set_option autoImplicit false

universe u v
variable {α : Type u} {β : Type v} {M : Type*} [AddCommMonoid M]

/-- The sum of `f` over the entries. -/
def total (f : α → β → M) (s : AList fun _ : α => β) : M :=
  (s.entries.map fun e => f e.1 e.2).sum

@[simp] theorem total_empty (f : α → β → M) : total f (∅ : AList fun _ : α => β) = 0 := rfl

variable [DecidableEq α] {s : AList fun _ : α => β} {k : α} {b b' : β}

/-- The entry of a key comes first, the others after it. -/
theorem entries_perm_of_lookup (h : s.lookup k = some b) :
    s.entries.Perm (⟨k, b⟩ :: (s.erase k).entries) := by
  have hmem : k ∈ s.entries.keys :=
    AList.mem_keys.mp (AList.lookup_isSome.mp (by rw [h]; rfl))
  obtain ⟨b', l₁, l₂, _, hsplit, herase⟩ := List.exists_of_kerase hmem
  have hlookup : s.lookup k = some b' := by
    refine AList.mem_lookup_iff.mpr ?_
    rw [hsplit]
    simp
  have hb : b' = b := Option.some.inj (hlookup.symm.trans h)
  have herase' : (s.erase k).entries = l₁ ++ l₂ := herase
  rw [herase', hsplit, hb]
  exact List.perm_middle

theorem total_erase_of_lookup (f : α → β → M) (h : s.lookup k = some b) :
    total f s = f k b + total f (s.erase k) := by
  have hperm := (entries_perm_of_lookup h).map fun e => f e.1 e.2
  simpa [total] using hperm.sum_eq

theorem total_erase_of_notMem (f : α → β → M) (h : k ∉ s) : total f (s.erase k) = total f s := by
  have hentries : (s.erase k).entries = s.entries := List.kerase_of_notMem_keys h
  rw [total, total, hentries]

theorem total_insert (f : α → β → M) (s : AList fun _ : α => β) (k : α) (b : β) :
    total f (s.insert k b) = f k b + total f (s.erase k) := by
  have hentries : (s.insert k b).entries = ⟨k, b⟩ :: (s.erase k).entries := AList.entries_insert ..
  rw [total, total, hentries, List.map_cons, List.sum_cons]

/-- Replacing the value of a key. -/
theorem total_insert_of_lookup (f : α → β → M) (h : s.lookup k = some b) (b' : β) :
    total f (s.insert k b') + f k b = total f s + f k b' := by
  rw [total_insert, total_erase_of_lookup f h]
  rw [add_comm (f k b') (total f (s.erase k)), add_right_comm, add_comm _ (f k b)]

theorem total_insert_of_notMem (f : α → β → M) (h : k ∉ s) (b : β) :
    total f (s.insert k b) = f k b + total f s := by
  rw [total_insert, total_erase_of_notMem f h]

theorem total_insert_of_lookup_none (f : α → β → M) (h : s.lookup k = none) (b : β) :
    total f (s.insert k b) = f k b + total f s :=
  total_insert_of_notMem f (AList.lookup_eq_none.mp h) b

theorem le_total_of_lookup (f : α → β → ℕ) (h : s.lookup k = some b) : f k b ≤ total f s := by
  rw [total_erase_of_lookup f h]
  exact Nat.le_add_right ..

/-! ## Counting entries -/

/-- The number of entries that satisfy `p`. -/
def countEntries (p : α → β → Bool) (s : AList fun _ : α => β) : ℕ :=
  total (fun k b => if p k b then 1 else 0) s

theorem countEntries_pos_iff {p : α → β → Bool} :
    0 < countEntries p s ↔ ∃ k b, s.lookup k = some b ∧ p k b := by
  constructor
  · intro hpos
    by_contra hnone
    have hzero : countEntries p s = 0 := by
      refine List.sum_eq_zero fun x hx => ?_
      obtain ⟨e, he, rfl⟩ := List.mem_map.mp hx
      refine if_neg fun hp => hnone ⟨e.1, e.2, AList.mem_lookup_iff.mpr he, hp⟩
    omega
  · rintro ⟨k, b, hlookup, hp⟩
    have hle := le_total_of_lookup (fun k b => if p k b then 1 else 0) hlookup
    rw [if_pos hp] at hle
    exact hle

end Concurrency
