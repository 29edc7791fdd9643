import Mathlib.Data.List.Nodup
import Mathlib.Tactic.Common

/-! # A store that ignores a block it has accepted

Rows come in blocks. A block whose bytes are those of an accepted block is ignored, every other block
is stored; rows are told apart by a key that is not among the bytes. Sending a block again is safe as
long as it stays the same (`insert_insert`); `Settled` is what a block has to keep, from one attempt to
the next, for its rows to be stored once (`nodup_insert`). A block that has grown since some of it was
stored is not settled, and its rows are stored again (`not_nodup_insert`).
-/
namespace Blocks
set_option autoImplicit false

universe u v w

structure BlockStore (ρ : Type u) (κ : Type v) where
  /-- The bytes of the accepted blocks. -/
  accepted : List κ
  rows : List ρ

namespace BlockStore
variable {ρ : Type u} {κ : Type v} {ι : Type w} (bytes : List ρ → κ) (key : ρ → ι)
  (s : BlockStore ρ κ) (block : List ρ)

def empty : BlockStore ρ κ := ⟨[], []⟩

def keys : List ι := s.rows.map key

/-- The block is accepted as it is, or none of its rows is stored. -/
def Settled : Prop := bytes block ∈ s.accepted ∨ ∀ r ∈ block, key r ∉ s.keys key

instance [DecidableEq κ] [DecidableEq ι] : Decidable (s.Settled bytes key block) :=
  inferInstanceAs (Decidable (_ ∨ _))

def insert [DecidableEq κ] : BlockStore ρ κ :=
  if bytes block ∈ s.accepted then s
  else { accepted := bytes block :: s.accepted, rows := s.rows ++ block }

variable {bytes key s block} {r : ρ}

theorem settled_nil : s.Settled bytes key [] := .inr fun _ hr => absurd hr List.not_mem_nil

variable [DecidableEq κ]

theorem insert_of_mem (h : bytes block ∈ s.accepted) : s.insert bytes block = s := if_pos h

theorem rows_insert_of_notMem (h : bytes block ∉ s.accepted) :
    (s.insert bytes block).rows = s.rows ++ block := by
  rw [insert, if_neg h]

theorem keys_insert_of_notMem (h : bytes block ∉ s.accepted) :
    (s.insert bytes block).keys key = s.keys key ++ block.map key := by
  rw [keys, rows_insert_of_notMem h, List.map_append, keys]

theorem mem_accepted_insert : bytes block ∈ (s.insert bytes block).accepted := by
  rw [insert]
  split
  · next h => exact h
  · exact List.mem_cons_self ..

theorem insert_insert : (s.insert bytes block).insert bytes block = s.insert bytes block :=
  insert_of_mem mem_accepted_insert

theorem settled_insert : (s.insert bytes block).Settled bytes key block := .inl mem_accepted_insert

theorem mem_rows_insert (h : r ∈ (s.insert bytes block).rows) : r ∈ s.rows ∨ r ∈ block := by
  by_cases hmem : bytes block ∈ s.accepted
  · rw [insert_of_mem hmem] at h
    exact .inl h
  · rw [rows_insert_of_notMem hmem] at h
    exact List.mem_append.mp h

theorem nodup_insert (hkeys : (s.keys key).Nodup) (hblock : (block.map key).Nodup)
    (h : s.Settled bytes key block) : ((s.insert bytes block).keys key).Nodup := by
  by_cases hmem : bytes block ∈ s.accepted
  · rw [insert_of_mem hmem]
    exact hkeys
  · have hfresh := h.resolve_left hmem
    rw [keys_insert_of_notMem hmem, List.nodup_append]
    refine ⟨hkeys, hblock, fun a ha b hb heq => ?_⟩
    obtain ⟨r, hr, rfl⟩ := List.mem_map.mp hb
    exact hfresh r hr (heq ▸ ha)

theorem not_nodup_insert (hnew : bytes block ∉ s.accepted) (hr : r ∈ block)
    (hstored : key r ∈ s.keys key) : ¬ ((s.insert bytes block).keys key).Nodup := by
  rw [keys_insert_of_notMem hnew, List.nodup_append]
  exact fun h => h.2.2 _ hstored _ (List.mem_map_of_mem hr) rfl

end BlockStore

end Blocks
