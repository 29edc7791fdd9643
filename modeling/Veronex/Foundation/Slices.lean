import Mathlib.Algebra.GroupWithZero.Nat
import Mathlib.Tactic.Common

/-! # Slices of an encoded list

Elements take several units each, positions count units, and a slice whose bounds are out of order or
inside an element fails. `upTo_append`, `from_append`, `slice_append`: slices at the seams of a
concatenation succeed.
-/
namespace Slices
set_option autoImplicit false

universe u
variable {α : Type u} (w : α → ℕ)

/-- The length in units. -/
def len (s : List α) : ℕ := (s.map w).sum

/-- The parts before and after a position. -/
def cut : ℕ → List α → Option (List α × List α)
  | 0, s => some ([], s)
  | _ + 1, [] => none
  | n + 1, a :: s =>
    if w a ≤ n + 1 then (cut (n + 1 - w a) s).map fun p => (a :: p.1, p.2) else none

def upTo (n : ℕ) (s : List α) : Option (List α) := (cut w n s).map Prod.fst

def startingAt (n : ℕ) (s : List α) : Option (List α) := (cut w n s).map Prod.snd

def slice (i j : ℕ) (s : List α) : Option (List α) :=
  if i ≤ j then (upTo w j s).bind (startingAt w i) else none

/-- The position of the first `a`. -/
def find [DecidableEq α] (a : α) : List α → Option ℕ
  | [] => none
  | b :: s => if b = a then some 0 else (find a s).map (w b + ·)

variable {w} {a : α} {s u v : List α}

@[simp] theorem len_nil : len w [] = 0 := rfl

@[simp] theorem len_cons : len w (a :: s) = w a + len w s := rfl

@[simp] theorem len_append : len w (u ++ v) = len w u + len w v := by
  simp [len]

section Cuts
variable (hw : ∀ a, 0 < w a)
include hw

theorem cut_append : cut w (len w u) (u ++ v) = some (u, v) := by
  induction u with
  | nil => simp [cut]
  | cons a u ih =>
    obtain ⟨n, hn⟩ : ∃ n, w a + len w u = n + 1 :=
      ⟨w a + len w u - 1, by have := hw a; omega⟩
    have hle : w a ≤ n + 1 := by omega
    have hrest : n + 1 - w a = len w u := by omega
    rw [len_cons, hn, List.cons_append, cut, if_pos hle, hrest, ih]
    rfl

theorem upTo_append : upTo w (len w u) (u ++ v) = some u := by
  rw [upTo, cut_append hw, Option.map_some]

theorem startingAt_append : startingAt w (len w u) (u ++ v) = some v := by
  rw [startingAt, cut_append hw, Option.map_some]

theorem slice_append {x : List α} : slice w (len w u) (len w u + len w x) (u ++ (x ++ v)) = some x := by
  have hcut : upTo w (len w u + len w x) (u ++ (x ++ v)) = some (u ++ x) := by
    rw [← len_append, ← List.append_assoc]
    exact upTo_append hw
  rw [slice, if_pos (Nat.le_add_right _ _), hcut]
  exact startingAt_append hw

end Cuts

theorem slice_of_lt {i j : ℕ} (h : j < i) : slice w i j s = none := if_neg (Nat.not_le.mpr h)

/-- The seam at the first `a` is unique. -/
theorem seam_inj {x y : List α} (hu : a ∉ u) (hx : a ∉ x) (h : u ++ a :: v = x ++ a :: y) :
    u = x ∧ v = y := by
  induction u generalizing x with
  | nil =>
    cases x with
    | nil => exact ⟨rfl, (List.cons.inj h).2⟩
    | cons b x =>
      obtain rfl : a = b := (List.cons.inj h).1
      exact absurd List.mem_cons_self hx
  | cons b u ih =>
    cases x with
    | nil =>
      obtain rfl : b = a := (List.cons.inj h).1
      exact absurd List.mem_cons_self hu
    | cons c x =>
      obtain ⟨rfl, hrest⟩ := List.cons.inj h
      obtain ⟨rfl, hv⟩ := ih (fun hm => hu (List.mem_cons_of_mem _ hm))
        (fun hm => hx (List.mem_cons_of_mem _ hm)) hrest
      exact ⟨rfl, hv⟩

section Find
variable [DecidableEq α]

theorem find_append (h : a ∉ u) : find w a (u ++ a :: v) = some (len w u) := by
  induction u with
  | nil => simp [find]
  | cons b u ih =>
    obtain ⟨hb, hu⟩ := not_or.mp (List.mem_cons.not.mp h)
    rw [List.cons_append, find, if_neg (Ne.symm hb), ih hu, Option.map_some, len_cons]

theorem find_eq_none (h : a ∉ s) : find w a s = none := by
  induction s with
  | nil => rfl
  | cons b s ih =>
    obtain ⟨hb, hs⟩ := not_or.mp (List.mem_cons.not.mp h)
    rw [find, if_neg (Ne.symm hb), ih hs, Option.map_none]

/-- Lines that are each ended by `a` are what splitting at `a` gives, before an empty rest. -/
theorem splitOn_ended {xss : List (List α)} (h : ∀ x ∈ xss, a ∉ x) :
    (xss.flatMap fun x => x ++ [a]).splitOn a = xss ++ [[]] := by
  induction xss with
  | nil => rfl
  | cons x xss ih =>
    obtain ⟨hx, hxss⟩ := List.forall_mem_cons.mp h
    rw [List.flatMap_cons, List.append_assoc, List.singleton_append,
      List.splitOn_append_cons_self_of_not_mem hx, ih hxss, List.cons_append]

end Find

end Slices
