import Mathlib.Data.List.SplitLengths
import Mathlib.Tactic.Ring

/-! # Numbers in digits of a fixed width

`write` gives the last digits of a number, the most significant first, and `read` the number of a
text of digits; over any base, with any letters for the digits. `writeGroups` puts a separator between
groups of digits and `readGroups` takes exactly such texts. Reading gives back a number that the
width has room for (`read_write_of_lt`, `readGroups_writeGroups`).
-/
namespace FixedDigits
set_option autoImplicit false

universe u
variable {χ : Type u} (base : ℕ) (digit : ℕ → χ) (value : χ → Option ℕ)

def write : ℕ → ℕ → List χ
  | 0, _ => []
  | width + 1, n => write width (n / base) ++ [digit (n % base)]

def readFrom (start : ℕ) (text : List χ) : Option ℕ :=
  text.foldlM (fun n c => (value c).map (base * n + ·)) start

def read (text : List χ) : Option ℕ := readFrom base value 0 text

section Groups
variable [DecidableEq χ] (sep : χ) (widths : List ℕ)

def writeGroups (n : ℕ) : List χ :=
  [sep].intercalate (widths.splitLengths (write base digit widths.sum n))

def readGroups (text : List χ) : Option ℕ :=
  if (text.splitOn sep).map List.length = widths then read base value (text.splitOn sep).flatten
  else none

end Groups

variable {base digit value}

theorem length_write (width n : ℕ) : (write base digit width n).length = width := by
  induction width generalizing n with
  | zero => rfl
  | succ width ih => simp [write, ih]

theorem mem_write (hbase : 0 < base) {width n : ℕ} {c : χ} (h : c ∈ write base digit width n) :
    ∃ d < base, digit d = c := by
  induction width generalizing n with
  | zero => simp [write] at h
  | succ width ih =>
    simp only [write, List.mem_append, List.mem_singleton] at h
    rcases h with h | h
    · exact ih h
    · exact ⟨n % base, Nat.mod_lt n hbase, h.symm⟩

/-- Digits that follow a number are read onto it. -/
theorem readFrom_write (hbase : 0 < base) (hvalue : ∀ d < base, value (digit d) = some d)
    (start width n : ℕ) :
    readFrom base value start (write base digit width n) =
      some (base ^ width * start + n % base ^ width) := by
  induction width generalizing n with
  | zero => simp [write, readFrom, Nat.mod_one]
  | succ width ih =>
    have hlast := hvalue (n % base) (Nat.mod_lt n hbase)
    have hsplit : n % base ^ (width + 1) = n % base + base * (n / base % base ^ width) := by
      rw [pow_succ', Nat.mod_mul]
    have hread := ih (n / base)
    rw [readFrom] at hread ⊢
    simp only [write, List.foldlM_append, hread, List.foldlM_cons, List.foldlM_nil, hlast, hsplit,
      Option.map_some, Option.pure_def, Option.bind_eq_bind, Option.bind_some]
    congr 1
    ring

theorem read_write_of_lt (hbase : 0 < base) (hvalue : ∀ d < base, value (digit d) = some d)
    {width n : ℕ} (hn : n < base ^ width) : read base value (write base digit width n) = some n := by
  rw [read, readFrom_write hbase hvalue, mul_zero, zero_add, Nat.mod_eq_of_lt hn]

section Groups
variable [DecidableEq χ] {sep : χ} {widths : List ℕ}

theorem splitOn_writeGroups (hbase : 0 < base) (hsep : ∀ d < base, digit d ≠ sep)
    (hwidths : widths ≠ []) (n : ℕ) :
    (writeGroups base digit sep widths n).splitOn sep =
      widths.splitLengths (write base digit widths.sum n) := by
  refine List.splitOn_intercalate sep ?_ ?_
  · intro group hgroup hmem
    have hflat : sep ∈ (widths.splitLengths (write base digit widths.sum n)).flatten :=
      List.mem_flatten.mpr ⟨group, hgroup, hmem⟩
    rw [List.flatten_splitLengths _ _ (length_write ..).le] at hflat
    obtain ⟨d, hd, hsepd⟩ := mem_write hbase hflat
    exact hsep d hd hsepd
  · intro hnil
    have hlen := congrArg List.length hnil
    rw [List.length_splitLengths, List.length_nil] at hlen
    exact hwidths (List.eq_nil_of_length_eq_zero hlen)

theorem readGroups_writeGroups (hbase : 0 < base) (hvalue : ∀ d < base, value (digit d) = some d)
    (hsep : ∀ d < base, digit d ≠ sep) (hwidths : widths ≠ []) {n : ℕ}
    (hn : n < base ^ widths.sum) :
    readGroups base value sep widths (writeGroups base digit sep widths n) = some n := by
  have hsplit := splitOn_writeGroups hbase hsep hwidths n
  have hlengths := List.map_splitLengths_length (write base digit widths.sum n) widths
    (length_write ..).ge
  rw [readGroups, hsplit, if_pos hlengths, List.flatten_splitLengths _ _ (length_write ..).le]
  exact read_write_of_lt hbase hvalue hn

end Groups

end FixedDigits
