import Mathlib.Tactic.Common

/-! # Lossy decoding of UTF-8

Every byte sequence decodes: a maximal part that starts a character and does not complete it becomes
one U+FFFD, as does a byte that starts no character.

`fromUtf8Lossy_append`: two parts decode apart as they decode together when the second does not
start with a continuation byte.
-/
namespace Concurrency
set_option autoImplicit false

/-- The length of the character a byte starts; 0 for a byte that starts none. -/
def utf8CharWidth (b : UInt8) : ℕ :=
  if b < 0x80 then 1
  else if 0xC2 ≤ b ∧ b ≤ 0xDF then 2
  else if 0xE0 ≤ b ∧ b ≤ 0xEF then 3
  else if 0xF0 ≤ b ∧ b ≤ 0xF4 then 4
  else 0

def isContinuation (b : UInt8) : Bool := decide (0x80 ≤ b ∧ b ≤ 0xBF)

/-- The second byte of a character of three bytes or four. -/
def continues (first b : UInt8) : Bool :=
  isContinuation b &&
    (decide (first ≠ 0xE0 ∨ 0xA0 ≤ b) && decide (first ≠ 0xED ∨ b ≤ 0x9F) &&
      decide (first ≠ 0xF0 ∨ 0x90 ≤ b) && decide (first ≠ 0xF4 ∨ b ≤ 0x8F))

/-- The character of a first byte, of which `mask` is kept, and its continuation bytes. -/
def charOf (first : UInt8) (mask : ℕ) (rest : List UInt8) : Char :=
  Char.ofNat (rest.foldl (fun n b => n * 64 + b.toNat % 64) (first.toNat % mask))

def replacementChar : Char := Char.ofNat 0xFFFD

/-- The next character, and how many bytes after the first it takes. -/
def nextChar (b : UInt8) (rest : List UInt8) : Char × ℕ :=
  match utf8CharWidth b, rest with
  | 1, _ => (charOf b 128 [], 0)
  | 2, b₁ :: _ => if isContinuation b₁ then (charOf b 32 [b₁], 1) else (replacementChar, 0)
  | 3, b₁ :: rest₁ =>
    if continues b b₁ then
      match rest₁ with
      | b₂ :: _ =>
        if isContinuation b₂ then (charOf b 16 [b₁, b₂], 2) else (replacementChar, 1)
      | [] => (replacementChar, 1)
    else (replacementChar, 0)
  | 4, b₁ :: rest₁ =>
    if continues b b₁ then
      match rest₁ with
      | b₂ :: rest₂ =>
        if isContinuation b₂ then
          match rest₂ with
          | b₃ :: _ =>
            if isContinuation b₃ then (charOf b 8 [b₁, b₂, b₃], 3) else (replacementChar, 2)
          | [] => (replacementChar, 2)
        else (replacementChar, 1)
      | [] => (replacementChar, 1)
    else (replacementChar, 0)
  | _, _ => (replacementChar, 0)

/-- Decodes what follows after this many bytes. -/
def decodeAfter : ℕ → List UInt8 → List Char
  | _, [] => []
  | skip + 1, _ :: rest => decodeAfter skip rest
  | 0, b :: rest => (nextChar b rest).1 :: decodeAfter (nextChar b rest).2 rest

def fromUtf8Lossy (bytes : List UInt8) : List Char := decodeAfter 0 bytes

example : fromUtf8Lossy [0x61, 0xC3, 0xA9, 0xE2, 0x82, 0xAC] = ['a', 'é', '€'] := by decide

example : fromUtf8Lossy [0xE2, 0x82, 0x61, 0xA9] = ['\uFFFD', 'a', '\uFFFD'] := by decide

section Append
variable {ys : List UInt8}

theorem isContinuation_of_continues {first b : UInt8} (h : continues first b = true) :
    isContinuation b = true :=
  (Bool.and_eq_true_iff.mp h).1

theorem nextChar_le (b : UInt8) (rest : List UInt8) : (nextChar b rest).2 ≤ rest.length := by
  unfold nextChar
  repeat' split
  all_goals simp only [List.length_cons]; omega

/-- Bytes that continue no character do not change the one before them. -/
theorem nextChar_append (h : ∀ b, ys.head? = some b → isContinuation b = false) (b : UInt8)
    (rest : List UInt8) : nextChar b (rest ++ ys) = nextChar b rest := by
  have hbreak : ∀ c ys', ys = c :: ys' → isContinuation c = false ∧ continues b c = false := by
    rintro c ys' rfl
    have hc := h c rfl
    refine ⟨hc, ?_⟩
    by_contra hcont
    rw [Bool.not_eq_false] at hcont
    rw [isContinuation_of_continues hcont] at hc
    cases hc
  unfold nextChar
  generalize utf8CharWidth b = width
  rcases rest with _ | ⟨b₁, _ | ⟨b₂, _ | ⟨b₃, rest⟩⟩⟩
  all_goals
    rcases ys with _ | ⟨c, ys'⟩
    · simp
    · obtain ⟨hc, hcont⟩ := hbreak c ys' rfl
      match width with
      | 0 | 1 | 2 | 3 | 4 => simp [hc, hcont]
      | _ + 5 => simp

theorem decodeAfter_append (h : ∀ b, ys.head? = some b → isContinuation b = false)
    {xs : List UInt8} {skip : ℕ} (hskip : skip ≤ xs.length) :
    decodeAfter skip (xs ++ ys) = decodeAfter skip xs ++ decodeAfter 0 ys := by
  induction xs generalizing skip with
  | nil =>
    obtain rfl : skip = 0 := by simpa using hskip
    rfl
  | cons b rest ih =>
    cases skip with
    | succ skip => exact ih (by simpa using hskip)
    | zero =>
      rw [List.cons_append, decodeAfter, nextChar_append h, ih (nextChar_le b rest), decodeAfter,
        List.cons_append]

/-- The second part starts no earlier character. -/
theorem fromUtf8Lossy_append (xs : List UInt8)
    (h : ∀ b, ys.head? = some b → isContinuation b = false) :
    fromUtf8Lossy (xs ++ ys) = fromUtf8Lossy xs ++ fromUtf8Lossy ys :=
  decodeAfter_append h (Nat.zero_le _)

end Append

end Concurrency
