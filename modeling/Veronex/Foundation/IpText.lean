import Mathlib

/-! # Texts of IP addresses

Addresses of both versions, how an IPv4 address is written, and the strict reading of an address: four
decimal numbers without a zero in front, or groups of hexadecimal digits with at most one gap, the
last two of which may be written as an IPv4 address.

`parseIp_showIpv4`: an IPv4 address is read back. `parseIp_of_head`, `parseIp_ne_v6`: texts that are
no address.
-/
namespace IpText
set_option autoImplicit false

structure Ipv4Addr where
  octets : Fin 4 → Fin 256

structure Ipv6Addr where
  segments : Fin 8 → Fin 65536

instance neZero_index : NeZero 8 := ⟨by decide⟩

instance neZero_segment : NeZero 65536 := ⟨by decide⟩

inductive IpAddr
  | v4 (addr : Ipv4Addr)
  | v6 (addr : Ipv6Addr)

namespace Ipv4Addr

/-- 169.254.0.0/16 -/
def isLinkLocal (addr : Ipv4Addr) : Bool :=
  decide (addr.octets 0 = 169) && decide (addr.octets 1 = 254)

def text (addr : Ipv4Addr) : List Char :=
  Nat.toDigits 10 (addr.octets 0) ++ '.' :: (Nat.toDigits 10 (addr.octets 1) ++
    '.' :: (Nat.toDigits 10 (addr.octets 2) ++ '.' :: Nat.toDigits 10 (addr.octets 3)))

end Ipv4Addr

namespace Ipv6Addr

/-- fe80::/10 -/
def isLinkLocal (addr : Ipv6Addr) : Bool := (addr.segments 0).val &&& 0xffc0 = 0xfe80

/-- The last two groups. -/
def low (addr : Ipv6Addr) : Ipv4Addr where
  octets :=
    ![Fin.ofNat 256 ((addr.segments 6).val / 256), Fin.ofNat 256 (addr.segments 6).val,
      Fin.ofNat 256 ((addr.segments 7).val / 256), Fin.ofNat 256 (addr.segments 7).val]

/-- `::ffff:a.b.c.d` -/
def isMapped (addr : Ipv6Addr) : Bool :=
  decide (∀ i : Fin 5, addr.segments (i.castLE (by decide)) = 0) &&
    decide ((addr.segments 5).val = 0xffff)

/-- `::a.b.c.d` -/
def isCompatible (addr : Ipv6Addr) : Bool :=
  decide (∀ i : Fin 6, addr.segments (i.castLE (by decide)) = 0)

end Ipv6Addr

/-! ## Reading -/

/-- The value of a digit. -/
def digitOf (radix : ℕ) (c : Char) : Option ℕ :=
  let n := if c.isDigit then c.toNat - '0'.toNat
    else if c.isLower then c.toNat - 'a'.toNat + 10
    else if c.isUpper then c.toNat - 'A'.toNat + 10
    else radix
  if n < radix then some n else none

abbrev Reader (α : Type) := List Char → Option (α × List Char)

/-- A number below `bound` of at most `maxDigits` digits. -/
def readNumber (radix maxDigits bound : ℕ) (allowZeroPrefix : Bool) : Reader ℕ := fun s =>
  let digits := s.takeWhile fun c => (digitOf radix c).isSome
  let n := digits.foldl (fun n c => n * radix + (digitOf radix c).getD 0) 0
  if digits.length = 0 ∨ maxDigits < digits.length then none
  else if !allowZeroPrefix && s.head? = some '0' && decide (1 < digits.length) then none
  else if n < bound then some (n, s.drop digits.length) else none

def readGiven (c : Char) (s : List Char) : Option (List Char) :=
  if s.head? = some c then some s.tail else none

/-- A separator stands before every part but the first. -/
def readSeparated {α : Type} (sep : Char) (index : ℕ) (inner : Reader α) : Reader α := fun s =>
  if index = 0 then inner s else (readGiven sep s).bind inner

def readIpv4 : Reader Ipv4Addr := fun s => do
  let (a, s) ← readSeparated '.' 0 (readNumber 10 3 256 false) s
  let (b, s) ← readSeparated '.' 1 (readNumber 10 3 256 false) s
  let (c, s) ← readSeparated '.' 2 (readNumber 10 3 256 false) s
  let (d, s) ← readSeparated '.' 3 (readNumber 10 3 256 false) s
  return (⟨![Fin.ofNat 256 a, Fin.ofNat 256 b, Fin.ofNat 256 c, Fin.ofNat 256 d]⟩, s)

/-- The groups from `index` on, and whether the last two were an IPv4 address. -/
def readGroups (limit : ℕ) : ℕ → ℕ → List ℕ → List Char → List ℕ × Bool × List Char
  | 0, _, groups, s => (groups, false, s)
  | room + 1, index, groups, s =>
    match if index < limit - 1 then readSeparated ':' index readIpv4 s else none with
    | some (v4, s) =>
      (groups ++ [(v4.octets 0).val * 256 + (v4.octets 1).val,
        (v4.octets 2).val * 256 + (v4.octets 3).val], true, s)
    | none =>
      match readSeparated ':' index (readNumber 16 4 65536 true) s with
      | some (group, s) => readGroups limit room (index + 1) (groups ++ [group]) s
      | none => (groups, false, s)

def ofGroups (groups : List ℕ) : Ipv6Addr := ⟨fun i => Fin.ofNat 65536 (groups.getD i.val 0)⟩

def readIpv6 : Reader Ipv6Addr := fun s =>
  let (head, headIpv4, s) := readGroups 8 8 0 [] s
  if head.length = 8 then some (ofGroups head, s)
  else if headIpv4 then none
  else do
    let s ← readGiven ':' s
    let s ← readGiven ':' s
    let limit := 8 - (head.length + 1)
    let (tail, _, s) := readGroups limit limit 0 [] s
    return (ofGroups (head ++ List.replicate (8 - head.length - tail.length) 0 ++ tail), s)

def readIp : Reader IpAddr := fun s =>
  match readIpv4 s with
  | some (addr, s) => some (.v4 addr, s)
  | none => (readIpv6 s).map fun p => (.v6 p.1, p.2)

/-- The whole text is an address. -/
def parseIp (s : List Char) : Option IpAddr :=
  (readIp s).bind fun p => if p.2 = [] then some p.1 else none

/-! ## What is read -/

section Reading
variable {c : Char} {s rest : List Char} {radix maxDigits bound n : ℕ} {allowZeroPrefix : Bool}

theorem readNumber_of_head (h : digitOf radix c = none) :
    readNumber radix maxDigits bound allowZeroPrefix (c :: s) = none := by
  simp [readNumber, h]

/-- What is left after a number is a part of the text. -/
theorem readNumber_suffix (h : readNumber radix maxDigits bound allowZeroPrefix s = some (n, rest)) :
    rest <:+ s := by
  unfold readNumber at h
  dsimp only at h
  split at h
  · cases h
  · split at h
    · cases h
    · split at h
      · obtain ⟨-, rfl⟩ := Prod.mk.inj (Option.some.inj h)
        exact List.drop_suffix _ _
      · cases h

theorem readGiven_of_not_mem (h : c ∉ s) : readGiven c s = none := by
  cases s with
  | nil => rfl
  | cons d s =>
    have hne : d ≠ c := fun heq => h (heq ▸ List.mem_cons_self)
    simp [readGiven, hne]

theorem readIpv4_of_head (h : digitOf 10 c = none) : readIpv4 (c :: s) = none := by
  have hfirst : readSeparated '.' 0 (readNumber 10 3 256 false) (c :: s) = none := readNumber_of_head h
  simp only [readIpv4, hfirst]
  rfl

/-- The first group of a text, where no colon follows it. -/
theorem readGroups_no_colon (h : ':' ∉ s) : ∃ groups ipv4 rest,
    readGroups 8 8 0 [] s = (groups, ipv4, rest) ∧ groups.length < 8 ∧
      (ipv4 = true ∨ readGiven ':' rest = none) := by
  rw [readGroups]
  split
  · exact ⟨_, _, _, rfl, by simp, .inl rfl⟩
  · split
    · next group rest hgroup =>
      have hrest : ':' ∉ rest := fun hmem => h ((readNumber_suffix hgroup).subset hmem)
      have hcolon := readGiven_of_not_mem hrest
      refine ⟨[group], false, rest, ?_, by simp, .inr hcolon⟩
      simp [readGroups, readSeparated, hcolon]
    · exact ⟨[], false, s, rfl, by simp, .inr (readGiven_of_not_mem h)⟩

/-- Without a colon no IPv6 address is read. -/
theorem readIpv6_no_colon (h : ':' ∉ s) : readIpv6 s = none := by
  obtain ⟨groups, ipv4, rest, hread, hlength, hend⟩ := readGroups_no_colon h
  simp only [readIpv6, hread]
  rw [if_neg (by omega)]
  rcases hend with rfl | hcolon
  · rfl
  · split
    · rfl
    · rw [hcolon]
      rfl

/-- A text without a colon is no IPv6 address. -/
theorem parseIp_ne_v6 (h : ':' ∉ s) (addr : Ipv6Addr) : parseIp s ≠ some (.v6 addr) := by
  intro hparse
  unfold parseIp readIp at hparse
  rw [readIpv6_no_colon h] at hparse
  split at hparse
  · next v4 rest _ =>
    simp only [Option.bind_some] at hparse
    split at hparse
    · cases hparse
    · cases hparse
  · cases hparse

/-- A text that begins with neither a digit nor a colon is no address. -/
theorem parseIp_of_head (hdigit : digitOf 16 c = none) (hdigit' : digitOf 10 c = none) (hc : c ≠ ':') :
    parseIp (c :: s) = none := by
  have hv4 : readIpv4 (c :: s) = none := readIpv4_of_head hdigit'
  have hgroups : readGroups 8 8 0 [] (c :: s) = ([], false, c :: s) := by
    have hsep : readSeparated ':' 0 readIpv4 (c :: s) = none := hv4
    have hsep' : readSeparated ':' 0 (readNumber 16 4 65536 true) (c :: s) = none :=
      readNumber_of_head hdigit
    simp [readGroups, hsep, hsep']
  have hgiven : readGiven ':' (c :: s) = none := by simp [readGiven, hc]
  simp [parseIp, readIp, hv4, readIpv6, hgroups, hgiven]

/-! ## IPv4 addresses are read back -/

/-- The digits of an octet. -/
theorem octet_digits : ∀ n : Fin 256, (Nat.toDigits 10 n.val).all (fun c => (digitOf 10 c).isSome) ∧
    0 < (Nat.toDigits 10 n.val).length ∧ (Nat.toDigits 10 n.val).length ≤ 3 ∧
      ((Nat.toDigits 10 n.val).head? = some '0' → (Nat.toDigits 10 n.val).length = 1) ∧
        (Nat.toDigits 10 n.val).foldl (fun n c => n * 10 + (digitOf 10 c).getD 0) 0 = n.val := by
  decide +kernel

theorem readNumber_octet (n : Fin 256) (hrest : ∀ d ∈ rest.head?, digitOf 10 d = none) :
    readNumber 10 3 256 false (Nat.toDigits 10 n.val ++ rest) = some (n.val, rest) := by
  obtain ⟨hall, hpos, hle, hzero, hvalue⟩ := octet_digits n
  have hdigits : (Nat.toDigits 10 n.val ++ rest).takeWhile (fun c => (digitOf 10 c).isSome) =
      Nat.toDigits 10 n.val := by
    rw [List.takeWhile_append_of_pos (List.all_eq_true.mp hall)]
    cases rest with
    | nil => simp
    | cons d rest =>
      have hnone : (d :: rest).takeWhile (fun c => (digitOf 10 c).isSome) = [] :=
        List.takeWhile_cons_of_neg (by simp [hrest d rfl])
      rw [hnone, List.append_nil]
  have hhead : (Nat.toDigits 10 n.val ++ rest).head? = (Nat.toDigits 10 n.val).head? :=
    List.head?_append_of_ne_nil _ (List.ne_nil_of_length_pos hpos)
  have hzeros : ¬ ((!false && decide ((Nat.toDigits 10 n.val).head? = some '0') &&
      decide (1 < (Nat.toDigits 10 n.val).length)) = true) := by
    intro h
    simp only [Bool.not_false, Bool.true_and, Bool.and_eq_true, decide_eq_true_eq] at h
    have hone := hzero h.1
    omega
  have hlength : ¬ ((Nat.toDigits 10 n.val).length = 0 ∨ 3 < (Nat.toDigits 10 n.val).length) := by
    omega
  simp only [readNumber, hdigits, hhead]
  rw [if_neg hlength, if_neg hzeros, hvalue, if_pos n.isLt, List.drop_left]

theorem readSeparated_octet (n : Fin 256) {index : ℕ} (hindex : index ≠ 0)
    (hrest : ∀ d ∈ rest.head?, digitOf 10 d = none) :
    readSeparated '.' index (readNumber 10 3 256 false) ('.' :: (Nat.toDigits 10 n.val ++ rest)) =
      some (n.val, rest) := by
  rw [readSeparated, if_neg hindex]
  exact readNumber_octet n hrest

theorem readIpv4_text (addr : Ipv4Addr) : readIpv4 addr.text = some (addr, []) := by
  have hdot : ∀ d ∈ (['.'] : List Char), digitOf 10 d = none := fun d hd => by
    rw [List.mem_singleton.mp hd]
    decide
  have hfirst := @readNumber_octet ('.' :: (Nat.toDigits 10 (addr.octets 1) ++
    '.' :: (Nat.toDigits 10 (addr.octets 2) ++ '.' :: Nat.toDigits 10 (addr.octets 3))))
    (addr.octets 0) (by simpa using hdot)
  have hsecond := @readSeparated_octet ('.' :: (Nat.toDigits 10 (addr.octets 2) ++
    '.' :: Nat.toDigits 10 (addr.octets 3))) (addr.octets 1) 1 (by decide) (by simpa using hdot)
  have hthird := @readSeparated_octet ('.' :: Nat.toDigits 10 (addr.octets 3)) (addr.octets 2) 2
    (by decide) (by simpa using hdot)
  have hlast := @readSeparated_octet [] (addr.octets 3) 3 (by decide) (by simp)
  rw [List.append_nil] at hlast
  have hocts : (⟨![Fin.ofNat 256 (addr.octets 0).val, Fin.ofNat 256 (addr.octets 1).val,
      Fin.ofNat 256 (addr.octets 2).val, Fin.ofNat 256 (addr.octets 3).val]⟩ : Ipv4Addr) = addr :=
    congrArg Ipv4Addr.mk (funext (by simp [Fin.forall_fin_succ]))
  unfold readIpv4 Ipv4Addr.text
  rw [show readSeparated '.' 0 (readNumber 10 3 256 false) _ = _ from hfirst]
  simp only [Option.bind_eq_bind, Option.bind_some, hsecond, hthird, hlast, hocts]
  rfl

theorem parseIp_showIpv4 (addr : Ipv4Addr) : parseIp addr.text = some (.v4 addr) := by
  simp [parseIp, readIp, readIpv4_text]

end Reading

end IpText
