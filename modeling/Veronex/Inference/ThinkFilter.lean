import Veronex.Inference.TokenStream
import Veronex.Foundation.Blocks

/-! # The think-block filter over whole streams

`consume_text` is fed fragment by fragment. `Tracks` ties its buffer to the scan of the text fed so
far: what the buffer forgets is settled, so the filter meets the tags of the text wherever the
fragments are cut. `consumeAll_spec` says what a sequence of fragments leads to.
-/
namespace Veronex
open Concurrency
set_option autoImplicit false

/-! ## Searching -/

section Search
variable {pat s : List Char} {k : ℕ}

theorem findSub_eq_none (h : findSub pat s = none) : ¬ pat <:+: s := by
  induction s with
  | nil =>
    intro hocc
    rw [findSub, if_pos (List.infix_nil.mp hocc)] at h
    cases h
  | cons c s ih =>
    rw [findSub] at h
    split at h
    · cases h
    · next hprefix =>
      intro hocc
      rcases List.infix_cons_iff.mp hocc with hstart | hlater
      · exact hprefix (List.isPrefixOf_iff_prefix.mpr hstart)
      · exact ih (Option.map_eq_none_iff.mp h) hlater

theorem findSub_eq_some (h : findSub pat s = some k) :
    pat <+: s.drop k ∧ ∀ j < k, ¬ pat <+: s.drop j := by
  induction s generalizing k with
  | nil =>
    rw [findSub] at h
    split at h
    · next hnil =>
      obtain rfl := Option.some.inj h
      rw [hnil]
      exact ⟨List.nil_prefix, by rintro _ ⟨⟩⟩
    · cases h
  | cons c s ih =>
    rw [findSub] at h
    split at h
    · next hprefix =>
      obtain rfl := Option.some.inj h
      exact ⟨List.isPrefixOf_iff_prefix.mp hprefix, by rintro _ ⟨⟩⟩
    · next hprefix =>
      obtain ⟨k', hk', rfl⟩ := Option.map_eq_some_iff.mp h
      obtain ⟨hfound, hfirst⟩ := ih hk'
      refine ⟨hfound, fun j hj hstart => ?_⟩
      cases j with
      | zero => exact hprefix (List.isPrefixOf_iff_prefix.mpr hstart)
      | succ j => exact hfirst j (by omega) hstart

/-- `find` splits the text at the first occurrence. -/
theorem findSub_splitsAt (h : findSub pat s = some k) :
    SplitsAt pat s (s.take k) (s.drop (k + pat.length)) := by
  obtain ⟨⟨after, hafter⟩, hfirst⟩ := findSub_eq_some h
  have hdrop : s.drop (k + pat.length) = after := by
    rw [← List.drop_drop, ← hafter, List.drop_left]
  have hsplit : s = s.take k ++ pat ++ after := by
    rw [List.append_assoc, hafter, List.take_append_drop]
  rw [hdrop]
  refine ⟨hsplit, ?_⟩
  rintro front hfront ⟨l, rfl⟩
  have hlate : k ≤ l.length := by
    by_contra hearly
    refine hfirst l.length (by omega) ?_
    obtain ⟨t, ht⟩ := hfront
    have hall : s = l ++ (pat ++ (t ++ after)) := by
      rw [hsplit, ← ht]
      simp only [List.append_assoc]
    rw [hall, List.drop_left]
    exact List.prefix_append _ _
  have hlength := hfront.length_le
  have hk : (s.take k).length ≤ k := List.length_take_le ..
  rw [List.length_append, List.length_append] at hlength
  refine hfront.eq_of_length ?_
  rw [List.length_append, List.length_append]
  omega

theorem findSub_fits (h : findSub pat s = some k) : k + pat.length ≤ s.length := by
  have hlength := congrArg List.length (findSub_splitsAt h).split
  have hk : k ≤ s.length := by
    by_contra hlong
    obtain ⟨hfound, hfirst⟩ := findSub_eq_some h
    rw [List.drop_eq_nil_of_le (by omega)] at hfound
    refine hfirst s.length (by omega) ?_
    rw [List.prefix_nil.mp hfound]
    exact List.nil_prefix
  simp only [List.length_append, List.length_take, List.length_drop] at hlength
  omega

theorem length_after_lt (hpat : 0 < pat.length) (h : findSub pat s = some k) :
    (s.drop (k + pat.length)).length < s.length := by
  have hfits := findSub_fits h
  rw [List.length_drop]
  omega

end Search

/-! ## Bytes -/

@[simp] theorem utf8Len_nil : utf8Len [] = 0 := rfl

@[simp] theorem utf8Len_cons (c : Char) (s : List Char) : utf8Len (c :: s) = c.utf8Size + utf8Len s := by
  simp [utf8Len]

@[simp] theorem utf8Len_append (s t : List Char) : utf8Len (s ++ t) = utf8Len s + utf8Len t := by
  simp [utf8Len]

theorem length_le_utf8Len (s : List Char) : s.length ≤ utf8Len s := by
  induction s with
  | nil => exact Nat.le_refl 0
  | cons c s ih =>
    have hsize := c.utf8Size_pos
    rw [utf8Len_cons, List.length_cons]
    omega

/-- `is_char_boundary`. -/
def IsCharBoundary (s : List Char) (n : ℕ) : Prop := ∃ front back, s = front ++ back ∧ utf8Len front = n

theorem drainBytes_eq_some_iff {n : ℕ} {s rest : List Char} :
    drainBytes n s = some rest ↔ ∃ front, s = front ++ rest ∧ utf8Len front = n := by
  induction s generalizing n with
  | nil =>
    cases n with
    | zero =>
      constructor
      · intro h
        obtain rfl := Option.some.inj h
        exact ⟨[], rfl, rfl⟩
      · rintro ⟨front, hnil, -⟩
        rw [(List.append_eq_nil_iff.mp hnil.symm).2]
        rfl
    | succ n =>
      refine iff_of_false (by rintro ⟨⟩) ?_
      rintro ⟨front, hnil, hlen⟩
      rw [(List.append_eq_nil_iff.mp hnil.symm).1] at hlen
      cases hlen
  | cons c s ih =>
    have hsize := c.utf8Size_pos
    cases n with
    | zero =>
      constructor
      · intro h
        obtain rfl := Option.some.inj h
        exact ⟨[], rfl, rfl⟩
      · rintro ⟨front, hsplit, hlen⟩
        have hlength := length_le_utf8Len front
        obtain rfl : front = [] := List.eq_nil_of_length_eq_zero (by omega)
        rw [drainBytes, hsplit]
        rfl
    | succ n =>
      rw [drainBytes]
      split
      · next hfits =>
        rw [ih]
        constructor
        · rintro ⟨front, rfl, hlen⟩
          refine ⟨c :: front, rfl, ?_⟩
          rw [utf8Len_cons]
          omega
        · rintro ⟨front, hsplit, hlen⟩
          cases front with
          | nil => cases hlen
          | cons d front =>
            obtain ⟨rfl, rfl⟩ := List.cons.inj hsplit
            refine ⟨front, rfl, ?_⟩
            rw [utf8Len_cons] at hlen
            omega
      · next hlong =>
        refine iff_of_false (by rintro ⟨⟩) ?_
        rintro ⟨front, hsplit, hlen⟩
        cases front with
        | nil => cases hlen
        | cons d front =>
          obtain ⟨rfl, rfl⟩ := List.cons.inj hsplit
          rw [utf8Len_cons] at hlen
          omega

theorem isCharBoundary_iff {n : ℕ} {s : List Char} :
    IsCharBoundary s n ↔ (drainBytes n s).isSome = true := by
  rw [Option.isSome_iff_exists]
  simp only [drainBytes_eq_some_iff]
  constructor
  · rintro ⟨front, back, hsplit, hlen⟩
    exact ⟨back, front, hsplit, hlen⟩
  · rintro ⟨back, front, hsplit, hlen⟩
    exact ⟨front, back, hsplit, hlen⟩

instance (s : List Char) (n : ℕ) : Decidable (IsCharBoundary s n) :=
  decidable_of_iff _ isCharBoundary_iff.symm

/-- A boundary past a front is one of the rest. -/
theorem isCharBoundary_append {front s : List Char} {n : ℕ} :
    IsCharBoundary (front ++ s) (utf8Len front + n) ↔ IsCharBoundary s n := by
  constructor
  · rintro ⟨a, b, hsplit, hlen⟩
    rcases List.append_eq_append_iff.mp hsplit.symm with ⟨t, hfront, hb⟩ | ⟨t, ha, hs⟩
    · rw [hfront, utf8Len_append] at hlen
      have hlength := length_le_utf8Len t
      obtain rfl : t = [] := List.eq_nil_of_length_eq_zero (by omega)
      exact ⟨[], s, rfl, by rw [utf8Len_nil]; omega⟩
    · rw [ha, utf8Len_append] at hlen
      exact ⟨t, b, hs, by omega⟩
  · rintro ⟨a, b, rfl, hlen⟩
    exact ⟨front ++ a, b, by rw [List.append_assoc], by rw [utf8Len_append, hlen]⟩

theorem utf8Len_of_ascii {s : List Char} (hascii : ∀ c ∈ s, c.toNat < 128) :
    utf8Len s = s.length := by
  induction s with
  | nil => rfl
  | cons c s ih =>
    have hsize : c.utf8Size = 1 := by
      have hc := hascii c (List.mem_cons_self ..)
      rw [Char.utf8Size, if_pos]
      exact Nat.le_of_lt_succ hc
    rw [utf8Len_cons, hsize, ih fun d hd => hascii d (List.mem_cons_of_mem c hd), List.length_cons]
    omega

theorem isCharBoundary_of_ascii {s : List Char} {n : ℕ} (hascii : ∀ c ∈ s, c.toNat < 128)
    (hn : n ≤ s.length) : IsCharBoundary s n := by
  refine ⟨s.take n, s.drop n, (List.take_append_drop n s).symm, ?_⟩
  rw [utf8Len_of_ascii fun c hc => hascii c (List.mem_of_mem_take hc), List.length_take]
  omega

/-! ## The scan of the text -/

/-- Where the think blocks of a text are. -/
def thinkScan (text : List Char) : Scan Char := Scan.start.run thinkOpen thinkClose text

/-- Whether a tag of the text is awaited and a block is open. -/
abbrev awaited (s : Scan Char) : List Char := s.tag thinkOpen thinkClose

/-- Eight bytes before the end of an open block there is a character boundary. -/
def Aligned (s : Scan Char) : Prop :=
  s.inBlock = true → IsCharBoundary s.rest (utf8Len s.rest - 8)

instance (s : Scan Char) : Decidable (Aligned s) :=
  inferInstanceAs (Decidable (s.inBlock = true → IsCharBoundary s.rest (utf8Len s.rest - 8)))

/-- What a text shows: neither its blocks nor a start of a tag at its end. -/
def shownText (s : Scan Char) : List Char :=
  if s.inBlock then s.out else s.out ++ s.rest.take (s.rest.length - partialTag s.rest)

/-- The buffer `buf` of a filter that has emitted `shown` of the text of the scan; `front` is what
the buffer forgot. -/
structure Tracks (s : Scan Char) (front shown buf : List Char) : Prop where
  rest : s.rest = front ++ buf
  settled : Settled (awaited s) front buf
  shown : shown = if s.inBlock then s.out else s.out ++ front
  kept : s.inBlock = true → front = [] ∨ 8 ≤ utf8Len buf
  held : s.inBlock = false → front = s.rest.take (s.rest.length - partialTag s.rest)

section Loop
variable {s : Scan Char} {front shown buf : List Char}

theorem awaited_inside (h : s.inBlock = true) : awaited s = thinkClose := by
  rw [awaited, Scan.tag, h]
  rfl

theorem awaited_outside (h : s.inBlock = false) : awaited s = thinkOpen := by
  rw [awaited, Scan.tag, h]
  rfl

theorem Tracks.shown_eq (h : Tracks s front shown buf) : shown = shownText s := by
  rw [h.shown, shownText]
  cases hblock : s.inBlock with
  | true => rfl
  | false => rw [← h.held hblock]

/-- No start of the tag reaches back into what is settled. -/
theorem partialTag_settled (h : Settled thinkOpen front buf) (text : List Char) :
    partialTag (front ++ buf ++ text) = partialTag (buf ++ text) := by
  have hsame : ∀ n, (thinkOpen.take n).isSuffixOf (front ++ buf ++ text) =
      (thinkOpen.take n).isSuffixOf (buf ++ text) := by
    intro n
    rw [Bool.eq_iff_iff, List.isSuffixOf_iff_suffix, List.isSuffixOf_iff_suffix, List.append_assoc]
    constructor
    · rintro ⟨l, hl⟩
      have hlate : front.length ≤ l.length := by
        by_contra hearly
        refine h (text ++ thinkOpen.drop n) l.length (by omega) ?_
        have hall : front ++ buf ++ (text ++ thinkOpen.drop n) = l ++ thinkOpen := by
          rw [← List.append_assoc, List.append_assoc front, ← hl, List.append_assoc,
            List.take_append_drop]
        rw [hall, List.drop_left]
      have hprefix : front <+: l :=
        List.prefix_of_prefix_length_le (List.prefix_append _ _) (hl ▸ List.prefix_append _ _) hlate
      obtain ⟨l', rfl⟩ := hprefix
      rw [List.append_assoc] at hl
      exact ⟨l', List.append_cancel_left hl⟩
    · intro hsuffix
      exact hsuffix.trans (List.suffix_append _ _)
  unfold partialTag
  simp only [hsame]

theorem partialTag_le (text : List Char) : partialTag text ≤ text.length := by
  unfold partialTag
  cases hfind : [6, 5, 4, 3, 2, 1].find? fun n => (thinkOpen.take n).isSuffixOf text with
  | none => exact Nat.zero_le _
  | some n =>
    have hsuffix := List.isSuffixOf_iff_suffix.mp (List.find?_eq_some_iff_append.mp hfind).1
    have hmem := List.mem_of_find?_eq_some hfind
    have hn : n ≤ 6 := by
      simp only [List.mem_cons, List.not_mem_nil, or_false] at hmem
      omega
    have hlength := hsuffix.length_le
    rw [List.length_take, show thinkOpen.length = 7 from rfl] at hlength
    rw [Option.getD_some]
    omega

/-- The first number of a falling list that is found is the largest. -/
theorem le_find?_getD {p : ℕ → Bool} {ns : List ℕ} {n : ℕ} (hfall : ns.Pairwise (· > ·))
    (hn : n ∈ ns) (hp : p n = true) : n ≤ (ns.find? p).getD 0 := by
  induction ns with
  | nil => cases hn
  | cons m ns ih =>
    obtain ⟨hfirst, hfall⟩ := List.pairwise_cons.mp hfall
    rw [List.find?_cons]
    cases hm : p m with
    | true =>
      rcases List.mem_cons.mp hn with rfl | hn
      · exact Nat.le_refl _
      · exact (hfirst n hn).le
    | false =>
      rcases List.mem_cons.mp hn with rfl | hn
      · rw [hp] at hm
        cases hm
      · exact ih hfall hn

theorem partialTag_longest {text : List Char} {n : ℕ} (hn : n ≤ 6)
    (hsuffix : thinkOpen.take n <:+ text) : n ≤ partialTag text := by
  cases n with
  | zero => exact Nat.zero_le _
  | succ n =>
    refine le_find?_getD (by decide) ?_ (List.isSuffixOf_iff_suffix.mpr hsuffix)
    simp only [List.mem_cons, List.not_mem_nil, or_false]
    omega

/-- What precedes the longest start of a tag is settled. -/
theorem settled_partialTag {text : List Char} (hfree : ¬ thinkOpen <:+: text) :
    Settled thinkOpen (text.take (text.length - partialTag text))
      (text.drop (text.length - partialTag text)) := by
  refine settled_of_free (by rwa [List.take_append_drop]) fun k hk hprefix => ?_
  rw [List.take_append_drop] at hprefix
  rw [List.length_take] at hk
  have htake := List.prefix_iff_eq_take.mp hprefix
  have hle := hprefix.length_le
  rw [show thinkOpen.length = 7 from rfl] at hle
  rcases Nat.lt_or_ge (text.drop k).length 7 with hshort | hlong
  · have hsuffix : thinkOpen.take (text.drop k).length <:+ text := htake ▸ List.drop_suffix k text
    have hlongest := partialTag_longest (by omega) hsuffix
    rw [List.length_drop] at hlongest
    omega
  · refine hfree ?_
    have hwhole : text.drop k = thinkOpen := by
      rw [htake, List.take_of_length_le]
      exact hlong
    rw [← hwhole]
    exact (List.drop_suffix k text).isInfix

/-- A read that meets no tag. -/
theorem Tracks.run_free (h : Tracks s front shown buf) {text : List Char}
    (hfree : ¬ awaited s <:+: buf ++ text) :
    ¬ awaited s <:+: s.rest ++ text ∧
      s.run thinkOpen thinkClose text = { s with rest := s.rest ++ text } := by
  have hwhole : ¬ awaited s <:+: s.rest ++ text := by
    rw [h.rest, h.settled.infix]
    exact hfree
  exact ⟨hwhole, Scan.run_of_free hwhole⟩

/-- The buffer after a read in which no block is opened. -/
theorem Tracks.outside (h : Tracks s front shown buf) (hout : s.inBlock = false) {text : List Char}
    (hfree : ¬ thinkOpen <:+: buf ++ text) :
    let safe := (buf ++ text).length - partialTag (buf ++ text)
    Tracks (s.run thinkOpen thinkClose text) (front ++ (buf ++ text).take safe)
      (shown ++ (buf ++ text).take safe) ((buf ++ text).drop safe) := by
  have htag := awaited_outside hout
  obtain ⟨hwhole, hrun⟩ := h.run_free (htag ▸ hfree)
  have hsettled := h.settled
  rw [htag] at hsettled hwhole
  have hstarts : partialTag (s.rest ++ text) = partialTag (buf ++ text) := by
    rw [h.rest]
    exact partialTag_settled hsettled text
  have hle := partialTag_le (buf ++ text)
  have hfront : (s.rest ++ text).take ((s.rest ++ text).length - partialTag (s.rest ++ text)) =
      front ++ (buf ++ text).take ((buf ++ text).length - partialTag (buf ++ text)) := by
    rw [hstarts, h.rest, List.append_assoc, List.length_append,
      show front.length + (buf ++ text).length - partialTag (buf ++ text) =
        front.length + ((buf ++ text).length - partialTag (buf ++ text)) by omega,
      List.take_length_add_append]
  have hbuf : (s.rest ++ text).drop ((s.rest ++ text).length - partialTag (s.rest ++ text)) =
      (buf ++ text).drop ((buf ++ text).length - partialTag (buf ++ text)) := by
    rw [hstarts, h.rest, List.append_assoc, List.length_append,
      show front.length + (buf ++ text).length - partialTag (buf ++ text) =
        front.length + ((buf ++ text).length - partialTag (buf ++ text)) by omega,
      List.drop_length_add_append]
  dsimp only
  rw [hrun]
  have hsettled' := settled_partialTag hwhole
  rw [hfront, hbuf] at hsettled'
  refine ⟨?_, ?_, ?_, ?_, fun _ => hfront.symm⟩
  · rw [h.rest]
    simp only [List.append_assoc, List.take_append_drop]
  · rw [awaited_outside (s := { s with rest := s.rest ++ text }) hout]
    exact hsettled'
  · have hshown := h.shown
    rw [hout] at hshown
    dsimp only
    rw [hout, hshown]
    simp only [Bool.false_eq_true, if_false, List.append_assoc]
  · intro hin
    dsimp only at hin
    rw [hout] at hin
    cases hin

/-- Eight bytes are enough to find a closing tag that has begun. -/
theorem settled_close {front buf : List Char} (hfree : ¬ thinkClose <:+: front ++ buf)
    (hkept : front = [] ∨ 8 ≤ utf8Len buf) : Settled thinkClose front buf := by
  rcases hkept with rfl | hkept
  · exact settled_nil _ _
  · refine settled_of_free hfree fun k hk hprefix => ?_
    rw [List.drop_append_of_le_length hk.le] at hprefix
    obtain ⟨t, ht⟩ := hprefix
    have hlen := congrArg utf8Len ht
    have hclose : utf8Len thinkClose = 8 := by decide
    have hfront := length_le_utf8Len (front.drop k)
    rw [List.length_drop] at hfront
    rw [utf8Len_append, utf8Len_append, hclose] at hlen
    omega

/-- The buffer after a read that goes on inside a block. -/
theorem Tracks.inside (h : Tracks s front shown buf) (hin : s.inBlock = true) {text : List Char}
    (hfree : ¬ thinkClose <:+: buf ++ text) :
    (∀ rest, drainBytes (utf8Len (buf ++ text) - 8) (buf ++ text) = some rest →
      Aligned (s.run thinkOpen thinkClose text) ∧
        ∃ front', Tracks (s.run thinkOpen thinkClose text) front' shown rest) ∧
      (drainBytes (utf8Len (buf ++ text) - 8) (buf ++ text) = none →
        ¬ Aligned (s.run thinkOpen thinkClose text)) := by
  have htag := awaited_inside hin
  obtain ⟨hwhole, hrun⟩ := h.run_free (htag ▸ hfree)
  rw [htag] at hwhole
  have haligned : Aligned (s.run thinkOpen thinkClose text) ↔
      IsCharBoundary (buf ++ text) (utf8Len (buf ++ text) - 8) := by
    rw [hrun, Aligned]
    dsimp only
    rw [h.rest, List.append_assoc]
    rcases h.kept hin with rfl | hkept
    · rw [List.nil_append]
      exact forall_prop_of_true hin
    · have hlen : utf8Len (front ++ (buf ++ text)) - 8 =
          utf8Len front + (utf8Len (buf ++ text) - 8) := by
        simp only [utf8Len_append]
        omega
      rw [hlen, isCharBoundary_append]
      exact forall_prop_of_true hin
  rw [haligned, isCharBoundary_iff]
  refine ⟨fun rest hrest => ⟨by rw [hrest]; rfl, ?_⟩, fun hnone => by rw [hnone]; decide⟩
  obtain ⟨dropped, hdropped, hlen⟩ := drainBytes_eq_some_iff.mp hrest
  have hrest' : s.rest ++ text = front ++ dropped ++ rest := by
    rw [h.rest, List.append_assoc, hdropped, List.append_assoc]
  have hkept' : front ++ dropped = [] ∨ 8 ≤ utf8Len rest := by
    have htotal := congrArg utf8Len hdropped
    rw [utf8Len_append dropped] at htotal
    rcases Nat.lt_or_ge (utf8Len rest) 8 with hshort | hlong
    · left
      have hbuf : utf8Len (buf ++ text) < 8 := by omega
      have hdroppedLen := length_le_utf8Len dropped
      obtain rfl : dropped = [] := List.eq_nil_of_length_eq_zero (by omega)
      rcases h.kept hin with rfl | hkept
      · rfl
      · rw [utf8Len_append] at hbuf
        omega
    · exact .inr hlong
  refine ⟨front ++ dropped, ?_⟩
  rw [hrun]
  refine ⟨hrest', ?_, ?_, fun _ => hkept', fun hout => ?_⟩
  · rw [awaited_inside (s := { s with rest := s.rest ++ text }) hin]
    exact settled_close (by rw [← hrest']; exact hwhole) hkept'
  · dsimp only
    rw [h.shown, hin]
    rfl
  · dsimp only at hout
    rw [hin] at hout
    cases hout

/-- A read that meets a tag. -/
theorem Tracks.switch (h : Tracks s front shown buf) (hclean : s.Clean thinkOpen thinkClose)
    {text : List Char} {pos : ℕ} (hfind : findSub (awaited s) (buf ++ text) = some pos) :
    let next := s.switch (front ++ (buf ++ text).take pos)
    Tracks next [] (if s.inBlock then shown else shown ++ (buf ++ text).take pos) [] ∧
      s.run thinkOpen thinkClose text =
        next.run thinkOpen thinkClose ((buf ++ text).drop (pos + (awaited s).length)) := by
  constructor
  · refine ⟨rfl, settled_nil _ _, ?_, fun _ => .inl rfl, fun _ => rfl⟩
    rw [h.shown, Scan.switch]
    cases s.inBlock with
    | true => simp
    | false => simp
  · have hsplit := h.settled.splitsAt (findSub_splitsAt hfind)
    rw [← h.rest] at hsplit
    exact Scan.run_of_split hclean hsplit

/-- The loop over what it reads: it panics exactly where the text leaves a block unaligned. -/
theorem consumeLoop_spec {fuel : ℕ} {text : List Char} (h : Tracks s front shown buf)
    (hclean : s.Clean thinkOpen thinkClose) (hfuel : (buf ++ text).length < fuel) :
    let s' := s.run thinkOpen thinkClose text
    match consumeLoop fuel (buf ++ text) s.inBlock with
    | some r => Aligned s' ∧ r.2.2 = s'.inBlock ∧ ∃ front', Tracks s' front' (shown ++ r.1) r.2.1
    | none => ¬ Aligned s' := by
  induction fuel generalizing s front shown buf text with
  | zero => cases hfuel
  | succ fuel ih =>
    dsimp only
    cases hblock : s.inBlock with
    | true =>
      have htag := awaited_inside hblock
      rw [consumeLoop]
      cases hfind : findSub thinkClose (buf ++ text) with
      | none =>
        have hfree := findSub_eq_none hfind
        obtain ⟨hsome, hnone⟩ := h.inside hblock hfree
        cases hdrain : drainBytes (utf8Len (buf ++ text) - 8) (buf ++ text) with
        | none => exact hnone hdrain
        | some rest =>
          obtain ⟨haligned, front', htracks⟩ := hsome rest hdrain
          have hmode : true = (s.run thinkOpen thinkClose text).inBlock := by
            rw [(h.run_free (htag ▸ hfree)).2, hblock]
          simp only [Option.map_some, List.append_nil]
          exact ⟨haligned, hmode, front', htracks⟩
      | some pos =>
        obtain ⟨htracks, hrun⟩ := h.switch hclean (htag ▸ hfind)
        have hshorter : ((buf ++ text).drop (pos + thinkClose.length)).length < fuel :=
          Nat.lt_of_lt_of_le (length_after_lt (by decide) hfind) (Nat.lt_succ_iff.mp hfuel)
        have hnext := ih htracks (Scan.clean_switch (by decide) (by decide) _) hshorter
        rw [htag] at hrun
        rw [hrun]
        rw [Scan.switch, hblock, if_pos rfl] at hnext
        rw [Scan.switch, hblock]
        exact hnext
    | false =>
      have htag := awaited_outside hblock
      rw [consumeLoop]
      cases hfind : findSub thinkOpen (buf ++ text) with
      | none =>
        have hfree := findSub_eq_none hfind
        have hmode : false = (s.run thinkOpen thinkClose text).inBlock := by
          rw [(h.run_free (htag ▸ hfree)).2, hblock]
        refine ⟨fun hin => ?_, hmode, _, h.outside hblock hfree⟩
        rw [← hmode] at hin
        cases hin
      | some pos =>
        obtain ⟨htracks, hrun⟩ := h.switch hclean (htag ▸ hfind)
        have hshorter : ((buf ++ text).drop (pos + thinkOpen.length)).length < fuel :=
          Nat.lt_of_lt_of_le (length_after_lt (by decide) hfind) (Nat.lt_succ_iff.mp hfuel)
        have hnext := ih htracks (Scan.clean_switch (by decide) (by decide) _) hshorter
        rw [htag] at hrun
        rw [hrun]
        rw [Scan.switch, hblock] at hnext ⊢
        dsimp only at hnext ⊢
        simp only [List.nil_append, Bool.not_false] at hnext
        cases hloop : consumeLoop fuel ((buf ++ text).drop (pos + thinkOpen.length)) true with
        | none =>
          rw [hloop] at hnext
          exact hnext
        | some r =>
          rw [hloop] at hnext
          obtain ⟨haligned, hmode, front', htracks'⟩ := hnext
          refine ⟨haligned, hmode, front', ?_⟩
          have hshown : shown ++ (buf ++ text).take pos ++ r.1 =
              shown ++ ((buf ++ text).take pos ++ r.1) := List.append_assoc ..
          rw [← hshown]
          exact htracks'

end Loop

/-! ## Fragments -/

/-- The filter has read `text` and emitted `shown`. -/
structure Filters (text shown : List Char) (ts : TokenStreamState) : Prop where
  mode : ts.inThink = (thinkScan text).inBlock
  tracks : ∃ front, Tracks (thinkScan text) front shown ts.thinkBuf

namespace TokenStreamState
variable {ts ts' : TokenStreamState} {text shown fragment e : List Char} {fs gs : List (List Char)}

/-- `consume_text`, fragment after fragment. -/
def consumeAll (ts : TokenStreamState) : List (List Char) → Option (List Char × TokenStreamState)
  | [] => some ([], ts)
  | fragment :: fs => do
    let (emitted, ts) ← ts.consumeText fragment
    let (more, ts) ← ts.consumeAll fs
    return (emitted ++ more, ts)

theorem filters_default (now : Millis) : Filters [] [] (TokenStreamState.default now) := by
  refine ⟨rfl, [], rfl, settled_nil _ _, rfl, fun _ => .inl rfl, fun _ => rfl⟩

theorem shown_of_filters (h : Filters text shown ts) : shown = shownText (thinkScan text) := by
  obtain ⟨front, htracks⟩ := h.tracks
  exact htracks.shown_eq

theorem thinkScan_append (text fragment : List Char) :
    thinkScan (text ++ fragment) = (thinkScan text).run thinkOpen thinkClose fragment :=
  Scan.run_append ..

theorem consumeText_eq_some (h : Filters text shown ts) (hc : ts.consumeText fragment = some (e, ts')) :
    Aligned (thinkScan (text ++ fragment)) ∧ Filters (text ++ fragment) (shown ++ e) ts' := by
  obtain ⟨front, htracks⟩ := h.tracks
  have hclean : (thinkScan text).Clean thinkOpen thinkClose :=
    Scan.clean_run (by decide) (by decide) (Scan.clean_start (by decide)) text
  have hspec := consumeLoop_spec htracks hclean (Nat.lt_succ_self (ts.thinkBuf ++ fragment).length)
  obtain ⟨r, hr, heq⟩ := Option.map_eq_some_iff.mp hc
  obtain ⟨rfl, rfl⟩ := Prod.mk.inj heq
  rw [← h.mode, hr, ← thinkScan_append] at hspec
  exact ⟨hspec.1, hspec.2.1, hspec.2.2⟩

theorem consumeText_eq_none (h : Filters text shown ts) (hc : ts.consumeText fragment = none) :
    ¬ Aligned (thinkScan (text ++ fragment)) := by
  obtain ⟨front, htracks⟩ := h.tracks
  have hclean : (thinkScan text).Clean thinkOpen thinkClose :=
    Scan.clean_run (by decide) (by decide) (Scan.clean_start (by decide)) text
  have hspec := consumeLoop_spec htracks hclean (Nat.lt_succ_self (ts.thinkBuf ++ fragment).length)
  have hr := Option.map_eq_none_iff.mp hc
  rw [← h.mode, hr, ← thinkScan_append] at hspec
  exact hspec

/-- What feeding the fragments leads to. -/
theorem consumeAll_spec (h : Filters text shown ts) :
    (∀ r, ts.consumeAll fs = some r → Filters (text ++ fs.flatten) (shown ++ r.1) r.2) ∧
      ((ts.consumeAll fs).isSome = true ↔
        ∀ before, before <+: fs → before ≠ [] → Aligned (thinkScan (text ++ before.flatten))) := by
  induction fs generalizing ts text shown with
  | nil =>
    constructor
    · intro r hr
      obtain rfl := Option.some.inj hr
      simpa using h
    · refine iff_of_true rfl fun before hbefore hne => ?_
      exact absurd (List.prefix_nil.mp hbefore) hne
  | cons fragment fs ih =>
    rw [consumeAll]
    cases hc : ts.consumeText fragment with
    | none =>
      refine ⟨by rintro _ ⟨⟩, iff_of_false (by rintro ⟨⟩) fun hall => ?_⟩
      have hfirst := hall [fragment] ⟨fs, rfl⟩ (List.cons_ne_nil _ _)
      rw [List.flatten_singleton] at hfirst
      exact consumeText_eq_none h hc hfirst
    | some r =>
      obtain ⟨e, ts'⟩ := r
      obtain ⟨haligned, h'⟩ := consumeText_eq_some h hc
      obtain ⟨hfilters, hsome⟩ := ih h'
      simp only [Option.bind_eq_bind, Option.bind_some]
      constructor
      · intro r hr
        obtain ⟨r', hr', heq⟩ := Option.bind_eq_some_iff.mp hr
        obtain rfl := Option.some.inj heq
        have hend := hfilters r' hr'
        simpa only [List.flatten_cons, List.append_assoc] using hend
      · have hiff : ((ts'.consumeAll fs).bind fun r => some (e ++ r.1, r.2)).isSome =
            (ts'.consumeAll fs).isSome := by
          cases ts'.consumeAll fs <;> rfl
        refine Eq.to_iff (congrArg (· = true) hiff) |>.trans (hsome.trans ?_)
        constructor
        · intro hall before hbefore hne
          rcases List.prefix_cons_iff.mp hbefore with rfl | ⟨before', rfl, hbefore'⟩
          · exact absurd rfl hne
          · rw [List.flatten_cons, ← List.append_assoc]
            by_cases hnil : before' = []
            · rw [hnil, List.flatten_nil, List.append_nil]
              exact haligned
            · exact hall before' hbefore' hnil
        · intro hall before hbefore hne
          have hlonger := hall (fragment :: before) ((List.prefix_cons_inj fragment).mpr hbefore)
            (List.cons_ne_nil _ _)
          rwa [List.flatten_cons, ← List.append_assoc] at hlonger

/-- No fragment makes the filter panic, exactly when after none of them the text leaves a block open
in which eight bytes before the end no character starts. -/
theorem consumes_iff (now : Millis) (fs : List (List Char)) :
    ((TokenStreamState.default now).consumeAll fs).isSome = true ↔
      ∀ before, before <+: fs → Aligned (thinkScan before.flatten) := by
  rw [(consumeAll_spec (filters_default now)).2]
  simp only [List.nil_append]
  constructor
  · intro hall before hbefore
    by_cases hnil : before = []
    · rw [hnil]
      rintro ⟨⟩
    · exact hall before hbefore hnil
  · exact fun hall before hbefore _ => hall before hbefore

/-- A block of three Hangul syllables that comes after its opening tag. -/
theorem multibyte_block_panics :
    ¬ ∀ now fs, ((TokenStreamState.default now).consumeAll fs).isSome = true := by
  intro hall
  have hsome := hall 0 ["<think>".toList, "가나다".toList]
  revert hsome
  decide

/-! ## Cuts -/

theorem aligned_of_ascii (hascii : ∀ c ∈ text, c.toNat < 128) : Aligned (thinkScan text) := by
  intro hin
  have hrest : ∀ c ∈ (thinkScan text).rest, c.toNat < 128 := by
    intro c hc
    rcases Scan.mem_rest_run hc with hnone | htext
    · cases hnone
    · exact hascii c htext
  refine isCharBoundary_of_ascii hrest ?_
  rw [utf8Len_of_ascii hrest]
  omega

/-- However an ASCII text is cut, the filter emits the same. -/
theorem cut_independent_of_ascii {now now' : Millis} (hsame : fs.flatten = gs.flatten)
    (hascii : ∀ c ∈ fs.flatten, c.toNat < 128) :
    ∃ shown, ((TokenStreamState.default now).consumeAll fs).map Prod.fst = some shown ∧
      ((TokenStreamState.default now').consumeAll gs).map Prod.fst = some shown := by
  have hemits : ∀ (now : Millis) (hs : List (List Char)), (∀ c ∈ hs.flatten, c.toNat < 128) →
      ((TokenStreamState.default now).consumeAll hs).map Prod.fst =
        some (shownText (thinkScan hs.flatten)) := by
    intro now hs hascii
    have hsome : ((TokenStreamState.default now).consumeAll hs).isSome = true := by
      rw [consumes_iff]
      intro before hbefore
      refine aligned_of_ascii fun c hc => hascii c ?_
      obtain ⟨after, rfl⟩ := hbefore
      rw [List.flatten_append]
      exact List.mem_append_left _ hc
    obtain ⟨r, hr⟩ := Option.isSome_iff_exists.mp hsome
    have hfilters := (consumeAll_spec (filters_default now)).1 r hr
    rw [hr, Option.map_some]
    exact congrArg some (shown_of_filters hfilters)
  refine ⟨shownText (thinkScan fs.flatten), hemits now fs hascii, ?_⟩
  rw [hsame] at hascii ⊢
  exact hemits now' gs hascii

/-- A block whose tags are cut in the middle. -/
theorem cut_inside_tags :
    ∃ shown, ((TokenStreamState.default 0).consumeAll
        ["a<<thi".toList, "nk>b</th".toList, "ink>c".toList]).map Prod.fst = some shown ∧
      ((TokenStreamState.default 0).consumeAll ["a<<think>b</think>c".toList]).map Prod.fst =
        some shown := by
  have hascii : (["a<<thi".toList, "nk>b</th".toList, "ink>c".toList].flatten.all
      fun c => c.toNat < 128) = true := by decide
  refine cut_independent_of_ascii (by decide) fun c hc => ?_
  exact of_decide_eq_true (List.all_eq_true.mp hascii c hc)

end TokenStreamState

end Veronex
