import Mathlib.Data.List.Infix
import Mathlib.Tactic.Common

/-! # Texts with delimited blocks

A text is read letter by letter. Outside the blocks an opening tag starts one, inside a closing tag
ends it; the tags may be any words. `scan_run` and `scan_switch` say where a scan leads that meets
no tag and one that meets a tag; `Settled` is what a reader may forget and still find every tag.
-/
namespace Concurrency
set_option autoImplicit false

universe u
variable {α : Type u}

/-! ## The first occurrence of a word -/

/-- The word ends the first prefix of the text that it ends. -/
structure SplitsAt (tag text before after : List α) : Prop where
  split : text = before ++ tag ++ after
  first : ∀ front, front <+: before ++ tag → tag <:+ front → front = before ++ tag

/-- The front of a text is settled before the back: no occurrence starts in it, whatever follows. -/
def Settled (tag front back : List α) : Prop :=
  ∀ after k, k < front.length → ¬ tag <+: (front ++ back ++ after).drop k

section Occurrences
variable {tag front back text before after : List α}

theorem settled_nil (tag back : List α) : Settled tag [] back := by
  intro after k hk
  cases hk

/-- What is settled holds no start of the tag that runs up to the end of the text. -/
theorem settled_of_free (hfree : ¬ tag <:+: front ++ back)
    (hstarts : ∀ k < front.length, ¬ (front ++ back).drop k <+: tag) : Settled tag front back := by
  intro after k hk hstart
  have hlength : k ≤ (front ++ back).length := by
    rw [List.length_append]
    omega
  rw [List.drop_append_of_le_length hlength] at hstart
  rcases Nat.le_total tag.length ((front ++ back).drop k).length with hle | hle
  · have hinside : tag <+: (front ++ back).drop k :=
      List.prefix_of_prefix_length_le hstart (List.prefix_append _ _) hle
    exact hfree (hinside.isInfix.trans (List.drop_suffix k _).isInfix)
  · have hrest : (front ++ back).drop k <+: tag :=
      List.prefix_of_prefix_length_le (List.prefix_append _ _) hstart hle
    exact hstarts k hk hrest

/-- An occurrence after a settled front starts after it. -/
theorem Settled.infix (h : Settled tag front back) (after : List α) :
    tag <:+: front ++ back ++ after ↔ tag <:+: back ++ after := by
  constructor
  · rintro ⟨s, t, hst⟩
    have hlate : front.length ≤ s.length := by
      by_contra hearly
      refine h after s.length (by omega) ?_
      rw [← hst, List.append_assoc, List.drop_left]
      exact List.prefix_append _ _
    have hsplit : (s ++ tag ++ t).drop front.length = s.drop front.length ++ tag ++ t := by
      rw [List.append_assoc, List.drop_append_of_le_length hlate, List.append_assoc]
    rw [hst, List.append_assoc, List.drop_left] at hsplit
    exact ⟨s.drop front.length, t, hsplit.symm⟩
  · intro hocc
    rw [List.append_assoc]
    exact hocc.trans (List.suffix_append _ _).isInfix

theorem Settled.splitsAt (h : Settled tag front back) (hsplit : SplitsAt tag (back ++ after) before text) :
    SplitsAt tag (front ++ back ++ after) (front ++ before) text := by
  constructor
  · rw [List.append_assoc, hsplit.split]
    simp only [List.append_assoc]
  · rintro whole hwhole ⟨s, hs⟩
    obtain ⟨t, ht⟩ := hwhole
    have hall : s ++ tag ++ (t ++ text) = front ++ back ++ after := by
      rw [List.append_assoc front, hsplit.split, hs, ← List.append_assoc whole, ht]
      simp only [List.append_assoc]
    have hlate : front.length ≤ s.length := by
      by_contra hearly
      refine h after s.length (by omega) ?_
      rw [← hall, List.append_assoc, List.drop_left]
      exact List.prefix_append _ _
    obtain ⟨s', rfl⟩ : front <+: s := by
      have hfront : front <+: front ++ back ++ after := by
        rw [List.append_assoc]
        exact List.prefix_append _ _
      have hearlier : s <+: front ++ back ++ after := by
        rw [← hall, List.append_assoc]
        exact List.prefix_append _ _
      exact List.prefix_of_prefix_length_le hfront hearlier hlate
    have hback : s' ++ tag = before ++ tag := by
      refine hsplit.first _ ⟨t, ?_⟩ (List.suffix_append _ _)
      have hfront : front ++ (s' ++ tag ++ t) = front ++ (before ++ tag) := by
        rw [← List.append_assoc front, ← List.append_assoc front, hs, ht, List.append_assoc]
      exact List.append_cancel_left hfront
    rw [← hs, List.append_assoc, hback, List.append_assoc]

end Occurrences

/-! ## The scan -/

/-- What is outside the blocks before the last tag, and what follows it. -/
structure Scan (α : Type u) where
  inBlock : Bool
  out : List α
  rest : List α

namespace Scan
variable (opening closing : List α)

def start : Scan α := { inBlock := false, out := [], rest := [] }

/-- The tag that is looked for. -/
def tag (s : Scan α) : List α := if s.inBlock then closing else opening

/-- A tag is met; `before` is what is between the last two tags. -/
def switch (s : Scan α) (before : List α) : Scan α :=
  { inBlock := !s.inBlock, out := if s.inBlock then s.out else s.out ++ before, rest := [] }

/-- No tag is left unread. -/
def Clean (s : Scan α) : Prop := ¬ s.tag opening closing <:+: s.rest

section Clean
variable {opening closing} {s : Scan α}

theorem clean_start (hopening : opening ≠ []) : (start : Scan α).Clean opening closing := by
  intro hocc
  exact hopening (List.infix_nil.mp hocc)

theorem clean_switch (hopening : opening ≠ []) (hclosing : closing ≠ []) (before : List α) :
    (s.switch before).Clean opening closing := by
  intro hocc
  have hnil := List.infix_nil.mp hocc
  unfold tag at hnil
  split at hnil
  · exact hclosing hnil
  · exact hopening hnil

end Clean

variable [DecidableEq α]

def step (s : Scan α) (c : α) : Scan α :=
  let rest := s.rest ++ [c]
  if s.tag opening closing <:+ rest then
    s.switch (rest.take (rest.length - (s.tag opening closing).length))
  else { s with rest }

def run (s : Scan α) (text : List α) : Scan α := text.foldl (step opening closing) s

variable {opening closing} {s : Scan α} {text before after : List α}

theorem run_append (s : Scan α) (text text' : List α) :
    s.run opening closing (text ++ text') = (s.run opening closing text).run opening closing text' :=
  List.foldl_append

theorem run_concat (s : Scan α) (text : List α) (c : α) :
    s.run opening closing (text ++ [c]) = (s.run opening closing text).step opening closing c :=
  List.foldl_concat ..

theorem step_quiet {c : α} (h : ¬ s.tag opening closing <:+ s.rest ++ [c]) :
    s.step opening closing c = { s with rest := s.rest ++ [c] } :=
  if_neg h

theorem step_switch {c : α} (h : s.rest ++ [c] = before ++ s.tag opening closing) :
    s.step opening closing c = s.switch before := by
  have hsuffix : s.tag opening closing <:+ s.rest ++ [c] := h ▸ List.suffix_append _ _
  have htake : (s.rest ++ [c]).take
      ((s.rest ++ [c]).length - (s.tag opening closing).length) = before := by
    rw [h, List.length_append, Nat.add_sub_cancel]
    exact List.take_left ..
  have hstep : s.step opening closing c = s.switch ((s.rest ++ [c]).take
      ((s.rest ++ [c]).length - (s.tag opening closing).length)) := if_pos hsuffix
  rw [hstep, htake]

theorem step_cases (opening closing : List α) (s : Scan α) (c : α) :
    (∃ before, s.rest ++ [c] = before ++ s.tag opening closing ∧
        s.step opening closing c = s.switch before) ∨
      ¬ s.tag opening closing <:+ s.rest ++ [c] ∧
        s.step opening closing c = { s with rest := s.rest ++ [c] } := by
  by_cases hsuffix : s.tag opening closing <:+ s.rest ++ [c]
  · obtain ⟨before, hword⟩ := hsuffix
    exact .inl ⟨before, hword.symm, step_switch hword.symm⟩
  · exact .inr ⟨hsuffix, step_quiet hsuffix⟩

theorem run_of_free (hfree : ¬ s.tag opening closing <:+: s.rest ++ text) :
    s.run opening closing text = { s with rest := s.rest ++ text } := by
  induction text using List.reverseRecOn with
  | nil => simp [run]
  | append_singleton text c ih =>
    have hbefore : ¬ s.tag opening closing <:+: s.rest ++ text := by
      intro hocc
      refine hfree (hocc.trans ?_)
      rw [← List.append_assoc]
      exact (List.prefix_append _ _).isInfix
    have hstep : ¬ s.tag opening closing <:+ s.rest ++ text ++ [c] := by
      intro hsuffix
      refine hfree ?_
      rw [← List.append_assoc]
      exact hsuffix.isInfix
    rw [run_concat, ih hbefore, step_quiet hstep, List.append_assoc]

/-- The first tag that is met switches the scan. -/
theorem run_of_split (hclean : s.Clean opening closing)
    (hsplit : SplitsAt (s.tag opening closing) (s.rest ++ text) before after) :
    s.run opening closing text = (s.switch before).run opening closing after := by
  have htag : s.tag opening closing ≠ [] := by
    intro hnil
    refine hclean ?_
    rw [hnil]
    exact List.nil_infix
  have hlonger : s.rest.length < (before ++ s.tag opening closing).length := by
    by_contra hle
    refine hclean ?_
    have hsplit' : before ++ s.tag opening closing <+: s.rest ++ text := by
      rw [hsplit.split]
      exact List.prefix_append _ _
    have hprefix : before ++ s.tag opening closing <+: s.rest :=
      List.prefix_of_prefix_length_le hsplit' (List.prefix_append _ _) (by omega)
    exact (List.suffix_append _ _).isInfix.trans hprefix.isInfix
  obtain ⟨read, hread⟩ : s.rest <+: before ++ s.tag opening closing := by
    have hsplit' : before ++ s.tag opening closing <+: s.rest ++ text := by
      rw [hsplit.split]
      exact List.prefix_append _ _
    exact List.prefix_of_prefix_length_le (List.prefix_append _ _) hsplit' (by omega)
  obtain rfl : text = read ++ after := by
    have hall := hsplit.split
    rw [← hread, List.append_assoc] at hall
    exact List.append_cancel_left hall
  cases read using List.reverseRecOn with
  | nil =>
    rw [← hread, List.append_nil] at hlonger
    omega
  | append_singleton read c =>
    have hfree : ¬ s.tag opening closing <:+: s.rest ++ read := by
      rintro ⟨l, r, hlr⟩
      have hfront : l ++ s.tag opening closing <+: before ++ s.tag opening closing := by
        rw [← hread, ← List.append_assoc, ← hlr]
        exact (List.prefix_append _ _).trans (List.prefix_append _ _)
      have hsame := hsplit.first _ hfront (List.suffix_append _ _)
      have hlength : (l ++ s.tag opening closing ++ r).length = (s.rest ++ read).length := by
        rw [hlr]
      have hwhole := congrArg List.length hread
      rw [← hsame] at hwhole
      simp only [List.length_append, List.length_singleton] at hlength hwhole
      omega
    have hword : s.rest ++ read ++ [c] = before ++ s.tag opening closing := by
      rw [List.append_assoc, hread]
    have hmet : s.run opening closing (read ++ [c]) = s.switch before := by
      rw [run_concat, run_of_free hfree]
      exact step_switch hword
    rw [run_append, hmet]

theorem mem_rest_run {c : α} (h : c ∈ (s.run opening closing text).rest) : c ∈ s.rest ∨ c ∈ text := by
  induction text generalizing s with
  | nil => exact .inl h
  | cons d text ih =>
    rcases ih (s := s.step opening closing d) h with hrest | htext
    · rcases step_cases opening closing s d with ⟨before, -, hstep⟩ | ⟨-, hstep⟩
      · rw [hstep] at hrest
        cases hrest
      · rw [hstep] at hrest
        rcases List.mem_append.mp hrest with hrest | hd
        · exact .inl hrest
        · rw [List.mem_singleton.mp hd]
          exact .inr (List.mem_cons_self ..)
    · exact .inr (List.mem_cons_of_mem d htext)

theorem clean_run (hopening : opening ≠ []) (hclosing : closing ≠ [])
    (hclean : s.Clean opening closing) (text : List α) :
    (s.run opening closing text).Clean opening closing := by
  induction text using List.reverseRecOn with
  | nil => exact hclean
  | append_singleton text c ih =>
    rw [run_concat]
    generalize s.run opening closing text = s' at ih ⊢
    rcases step_cases opening closing s' c with ⟨before, -, hstep⟩ | ⟨hsuffix, hstep⟩
    · rw [hstep]
      exact clean_switch hopening hclosing before
    · rw [hstep]
      intro hocc
      rcases List.infix_concat_iff.mp hocc with hend | hinside
      · exact hsuffix hend
      · exact ih hinside

end Scan

end Concurrency
