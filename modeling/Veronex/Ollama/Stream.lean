import Veronex.Domain.Values
import Veronex.Foundation.Utf8Lossy
import Mathlib.Data.List.Infix

/-! # The NDJSON streams of Ollama

`stream_generate` and `stream_chat` of `infrastructure/outbound/ollama/adapter.rs`, from the bytes of
the response to the tokens. `from_str` of `serde_json` is a parameter.

`cut_independent`: cuts of one response into chunks that decode apart as they decode together, and
that never fill the buffer, lead to the same tokens.
-/
namespace Veronex
set_option autoImplicit false
open Concurrency

def MAX_LINE_BUFFER : ℕ := 1048576

structure GenerateResponse where
  response : String
  done : Bool
  doneReason : Option String
  promptEvalCount : Option ℕ
  evalCount : Option ℕ

structure ChatChunkMessage where
  content : Option String
  toolCalls : Option Json

structure ChatChunk where
  message : Option ChatChunkMessage
  done : Bool
  doneReason : Option String
  promptEvalCount : Option ℕ
  evalCount : Option ℕ

/-! ## Lines -/

/-- The complete lines of a buffer, and what follows the last of them. -/
def splitLines : List Char → List (List Char) × List Char
  | [] => ([], [])
  | c :: text =>
    let (lines, rest) := splitLines text
    if c = '\n' then ([] :: lines, rest)
    else match lines with
      | [] => ([], c :: rest)
      | line :: lines => ((c :: line) :: lines, rest)

/-- `len` of a buffer, in bytes. -/
def bufLen (buf : List Char) : ℕ := (buf.map Char.utf8Size).sum

/-- Where a stream is. `ended` is how it ended, or the error of its last item. -/
structure LineStream (σ : Type) where
  st : σ
  buf : List Char
  tokens : List StreamToken
  ended : Option (Except String Unit)

/-- What a stream does with a line: the tokens it yields, and whether it goes on. -/
abbrev LineHandler (σ : Type) := σ → String → List StreamToken × σ × Option (Except String Unit)

namespace LineStream
variable {σ : Type} (handle : LineHandler σ) (s : LineStream σ)

def start (st : σ) : LineStream σ := { st, buf := [], tokens := [], ended := none }

/-- One round of the loop over the lines. -/
def readLine (line : List Char) : LineStream σ :=
  if s.ended.isSome then s
  else
    let line := trim line
    if line = [] then s
    else
      let (tokens, st, ended) := handle s.st (String.ofList line)
      { s with st, tokens := s.tokens ++ tokens, ended }

def readLines (lines : List (List Char)) : LineStream σ := lines.foldl (readLine handle) s

/-- A chunk of the response. -/
def readChunk (bytes : List UInt8) : LineStream σ :=
  if s.ended.isSome then s
  else if MAX_LINE_BUFFER < bufLen s.buf + bytes.length then
    { s with ended := some (.error "response line exceeds 1 MB limit") }
  else
    let (lines, rest) := splitLines (s.buf ++ fromUtf8Lossy bytes)
    { s.readLines handle lines with buf := rest }

/-- What the caller sees of a stream. -/
def output : List StreamToken × Option (Except String Unit) := (s.tokens, s.ended)

end LineStream

/-! ## The two streams -/

/-- `finish_reason` of a final token. -/
def finishReason (done : Bool) (doneReason : Option String) : Option String :=
  if done then doneReason.filter (· ≠ "load") else none

def generateLine (fromStr : String → Except String GenerateResponse) : LineHandler Unit :=
  fun _ line =>
    match fromStr line with
    | .error e =>
      ([], (), some (.error s!"failed to parse Ollama generate response: {e}: {line}"))
    | .ok chunk =>
      -- the model was loaded; this is no completion
      if chunk.done ∧ chunk.doneReason = some "load" then ([], (), none)
      else
        let (promptTokens, completionTokens) :=
          if chunk.done then (chunk.promptEvalCount, chunk.evalCount) else (none, none)
        ([{ value := chunk.response, isFinal := chunk.done, promptTokens, completionTokens
            cachedTokens := none, toolCalls := none
            finishReason := finishReason chunk.done chunk.doneReason, isPhaseBoundary := false }],
          (), if chunk.done then some (.ok ()) else none)

/-- The state is `emitted_tool_calls`. -/
def chatLine (fromStr : String → Except String ChatChunk) : LineHandler Bool :=
  fun emittedToolCalls line =>
    match fromStr line with
    | .error e =>
      ([], emittedToolCalls,
        some (.error s!"failed to parse Ollama chat response: {e}: {line}"))
    | .ok chunk =>
      if chunk.done ∧ chunk.doneReason = some "load" then ([], emittedToolCalls, none)
      else
        let (promptTokens, completionTokens) :=
          if chunk.done then (chunk.promptEvalCount, chunk.evalCount) else (none, none)
        let toolCalls := chunk.message.bind ChatChunkMessage.toolCalls
        let calls : List StreamToken :=
          if emittedToolCalls then []
          else match toolCalls with
            | some calls => [{ StreamToken.text "" with toolCalls := some calls }]
            | none => []
        let content := (chunk.message.bind ChatChunkMessage.content).getD ""
        let texts : List StreamToken :=
          if chunk.done ∨ content ≠ "" then
            [{ value := content, isFinal := chunk.done, promptTokens, completionTokens
               cachedTokens := none, toolCalls := none
               finishReason := finishReason chunk.done chunk.doneReason
               isPhaseBoundary := false }]
          else []
        (calls ++ texts, emittedToolCalls || toolCalls.isSome,
          if chunk.done then some (.ok ()) else none)

/-- `stream_generate`, from the chunks of a successful response. -/
def streamGenerate (fromStr : String → Except String GenerateResponse)
    (chunks : List (List UInt8)) : List StreamToken × Option (Except String Unit) :=
  (chunks.foldl (LineStream.readChunk (generateLine fromStr)) (.start ())).output

/-- `stream_chat`, from the chunks of a successful response. -/
def streamChat (fromStr : String → Except String ChatChunk) (chunks : List (List UInt8)) :
    List StreamToken × Option (Except String Unit) :=
  (chunks.foldl (LineStream.readChunk (chatLine fromStr)) (.start false)).output

/-! ## Cuts -/

/-- Every chunk decodes by itself as it does after the bytes before it, and fits into the buffer
beside the line that is unfinished there. -/
def CleanCut (chunks : List (List UInt8)) : Prop :=
  ∀ before chunk, before ++ [chunk] <+: chunks →
    fromUtf8Lossy (before.flatten ++ chunk) =
        fromUtf8Lossy before.flatten ++ fromUtf8Lossy chunk ∧
      bufLen (splitLines (fromUtf8Lossy before.flatten)).2 + chunk.length ≤ MAX_LINE_BUFFER

section Cuts
variable {σ : Type} {handle : LineHandler σ} {s : LineStream σ} {chunks : List (List UInt8)}

theorem splitLines_append (xs ys : List Char) :
    splitLines (xs ++ ys) =
      ((splitLines xs).1 ++ (splitLines ((splitLines xs).2 ++ ys)).1,
        (splitLines ((splitLines xs).2 ++ ys)).2) := by
  induction xs with
  | nil => rfl
  | cons c xs ih =>
    rw [List.cons_append, splitLines, ih]
    by_cases hc : c = '\n'
    · simp [splitLines, hc]
    · cases hlines : (splitLines xs).1 with
      | nil =>
        have hrest : splitLines (c :: xs) = ([], c :: (splitLines xs).2) := by
          simp [splitLines, hc, hlines]
        rw [hrest]
        simp only [hc, if_false, List.nil_append, List.cons_append, splitLines]
      | cons line lines =>
        have hrest : splitLines (c :: xs) = ((c :: line) :: lines, (splitLines xs).2) := by
          simp [splitLines, hc, hlines]
        rw [hrest]
        simp [hc]

theorem readLines_ended (h : s.ended.isSome) (lines : List (List Char)) :
    s.readLines handle lines = s := by
  induction lines with
  | nil => rfl
  | cons line lines ih =>
    have hline : s.readLine handle line = s := if_pos h
    rw [LineStream.readLines, List.foldl_cons, hline]
    exact ih

/-- The buffer takes no part in reading lines. -/
theorem readLines_buf (lines : List (List Char)) (buf : List Char) :
    ({ s with buf } : LineStream σ).readLines handle lines =
      { s.readLines handle lines with buf } := by
  induction lines generalizing s with
  | nil => rfl
  | cons line lines ih =>
    have hline : ({ s with buf } : LineStream σ).readLine handle line =
        { s.readLine handle line with buf } := by
      unfold LineStream.readLine
      dsimp only
      split
      · rfl
      · split <;> rfl
    simp only [LineStream.readLines, List.foldl_cons] at ih ⊢
    rw [hline, ih]

/-- Unless a chunk overflows the buffer, the stream is where reading the text at once leads, each
chunk being decoded by itself. -/
theorem readChunks_cases (handle : LineHandler σ) (chunks : List (List UInt8)) (st : σ) :
    let text := chunks.flatMap fromUtf8Lossy
    let whole := (LineStream.start st).readLines handle (splitLines text).1
    let cut := chunks.foldl (LineStream.readChunk handle) (.start st)
    (cut.ended = some (.error "response line exceeds 1 MB limit") ∧
        ∃ before chunk, before ++ [chunk] <+: chunks ∧
          MAX_LINE_BUFFER < bufLen (splitLines (before.flatMap fromUtf8Lossy)).2 + chunk.length) ∨
      cut.output = whole.output ∧ (cut.ended = none → cut = { whole with buf := (splitLines text).2 }) := by
  induction chunks using List.reverseRecOn with
  | nil => exact .inr ⟨rfl, fun _ => rfl⟩
  | append_singleton chunks chunk ih =>
    dsimp only at ih ⊢
    rw [List.foldl_concat, List.flatMap_append, List.flatMap_singleton, splitLines_append]
    generalize chunks.foldl (LineStream.readChunk handle) (.start st) = cut at ih ⊢
    have hover : ∀ text : List Char, chunks.flatMap fromUtf8Lossy = text →
        MAX_LINE_BUFFER < bufLen (splitLines text).2 + chunk.length →
        ∃ before c, before ++ [c] <+: chunks ++ [chunk] ∧
          MAX_LINE_BUFFER < bufLen (splitLines (before.flatMap fromUtf8Lossy)).2 + c.length :=
      fun text htext hlong => ⟨chunks, chunk, List.prefix_refl _, htext ▸ hlong⟩
    generalize chunks.flatMap fromUtf8Lossy = text at ih hover ⊢
    have hwhole : (LineStream.start st).readLines handle ((splitLines text).1 ++
        (splitLines ((splitLines text).2 ++ fromUtf8Lossy chunk)).1) =
        ((LineStream.start st).readLines handle (splitLines text).1).readLines handle
          (splitLines ((splitLines text).2 ++ fromUtf8Lossy chunk)).1 := by
      rw [LineStream.readLines, List.foldl_append]
      rfl
    rw [hwhole]
    generalize (LineStream.start st).readLines handle (splitLines text).1 = whole at ih ⊢
    rcases ih with ⟨hended, before, c, hbefore, hlong⟩ | ⟨hsame, hrest⟩
    · left
      have hstop : cut.readChunk handle chunk = cut := if_pos (by rw [hended]; rfl)
      rw [hstop]
      exact ⟨hended, before, c, hbefore.trans (List.prefix_append _ _), hlong⟩
    · obtain ⟨htokens, hended⟩ := Prod.mk.inj hsame
      cases hopen : cut.ended with
      | some result =>
        right
        have hstop : cut.readChunk handle chunk = cut := if_pos (by rw [hopen]; rfl)
        have hwholeStop : whole.ended.isSome := by rw [← hended, hopen]; rfl
        rw [hstop, readLines_ended hwholeStop]
        exact ⟨hsame, fun hnone => by rw [hopen] at hnone; cases hnone⟩
      | none =>
        have hcut := hrest hopen
        by_cases hlong : MAX_LINE_BUFFER < bufLen (splitLines text).2 + chunk.length
        · left
          have hread : cut.readChunk handle chunk =
              { cut with ended := some (.error "response line exceeds 1 MB limit") } := by
            rw [LineStream.readChunk, hopen, if_neg (by decide), hcut]
            exact if_pos hlong
          rw [hread]
          exact ⟨rfl, hover text rfl hlong⟩
        · right
          have hread : cut.readChunk handle chunk =
              { whole.readLines handle
                  (splitLines ((splitLines text).2 ++ fromUtf8Lossy chunk)).1 with
                buf := (splitLines ((splitLines text).2 ++ fromUtf8Lossy chunk)).2 } := by
            rw [LineStream.readChunk, hopen, if_neg (by decide), hcut, if_neg hlong]
            dsimp only
            rw [readLines_buf]
          rw [hread]
          exact ⟨rfl, fun _ => rfl⟩

theorem CleanCut.decode (h : CleanCut chunks) :
    chunks.flatMap fromUtf8Lossy = fromUtf8Lossy chunks.flatten := by
  induction chunks using List.reverseRecOn with
  | nil => rfl
  | append_singleton chunks chunk ih =>
    have hfront := ih fun before c hpre => h before c (hpre.trans (List.prefix_append ..))
    rw [List.flatMap_append, List.flatMap_singleton, hfront, List.flatten_append,
      List.flatten_singleton, (h chunks chunk (List.prefix_refl _)).1]

/-- After a clean cut the stream is where reading the decoded text at once leads. -/
theorem readChunks_eq (handle : LineHandler σ) (h : CleanCut chunks) (st : σ) :
    let text := fromUtf8Lossy chunks.flatten
    let whole := (LineStream.start st).readLines handle (splitLines text).1
    let cut := chunks.foldl (LineStream.readChunk handle) (.start st)
    cut.output = whole.output ∧ (cut.ended = none → cut = { whole with buf := (splitLines text).2 }) := by
  rcases readChunks_cases handle chunks st with ⟨-, before, chunk, hpre, hlong⟩ | hread
  · have hbefore : CleanCut before := fun front c hfront =>
      h front c (hfront.trans ((List.prefix_append ..).trans hpre))
    rw [hbefore.decode] at hlong
    exact absurd (h before chunk hpre).2 (Nat.not_le.mpr hlong)
  · rwa [h.decode] at hread

/-- A cut that leaves every character whole is clean when what it buffers fits. -/
theorem cleanCut_of_boundaries
    (hwhole : ∀ chunk ∈ chunks, ∀ b, chunk.head? = some b → isContinuation b = false)
    (hfits : ∀ before chunk, before ++ [chunk] <+: chunks →
      bufLen (splitLines (fromUtf8Lossy before.flatten)).2 + chunk.length ≤ MAX_LINE_BUFFER) :
    CleanCut chunks := by
  intro before chunk hpre
  have hmem : chunk ∈ chunks := hpre.subset (by simp)
  exact ⟨fromUtf8Lossy_append _ (hwhole chunk hmem), hfits before chunk hpre⟩

end Cuts

/-- Two clean cuts of a response lead to the same tokens and the same end. -/
theorem cut_independent {chunks chunks' : List (List UInt8)} (hbytes : chunks.flatten = chunks'.flatten)
    (h : CleanCut chunks) (h' : CleanCut chunks') :
    (∀ fromStr, streamGenerate fromStr chunks = streamGenerate fromStr chunks') ∧
      ∀ fromStr, streamChat fromStr chunks = streamChat fromStr chunks' := by
  refine ⟨fun fromStr => ?_, fun fromStr => ?_⟩
  · have hcut := (readChunks_eq (generateLine fromStr) h ()).1
    have hcut' := (readChunks_eq (generateLine fromStr) h' ()).1
    rw [streamGenerate, streamGenerate, hcut, hcut', hbytes]
  · have hcut := (readChunks_eq (chatLine fromStr) h false).1
    have hcut' := (readChunks_eq (chatLine fromStr) h' false).1
    rw [streamChat, streamChat, hcut, hcut', hbytes]

/-- `from_str` on a last line whose response has nothing to unescape. -/
def lastResponse (line : String) : Except String GenerateResponse :=
  .ok { response := String.ofList ((line.toList.drop 13).takeWhile (· ≠ '"')), done := true
        doneReason := none, promptEvalCount := none, evalCount := none }

/-- `{"response":"é` -/
def responseHead : List UInt8 :=
  [0x7B, 0x22, 0x72, 0x65, 0x73, 0x70, 0x6F, 0x6E, 0x73, 0x65, 0x22, 0x3A, 0x22, 0xC3, 0xA9]

/-- `","done":true}` and the end of the line. -/
def responseTail : List UInt8 :=
  [0x22, 0x2C, 0x22, 0x64, 0x6F, 0x6E, 0x65, 0x22, 0x3A, 0x74, 0x72, 0x75, 0x65, 0x7D, 0x0A]

theorem cut_after_character :
    streamGenerate lastResponse [responseHead, responseTail] =
      streamGenerate lastResponse [responseHead ++ responseTail] := by
  have hcut : CleanCut [responseHead, responseTail] := by
    apply cleanCut_of_boundaries
    · intro chunk hchunk b hb
      rcases List.mem_pair.mp hchunk with rfl | rfl
      · obtain rfl := Option.some.inj hb
        decide
      · obtain rfl := Option.some.inj hb
        decide
    · intro before chunk hpre
      have hmem : before ++ [chunk] ∈ [[], [responseHead], [responseHead, responseTail]] :=
        (List.mem_inits _ _).mpr hpre
      rcases before with _ | ⟨first, _ | ⟨second, before⟩⟩
      · obtain rfl : chunk = responseHead := by simpa using hmem
        decide
      · obtain ⟨rfl, rfl⟩ : first = responseHead ∧ chunk = responseTail := by simpa using hmem
        decide
      · simp at hmem
  have hwhole : CleanCut [responseHead ++ responseTail] := by
    apply cleanCut_of_boundaries
    · intro chunk hchunk b hb
      obtain rfl := List.mem_singleton.mp hchunk
      obtain rfl := Option.some.inj hb
      decide
    · intro before chunk hpre
      have hmem : before ++ [chunk] ∈ [[], [responseHead ++ responseTail]] :=
        (List.mem_inits _ _).mpr hpre
      rcases before with _ | ⟨first, before⟩
      · obtain rfl : chunk = responseHead ++ responseTail := by simpa using hmem
        decide
      · simp at hmem
  exact (cut_independent (by rfl) hcut hwhole).1 lastResponse

/-- A cut inside `é` makes two U+FFFD of it. -/
theorem cut_inside_character :
    ∃ chunks chunks' : List (List UInt8), chunks.flatten = chunks'.flatten ∧
      (∀ chunk ∈ chunks ++ chunks', chunk.length < 31) ∧
      ∃ fromStr, streamGenerate fromStr chunks ≠ streamGenerate fromStr chunks' := by
  refine ⟨[responseHead ++ responseTail],
    [responseHead.take 14, responseHead.drop 14 ++ responseTail], rfl, by decide, lastResponse, ?_⟩
  intro hsame
  have hvalues : [String.ofList ['é']] = [String.ofList ['\uFFFD', '\uFFFD']] :=
    congrArg (fun output => output.1.map StreamToken.value) hsame
  revert hvalues
  decide

end Veronex
