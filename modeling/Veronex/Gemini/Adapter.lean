import Veronex.Agent.NodeExporter
import Veronex.Mcp.ForcedJson
import Veronex.Ollama.Stream

/-! # The event stream of Gemini

`stream_tokens` of `infrastructure/outbound/gemini/adapter.rs`, from the bytes of the response to the
tokens. `from_str` of `serde_json` is a parameter; `none` is an error of it.

`stream_ends_once`: how any stream ends.
`events_streamed`: which tokens the events of a response become, however it is cut into chunks.
-/
namespace Veronex.Gemini
set_option autoImplicit false
open Concurrency

/-! ## Responses -/

structure CandidatePart where
  text : Option String
  functionCall : Option Json

/-- `content` are the parts of the candidate's content. -/
structure Candidate where
  content : Option (List CandidatePart)
  finishReason : Option String

structure UsageMetadata where
  promptTokenCount : Option ℕ
  candidatesTokenCount : Option ℕ
  cachedContentTokenCount : Option ℕ

structure GenerateResponse where
  candidates : List Candidate
  usageMetadata : Option UsageMetadata

inductive FinishReason
  | stop
  | length
  | cancelled
  | error

def FinishReason.asStr : FinishReason → String
  | stop => "stop"
  | length => "length"
  | cancelled => "cancelled"
  | error => "error"

/-- The parts of the first candidate. -/
def firstParts (candidates : List Candidate) : List CandidatePart :=
  (candidates.head?.bind Candidate.content).getD []

def extractText (candidates : List Candidate) : String :=
  String.join ((firstParts candidates).filterMap CandidatePart.text)

/-- Gemini's `{name, args}` as Ollama's `{function: {name, arguments}}`. -/
def normaliseCall (fc : Json) : Json :=
  .obj [("function", .obj [("name", .str (((fc.get "name").bind Json.asStr).getD "")),
    ("arguments", (fc.get "args").getD .null)])]

def extractFunctionCalls (candidates : List Candidate) : Option Json :=
  let calls := ((firstParts candidates).filterMap CandidatePart.functionCall).map normaliseCall
  if calls.isEmpty then none else some (.arr calls)

def finishReasonOf (candidates : List Candidate) : Option String :=
  candidates.head?.bind Candidate.finishReason

def isDone (candidates : List Candidate) : Bool := (finishReasonOf candidates).any fun r => !r.isEmpty

structure Usage where
  prompt : Option ℕ
  completion : Option ℕ
  cached : Option ℕ

def extractUsage (resp : GenerateResponse) : Usage :=
  { prompt := resp.usageMetadata.bind UsageMetadata.promptTokenCount
    completion := resp.usageMetadata.bind UsageMetadata.candidatesTokenCount
    cached := (resp.usageMetadata.bind UsageMetadata.cachedContentTokenCount).filter fun v => 0 < v }

def mapFinishReason (candidates : List Candidate) : FinishReason :=
  match (finishReasonOf candidates).getD "STOP" with
  | "MAX_TOKENS" => .length
  | "CANCELLED" => .cancelled
  | "ERROR" | "SAFETY" | "RECITATION" | "OTHER" => .error
  | _ => .stop

/-! ## The stream -/

def callTokens (resp : GenerateResponse) : List StreamToken :=
  match extractFunctionCalls resp.candidates with
  | some calls => [{ StreamToken.text "" with toolCalls := some calls }]
  | none => []

/-- The token that ends the stream with a response. -/
def finalToken (resp : GenerateResponse) : StreamToken :=
  let usage := extractUsage resp
  { value := extractText resp.candidates, isFinal := true, promptTokens := usage.prompt
    completionTokens := usage.completion, cachedTokens := usage.cached, toolCalls := none
    finishReason := some (mapFinishReason resp.candidates).asStr, isPhaseBoundary := false }

def responseTokens (resp : GenerateResponse) : List StreamToken :=
  callTokens resp ++
    [if isDone resp.candidates then finalToken resp else StreamToken.text (extractText resp.candidates)]

/-- `data:` -/
def dataPrefix : List Char := ['d', 'a', 't', 'a', ':']

/-- What follows `data:` in a line without outer blanks. -/
def dataOf (line : List Char) : Option (List Char) :=
  if dataPrefix <+: line then some (trim (line.drop 5)) else none

section Stream
variable (fromStr : String → Option GenerateResponse)

/-- The response in a line; none in a blank line, a comment, another field or an unreadable event. -/
def eventOf (line : List Char) : Option GenerateResponse :=
  (dataOf line).bind fun json => if json = [] then none else fromStr (String.ofList json)

def sseLine : LineHandler Unit :=
  fun _ line =>
    match eventOf fromStr line.toList with
    | none => ([], (), none)
    | some resp => (responseTokens resp, (), if isDone resp.candidates then some (.ok ()) else none)

/-- What is done with the rest of the buffer at the end of the body. -/
def flush (rest : List Char) : StreamToken :=
  match eventOf fromStr (trim rest) with
  | some resp => finalToken resp
  | none => StreamToken.done

/-- The body of a successful response: its chunks, and the error it breaks off with. -/
structure Body where
  chunks : List (List UInt8)
  broken : Option String

def streamTokens (apiKey : String) (response : Except String Body) :
    List StreamToken × Except String Unit :=
  if apiKey.isEmpty then ([], .error "Gemini provider has no API key configured")
  else match response with
    | .error e => ([], .error s!"Gemini API error: {e}")
    | .ok body =>
      let s := body.chunks.foldl (LineStream.readChunk (sseLine fromStr)) (.start ())
      match s.ended with
      | some result => (s.tokens, result)
      | none => match body.broken with
        | some e => (s.tokens, .error e)
        | none => (s.tokens ++ [flush fromStr s.buf], .ok ())

end Stream

/-! ## How a stream ends -/

section Ends
variable {fromStr : String → Option GenerateResponse}

/-- One final token, the last one. -/
def EndsOnce (tokens : List StreamToken) : Prop :=
  ∃ front last, tokens = front ++ [last] ∧ last.isFinal = true ∧ ∀ t ∈ front, t.isFinal = false

/-- The tokens so far have a final one exactly if the stream has ended well, and then it is the
last. -/
structure Ending (s : LineStream Unit) : Prop where
  final : s.ended = some (.ok ()) → EndsOnce s.tokens
  open_ : s.ended ≠ some (.ok ()) → ∀ t ∈ s.tokens, t.isFinal = false

theorem callTokens_not_final {resp : GenerateResponse} {t : StreamToken} (h : t ∈ callTokens resp) :
    t.isFinal = false := by
  unfold callTokens at h
  split at h
  · rw [List.mem_singleton.mp h]
    rfl
  · cases h

theorem responseTokens_done {resp : GenerateResponse} (h : isDone resp.candidates = true) :
    responseTokens resp = callTokens resp ++ [finalToken resp] := by
  rw [responseTokens, if_pos h]

theorem responseTokens_open {resp : GenerateResponse} (h : isDone resp.candidates = false) {t : StreamToken}
    (ht : t ∈ responseTokens resp) : t.isFinal = false := by
  rw [responseTokens, if_neg (by rw [h]; decide)] at ht
  rcases List.mem_append.mp ht with ht | ht
  · exact callTokens_not_final ht
  · rw [List.mem_singleton.mp ht]
    rfl

theorem EndsOnce.append {front tokens : List StreamToken} (hfront : ∀ t ∈ front, t.isFinal = false)
    (h : EndsOnce tokens) : EndsOnce (front ++ tokens) := by
  obtain ⟨init, last, rfl, hlast, hinit⟩ := h
  refine ⟨front ++ init, last, (List.append_assoc ..).symm, hlast, fun t ht => ?_⟩
  rcases List.mem_append.mp ht with ht | ht
  · exact hfront t ht
  · exact hinit t ht

theorem EndsOnce.responseTokens {resp : GenerateResponse} (h : isDone resp.candidates = true) :
    EndsOnce (responseTokens resp) := by
  rw [responseTokens_done h]
  exact ⟨callTokens resp, finalToken resp, rfl, rfl, fun t ht => callTokens_not_final ht⟩

theorem flush_final (rest : List Char) : (flush fromStr rest).isFinal = true := by
  unfold flush
  split <;> rfl

theorem Ending.start : Ending (LineStream.start ()) := by
  constructor
  · intro h
    cases h
  · intro _ t ht
    cases ht

theorem Ending.readLine {s : LineStream Unit} (h : Ending s) (line : List Char) :
    Ending (s.readLine (sseLine fromStr) line) := by
  unfold LineStream.readLine
  dsimp only
  split
  · exact h
  · next hnone =>
    split
    · exact h
    · have hended : s.ended ≠ some (.ok ()) := by
        intro heq
        rw [heq] at hnone
        exact hnone rfl
      have hopen := h.open_ hended
      unfold sseLine
      split
      · constructor
        · intro hok
          cases hok
        · intro _ t ht
          simp only [List.append_nil] at ht
          exact hopen t ht
      · next resp _ =>
        cases hdone : isDone resp.candidates with
        | true =>
          constructor
          · intro _
            exact EndsOnce.append hopen (EndsOnce.responseTokens hdone)
          · intro hne
            exact absurd rfl hne
        | false =>
          constructor
          · intro hok
            cases hok
          · intro _ t ht
            rcases List.mem_append.mp ht with ht | ht
            · exact hopen t ht
            · exact responseTokens_open hdone ht

theorem Ending.readLines (fromStr : String → Option GenerateResponse) {s : LineStream Unit}
    (h : Ending s) (lines : List (List Char)) :
    Ending (s.readLines (sseLine fromStr) lines) := by
  induction lines generalizing s with
  | nil => exact h
  | cons line lines ih => exact ih (h.readLine line)

theorem Ending.readChunk {s : LineStream Unit} (h : Ending s) (bytes : List UInt8) :
    Ending (s.readChunk (sseLine fromStr) bytes) := by
  unfold LineStream.readChunk
  split
  · exact h
  · next hnone =>
    split
    · constructor
      · intro heq
        cases heq
      · intro _ t ht
        refine h.open_ (fun heq => hnone ?_) t ht
        rw [heq]
        rfl
    · have hlines := h.readLines fromStr (splitLines (s.buf ++ fromUtf8Lossy bytes)).1
      exact ⟨hlines.final, hlines.open_⟩

theorem Ending.readChunks (fromStr : String → Option GenerateResponse) (chunks : List (List UInt8)) :
    Ending (chunks.foldl (LineStream.readChunk (sseLine fromStr)) (.start ())) := by
  induction chunks using List.reverseRecOn with
  | nil => exact Ending.start
  | append_singleton chunks chunk ih =>
    rw [List.foldl_concat]
    exact ih.readChunk chunk

end Ends

/-- A stream that ends well has one final token and it is the last; a stream that ends with an error
has none. -/
theorem stream_ends_once (fromStr : String → Option GenerateResponse) (apiKey : String)
    (response : Except String Body) :
    ((streamTokens fromStr apiKey response).2 = .ok () →
        EndsOnce (streamTokens fromStr apiKey response).1) ∧
      ∀ e, (streamTokens fromStr apiKey response).2 = .error e →
        ∀ t ∈ (streamTokens fromStr apiKey response).1, t.isFinal = false := by
  unfold streamTokens
  split
  · exact ⟨(fun h => by cases h), fun _ _ t ht => by cases ht⟩
  · split
    · exact ⟨(fun h => by cases h), fun _ _ t ht => by cases ht⟩
    · next body =>
      have hend := Ending.readChunks fromStr body.chunks
      dsimp only
      split
      · next result hresult =>
        refine ⟨fun hok => hend.final ?_, fun e he => hend.open_ ?_⟩
        · have hok' : result = .ok () := hok
          rw [hresult, hok']
        · have he' : result = .error e := he
          rw [hresult, he']
          intro heq
          cases heq
      · next hnone =>
        have hopen := hend.open_ (by rw [hnone]; intro heq; cases heq)
        split
        · exact ⟨(fun h => by cases h), fun _ _ => hopen⟩
        · refine ⟨fun _ => ?_, fun e he => by cases he⟩
          exact ⟨_, _, rfl, flush_final _, hopen⟩

/-! ## The events of a response -/

/-- The token a body ends with that has no event that is done: of the event that its last line, which
no line feed ends, holds. -/
def closing : Option GenerateResponse → StreamToken
  | some resp => finalToken resp
  | none => StreamToken.done

/-- The tokens of the events: those up to the first one that is done, or all of them and the closing
one. -/
def answer (last : Option GenerateResponse) : List GenerateResponse → List StreamToken
  | [] => [closing last]
  | resp :: rest => responseTokens resp ++ if isDone resp.candidates then [] else answer last rest

/-- The JSON text of an event: one line without outer blanks. -/
structure EventText where
  json : List Char
  nonempty : json ≠ []
  oneLine : '\n' ∉ json
  head : ∀ c ∈ json.head?, isWhitespace c = false
  last : ∀ c ∈ json.getLast?, isWhitespace c = false

def EventText.line (e : EventText) : List Char := dataPrefix ++ ' ' :: e.json

/-- Lines that the stream passes over: blank lines, comments, other fields. -/
def Skipped (line : List Char) : Prop := '\n' ∉ line ∧ ¬ dataPrefix <+: trim line

/-- A part of the body: an event, which a carriage return may end, or a line that is passed over. -/
inductive SsePart
  | event (e : EventText) (tail : List Char) (htail : ∀ c ∈ tail, c = '\r')
  | other (line : List Char) (h : Skipped line)

/-- Without its line feed. -/
def SsePart.line : SsePart → List Char
  | .event e tail _ => e.line ++ tail
  | .other line _ => line

def SsePart.response (fromStr : String → Option GenerateResponse) : SsePart → Option GenerateResponse
  | .event e _ _ => fromStr (String.ofList e.json)
  | .other _ _ => none

section Events
variable {fromStr : String → Option GenerateResponse}

theorem splitLines_line {line rest : List Char} (h : '\n' ∉ line) :
    splitLines (line ++ '\n' :: rest) = (line :: (splitLines rest).1, (splitLines rest).2) := by
  induction line with
  | nil => simp [splitLines]
  | cons c line ih =>
    rw [List.mem_cons, not_or] at h
    have hc : c ≠ '\n' := fun heq => h.1 heq.symm
    rw [List.cons_append, splitLines, ih h.2]
    simp [hc]

theorem splitLines_open {rest : List Char} (h : '\n' ∉ rest) : splitLines rest = ([], rest) := by
  induction rest with
  | nil => rfl
  | cons c rest ih =>
    rw [List.mem_cons, not_or] at h
    have hc : c ≠ '\n' := fun heq => h.1 heq.symm
    rw [splitLines, ih h.2]
    simp [hc]

theorem EventText.line_oneLine (e : EventText) : '\n' ∉ e.line := by
  rw [EventText.line, List.mem_append, List.mem_cons, not_or, not_or]
  exact ⟨by decide, by decide, e.oneLine⟩

theorem SsePart.oneLine (part : SsePart) : '\n' ∉ part.line := by
  cases part with
  | event e tail htail =>
    rw [SsePart.line, List.mem_append, not_or]
    refine ⟨e.line_oneLine, fun hmem => ?_⟩
    exact absurd (htail _ hmem) (by decide)
  | other line h => exact h.1

theorem EventText.trim_json (e : EventText) : trim (' ' :: e.json) = e.json := by
  have hblank : ∀ c ∈ [' '], isWhitespace c = true := List.forall_mem_singleton.mpr (by decide)
  have hblanks := @Agent.NodeExporter.trim_blanks [' '] e.json [] hblank (by simp) e.head e.last
  rwa [List.append_nil] at hblanks

theorem EventText.trim_line (e : EventText) (tail : List Char) (htail : ∀ c ∈ tail, c = '\r') :
    trim (e.line ++ tail) = e.line := by
  have hlast : ∀ c ∈ e.line.getLast?, isWhitespace c = false := by
    intro c hc
    have hline : e.line = (dataPrefix ++ [' ']) ++ e.json := (List.append_cons ..)
    rw [hline, List.getLast?_append_of_ne_nil _ e.nonempty] at hc
    exact e.last c hc
  have hblank : ∀ c ∈ tail, isWhitespace c = true := by
    intro c hc
    rw [htail c hc]
    decide
  have hhead : ∀ c ∈ e.line.head?, isWhitespace c = false := by
    intro c hc
    cases hc
    decide
  exact @Agent.NodeExporter.trim_blanks [] e.line tail (by simp) hblank hhead hlast

theorem eventOf_line (e : EventText) : eventOf fromStr e.line = fromStr (String.ofList e.json) := by
  have hprefix : dataPrefix <+: e.line := ⟨' ' :: e.json, rfl⟩
  have hdrop : e.line.drop 5 = ' ' :: e.json := rfl
  rw [eventOf, dataOf, if_pos hprefix, hdrop, e.trim_json]
  exact if_neg e.nonempty

theorem eventOf_part (part : SsePart) :
    eventOf fromStr (trim part.line) = part.response fromStr := by
  cases part with
  | event e tail htail =>
    rw [SsePart.line, e.trim_line tail htail]
    exact eventOf_line e
  | other line h =>
    rw [SsePart.line, eventOf, dataOf, if_neg h.2]
    rfl

/-- The lines of a body, and what is left of it. -/
theorem splitLines_parts (parts : List SsePart) {rest : List Char} (h : '\n' ∉ rest) :
    splitLines (parts.flatMap (fun part => part.line ++ ['\n']) ++ rest) =
      (parts.map SsePart.line, rest) := by
  induction parts with
  | nil => exact splitLines_open h
  | cons part parts ih =>
    have hsplit : (part :: parts).flatMap (fun part => part.line ++ ['\n']) ++ rest =
        part.line ++ '\n' :: (parts.flatMap (fun part => part.line ++ ['\n']) ++ rest) := by
      simp
    rw [hsplit, splitLines_line part.oneLine, ih]
    rfl

/-- What reading one line does to an open stream. -/
theorem readLine_open {s : LineStream Unit} (hs : s.ended = none) (line : List Char) :
    s.readLine (sseLine fromStr) line = match eventOf fromStr (trim line) with
      | none => s
      | some resp => { s with
          tokens := s.tokens ++ responseTokens resp
          ended := if isDone resp.candidates then some (.ok ()) else none } := by
  unfold LineStream.readLine
  rw [hs]
  dsimp only
  rw [if_neg (by decide)]
  split
  · next hnil =>
    rw [hnil]
    rfl
  · simp only [sseLine, String.toList_ofList]
    cases eventOf fromStr (trim line) with
    | none =>
      simp only [List.append_nil]
      rw [← hs]
    | some resp => rfl

/-- What a stream gives that has come to `s`. -/
def outcome (fromStr : String → Option GenerateResponse) (s : LineStream Unit) (rest : List Char) :
    List StreamToken × Except String Unit :=
  match s.ended with
  | some result => (s.tokens, result)
  | none => (s.tokens ++ [flush fromStr rest], .ok ())

/-- Reading the lines of the parts gives the answer to their events. -/
theorem readLines_parts (parts : List SsePart) {s : LineStream Unit} (hs : s.ended = none)
    {rest : List Char} {last : Option GenerateResponse} (hlast : flush fromStr rest = closing last) :
    outcome fromStr (s.readLines (sseLine fromStr) (parts.map SsePart.line)) rest =
      (s.tokens ++ answer last (parts.filterMap (SsePart.response fromStr)), .ok ()) := by
  induction parts generalizing s with
  | nil =>
    simp only [List.map_nil, LineStream.readLines, List.foldl_nil, outcome, hs]
    rw [hlast]
    rfl
  | cons part parts ih =>
    have hread : s.readLines (sseLine fromStr) ((part :: parts).map SsePart.line) =
        (s.readLine (sseLine fromStr) part.line).readLines (sseLine fromStr)
          (parts.map SsePart.line) := rfl
    rw [hread, readLine_open hs, eventOf_part]
    cases hresp : part.response fromStr with
    | none =>
      rw [List.filterMap_cons_none hresp]
      exact ih hs
    | some resp =>
      rw [List.filterMap_cons_some hresp]
      dsimp only
      cases hdone : isDone resp.candidates with
      | true =>
        rw [if_pos rfl, readLines_ended (by rfl)]
        simp [outcome, answer, hdone]
      | false =>
        rw [if_neg (by decide), ih rfl]
        simp [answer, hdone]

theorem flush_line (e : EventText) : flush fromStr e.line = closing (fromStr (String.ofList e.json)) := by
  have htrim : trim e.line = e.line := by
    have hline := e.trim_line [] (by simp)
    rwa [List.append_nil] at hline
  rw [flush, htrim, eventOf_line]
  cases fromStr (String.ofList e.json) <;> rfl

end Events

/-- However the body is cut into chunks that leave its characters whole and fit into the buffer: the
stream gives the tokens of its events up to the first one that is done; without one, all of them and
a final token for what no line feed ended. -/
theorem events_streamed (fromStr : String → Option GenerateResponse) {apiKey : String}
    (hkey : apiKey.isEmpty = false) {chunks : List (List UInt8)} (hcut : CleanCut chunks)
    (parts : List SsePart) (last : Option EventText)
    (htext : fromUtf8Lossy chunks.flatten =
      parts.flatMap (fun part => part.line ++ ['\n']) ++ last.elim [] EventText.line) :
    streamTokens fromStr apiKey (.ok { chunks, broken := none }) =
      (answer (last.bind fun e => fromStr (String.ofList e.json))
        (parts.filterMap (SsePart.response fromStr)), .ok ()) := by
  have hrest : '\n' ∉ last.elim [] EventText.line := by
    cases last with
    | none => exact List.not_mem_nil
    | some e => exact e.line_oneLine
  have hflush : flush fromStr (last.elim [] EventText.line) =
      closing (last.bind fun e => fromStr (String.ofList e.json)) := by
    cases last with
    | none => rfl
    | some e => exact flush_line e
  have hread := readChunks_eq (sseLine fromStr) hcut ()
  dsimp only at hread
  rw [htext, splitLines_parts parts hrest] at hread
  obtain ⟨houtput, hopen⟩ := hread
  have hparts := readLines_parts parts (s := LineStream.start ()) rfl hflush
  have hstream : streamTokens fromStr apiKey (.ok { chunks, broken := none }) =
      outcome fromStr ((LineStream.start ()).readLines (sseLine fromStr) (parts.map SsePart.line))
        (last.elim [] EventText.line) := by
    obtain ⟨htokens, hended⟩ := Prod.mk.inj houtput
    rw [streamTokens, if_neg (by rw [hkey]; decide)]
    dsimp only
    rw [outcome]
    cases hend : (chunks.foldl (LineStream.readChunk (sseLine fromStr)) (.start ())).ended with
    | some result =>
      rw [hend] at hended
      rw [← hended, htokens]
    | none =>
      rw [hend] at hended
      rw [← hended]
      dsimp only
      rw [hopen hend]
  rw [hstream, hparts]
  rfl

/-- `{"t":1}` and `{"t":2}`, as the sample parser reads them. -/
def sampleResponse (text : String) : Option GenerateResponse :=
  match text.toList with
  | ['{', '"', 't', '"', ':', c, '}'] => some
    { candidates := [{ content := some [{ text := some (String.ofList [c]), functionCall := none }]
                       finishReason := if c = '2' then some "MAX_TOKENS" else none }]
      usageMetadata := none }
  | _ => none

def sampleEvent (c : Char) (h : c = '1' ∨ c = '2') : EventText where
  json := ['{', '"', 't', '"', ':', c, '}']
  nonempty := List.cons_ne_nil _ _
  oneLine := by rcases h with rfl | rfl <;> decide
  head := by
    intro d hd
    cases hd
    decide
  last := by
    intro d hd
    have hlast : d = '}' := (Option.some.inj hd).symm
    rw [hlast]
    decide

/-- `data: {"t` -/
def chunkOne : List UInt8 := [0x64, 0x61, 0x74, 0x61, 0x3A, 0x20, 0x7B, 0x22, 0x74]

/-- `":1}`, the end of its line, a comment and `data: {"t":2}`. -/
def chunkTwo : List UInt8 :=
  [0x22, 0x3A, 0x31, 0x7D, 0x0D, 0x0A, 0x3A, 0x0A, 0x64, 0x61, 0x74, 0x61, 0x3A, 0x20, 0x7B, 0x22,
    0x74, 0x22, 0x3A, 0x32, 0x7D]

def sampleParts : List SsePart :=
  [SsePart.event (sampleEvent '1' (Or.inl rfl)) ['\r'] (List.forall_mem_singleton.mpr rfl),
    SsePart.other [':'] ⟨by decide, by decide⟩]

/-- Two events with a comment between them; the second is the last line, which nothing ends. -/
theorem two_events_streamed :
    (streamTokens sampleResponse "key" (.ok { chunks := [chunkOne, chunkTwo], broken := none })).1.map
      StreamToken.value = ["1", "2"] := by
  have hcut : CleanCut [chunkOne, chunkTwo] := by
    apply cleanCut_of_boundaries
    · intro chunk hchunk b hb
      rcases List.mem_pair.mp hchunk with rfl | rfl
      · obtain rfl := Option.some.inj hb
        decide
      · obtain rfl := Option.some.inj hb
        decide
    · intro before chunk hpre
      have hmem : before ++ [chunk] ∈ [[], [chunkOne], [chunkOne, chunkTwo]] :=
        (List.mem_inits _ _).mpr hpre
      rcases before with _ | ⟨first, _ | ⟨second, before⟩⟩
      · obtain rfl : chunk = chunkOne := by simpa using hmem
        decide
      · obtain ⟨rfl, rfl⟩ : first = chunkOne ∧ chunk = chunkTwo := by simpa using hmem
        decide
      · simp at hmem
  have hkey : "key".isEmpty = false := by decide
  rw [events_streamed sampleResponse hkey hcut sampleParts (some (sampleEvent '2' (Or.inr rfl)))
    (by decide +kernel)]
  decide +kernel

end Veronex.Gemini
