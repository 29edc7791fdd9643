import Mathlib
import Veronex.Http.ChatCompletion

/-! # The two forms of a Gemini answer

`stream_generate` and `generate_content` of `infrastructure/inbound/http/gemini_compat_handlers.rs`,
from the tokens of the job.

`same_gemini_answer_iff`: for which jobs the two deliver the same, with every tool call.
-/
namespace Veronex
set_option autoImplicit false

/-! ## Responses -/

inductive GeminiResponsePart
  | text (text : String)

def GeminiResponsePart.textOf : GeminiResponsePart → String
  | text t => t

structure GeminiUsageMetadata where
  promptTokenCount : ℕ
  candidatesTokenCount : ℕ
  deriving DecidableEq

structure GeminiCandidate where
  parts : List GeminiResponsePart
  finishReason : Option String

/-- A response has one candidate. -/
structure GeminiResponse where
  candidate : GeminiCandidate
  usageMetadata : Option GeminiUsageMetadata

def toGeminiFinishReason (reason : Option String) : String :=
  let reason := reason.getD "stop"
  if reason = "length" then "MAX_TOKENS"
  else if reason = "cancelled" then "CANCELLED"
  else if reason = "error" then "OTHER"
  else "STOP"

/-! ## Serialization -/

def GeminiResponsePart.toJson : GeminiResponsePart → Json
  | text t => .obj [("text", .str t)]

def GeminiUsageMetadata.toJson (u : GeminiUsageMetadata) : Json :=
  .obj [("promptTokenCount", .num (toString u.promptTokenCount)),
    ("candidatesTokenCount", .num (toString u.candidatesTokenCount))]

def GeminiCandidate.toJson (c : GeminiCandidate) : Json :=
  .obj ([("content", .obj [("parts", .arr (c.parts.map GeminiResponsePart.toJson)),
      ("role", .str "model")]), ("index", .num "0")] ++
    (c.finishReason.map fun reason => ("finishReason", Json.str reason)).toList)

def GeminiResponse.toJson (r : GeminiResponse) : Json :=
  .obj (("candidates", .arr [r.candidate.toJson]) ::
    (r.usageMetadata.map fun usage => ("usageMetadata", usage.toJson)).toList)

/-! ## Both handlers -/

namespace StreamToken

def geminiUsage (t : StreamToken) : GeminiUsageMetadata where
  promptTokenCount := t.promptTokens.getD 0
  candidatesTokenCount := t.completionTokens.getD 0

/-- The closure of `stream_generate`, for a token. -/
def geminiEvent (t : StreamToken) : GeminiResponse :=
  if t.isFinal then
    { candidate := { parts := [], finishReason := some (toGeminiFinishReason t.finishReason) }
      usageMetadata := some t.geminiUsage }
  else
    { candidate := { parts := [.text t.value], finishReason := none }, usageMetadata := none }

end StreamToken

/-- The data of the events of `stream_generate`. -/
def GeminiCompat.streamGenerate (results : List (Except String StreamToken)) : List Json :=
  results.map fun
    | .ok t => t.geminiEvent.toJson
    | .error e => .obj [("error", .obj [("message", .str (sanitizeSseError e))])]

/-- The variables of `generate_content`. -/
structure GeminiCollected where
  fullText : String
  usage : GeminiUsageMetadata
  finishReason : String

def collectGemini (c : GeminiCollected) :
    List (Except String StreamToken) → Except String GeminiCollected
  | [] => .ok c
  | .error e :: _ => .error (sanitizeSseError e)
  | .ok t :: results =>
    if t.isFinal then
      .ok { c with usage := t.geminiUsage, finishReason := toGeminiFinishReason t.finishReason }
    else collectGemini { c with fullText := c.fullText ++ t.value } results

/-- The error is that of an internal error. -/
def generateContent (results : List (Except String StreamToken)) : Except String Json :=
  (collectGemini ⟨"", ⟨0, 0⟩, "STOP"⟩ results).map fun c =>
    GeminiResponse.toJson {
      candidate := { parts := [.text c.fullText], finishReason := some c.finishReason }
      usageMetadata := some c.usage }

/-! ## What a client reads -/

/-- The parts of the first candidate. -/
def geminiParts (r : Json) : List Json :=
  (((((r.get "candidates").elim [] Texts.items).head?.bind (Json.get · "content")).bind
    (Json.get · "parts")).elim [] Texts.items)

structure GeminiContentRead where
  text : String
  functionCalls : List Json
  finishReason : Option String
  usage : Option Json

namespace GeminiContentRead

def empty : GeminiContentRead :=
  { text := "", functionCalls := [], finishReason := none, usage := none }

/-- A client of the stream goes on with what the responses before have. -/
def read (g : GeminiContentRead) (r : Json) : GeminiContentRead where
  text := g.text ++
    String.join ((geminiParts r).filterMap fun p => (p.get "text").bind Json.asStr)
  functionCalls := g.functionCalls ++ (geminiParts r).filterMap (Json.get · "functionCall")
  finishReason :=
    (((((r.get "candidates").elim [] Texts.items).head?.bind (Json.get · "finishReason")).bind
      Json.asStr).or g.finishReason)
  usage := (r.get "usageMetadata").or g.usage

def readAll (rs : List Json) : GeminiContentRead := rs.foldl read empty

end GeminiContentRead

/-- A tool call of a token as the value of a `functionCall`. -/
def functionCallOf (c : Json) : Json :=
  let f := (c.get "function").getD .null
  .obj [("name", (f.get "name").getD .null), ("args", (f.get "arguments").getD .null)]

/-- What a job has put in its log: a job that was cancelled has no final token. -/
structure TokenLog where
  body : List StreamToken
  last : Option StreamToken
  body_goes_on : ∀ t ∈ body, t.isFinal = false
  last_isFinal : ∀ t ∈ last, t.isFinal = true

namespace TokenLog

def tokens (l : TokenLog) : List StreamToken := l.body ++ l.last.toList

def results (l : TokenLog) : List (Except String StreamToken) := l.tokens.map .ok

/-- The function calls of the log. -/
def functionCalls (l : TokenLog) : List Json :=
  (l.tokens.flatMap StreamToken.toolItems).map functionCallOf

end TokenLog

/-- The streamed and the collected answer have the same text, reason and usage, and each has every
tool call once. -/
structure SameGeminiAnswer (l : TokenLog) (streamed collected : GeminiContentRead) : Prop where
  text : streamed.text = collected.text
  finishReason : streamed.finishReason = collected.finishReason
  usage : streamed.usage = collected.usage
  streamedCalls : streamed.functionCalls = l.functionCalls
  collectedCalls : collected.functionCalls = l.functionCalls

/-! ## Both folds -/

section Folds
variable {t : StreamToken} {g : GeminiContentRead} {body : List StreamToken}

theorem parts_read (parts : List GeminiResponsePart) :
    (parts.map GeminiResponsePart.toJson).filterMap (fun p => (p.get "text").bind Json.asStr) =
      parts.map GeminiResponsePart.textOf := by
  induction parts with
  | nil => rfl
  | cons p parts ih =>
    cases p with
    | text t => simpa [GeminiResponsePart.toJson, Json.get, Json.asStr, GeminiResponsePart.textOf] using ih

/-- No part has a function call. -/
theorem parts_calls (parts : List GeminiResponsePart) :
    (parts.map GeminiResponsePart.toJson).filterMap (Json.get · "functionCall") = [] := by
  rw [List.filterMap_eq_nil_iff]
  intro p hp
  obtain ⟨part, -, rfl⟩ := List.mem_map.mp hp
  cases part with
  | text t => simp [GeminiResponsePart.toJson, Json.get, List.lookup]

theorem read_response (r : GeminiResponse) : g.read r.toJson = {
    text := g.text ++ String.join (r.candidate.parts.map GeminiResponsePart.textOf)
    functionCalls := g.functionCalls
    finishReason := r.candidate.finishReason.or g.finishReason
    usage := (r.usageMetadata.map GeminiUsageMetadata.toJson).or g.usage } := by
  have hparts : geminiParts r.toJson = r.candidate.parts.map GeminiResponsePart.toJson := by
    simp [geminiParts, GeminiResponse.toJson, GeminiCandidate.toJson, Json.get, List.lookup,
      Texts.items]
  have hreason : ((((r.toJson.get "candidates").elim [] Texts.items).head?.bind
      (Json.get · "finishReason")).bind Json.asStr) = r.candidate.finishReason := by
    cases hr : r.candidate.finishReason with
    | none => simp [GeminiResponse.toJson, GeminiCandidate.toJson, Json.get, List.lookup,
        Texts.items, hr]
    | some reason => simp [GeminiResponse.toJson, GeminiCandidate.toJson, Json.get, List.lookup,
        Texts.items, Json.asStr, hr]
  have husage : r.toJson.get "usageMetadata" = r.usageMetadata.map GeminiUsageMetadata.toJson := by
    cases hu : r.usageMetadata with
    | none => simp [GeminiResponse.toJson, Json.get, List.lookup, hu]
    | some usage => simp [GeminiResponse.toJson, Json.get, List.lookup, hu]
  rw [GeminiContentRead.read, hparts, parts_read, parts_calls, hreason, husage, List.append_nil]

theorem contentRead_body (ht : t.isFinal = false) :
    g.read t.geminiEvent.toJson = { g with text := g.text ++ t.value } := by
  rw [StreamToken.geminiEvent, ht, read_response]
  simp [GeminiResponsePart.textOf]

theorem read_last (ht : t.isFinal = true) : g.read t.geminiEvent.toJson = { g with
    finishReason := some (toGeminiFinishReason t.finishReason)
    usage := some t.geminiUsage.toJson } := by
  rw [StreamToken.geminiEvent, if_pos ht, read_response]
  simp

theorem foldl_read_body (hbody : ∀ t ∈ body, t.isFinal = false) (g : GeminiContentRead) :
    (body.map fun t => t.geminiEvent.toJson).foldl GeminiContentRead.read g =
      { g with text := g.text ++ String.join (body.map StreamToken.value) } := by
  induction body generalizing g with
  | nil => simp
  | cons t body ih =>
    obtain ⟨ht, hbody⟩ := List.forall_mem_cons.mp hbody
    rw [List.map_cons, List.foldl_cons, contentRead_body ht, ih hbody]
    simp [String.append_assoc]

theorem collectGemini_body (hbody : ∀ t ∈ body, t.isFinal = false) (c : GeminiCollected)
    (rest : List (Except String StreamToken)) :
    collectGemini c (body.map .ok ++ rest) =
      collectGemini { c with fullText := c.fullText ++ String.join (body.map StreamToken.value) }
        rest := by
  induction body generalizing c with
  | nil => simp
  | cons t body ih =>
    obtain ⟨ht, hbody⟩ := List.forall_mem_cons.mp hbody
    rw [List.map_cons, List.cons_append, collectGemini, ht, if_neg Bool.false_ne_true, ih hbody]
    simp [String.append_assoc]

end Folds

/-! ## Both answers -/

section Answers
variable (l : TokenLog)

/-- What the client of the stream has in the end. -/
def TokenLog.streamed : GeminiContentRead := .readAll (GeminiCompat.streamGenerate l.results)

theorem streamGenerate_eq :
    GeminiCompat.streamGenerate l.results = l.tokens.map fun t => t.geminiEvent.toJson := by
  rw [GeminiCompat.streamGenerate, TokenLog.results, List.map_map]
  rfl

theorem streamed_eq : l.streamed = {
    text := String.join (l.body.map StreamToken.value)
    functionCalls := []
    finishReason := l.last.map fun t => toGeminiFinishReason t.finishReason
    usage := l.last.map fun t => t.geminiUsage.toJson } := by
  rw [TokenLog.streamed, streamGenerate_eq, TokenLog.tokens, List.map_append,
    GeminiContentRead.readAll, List.foldl_append, foldl_read_body l.body_goes_on]
  cases hlast : l.last with
  | none => simp [GeminiContentRead.empty]
  | some t => simp [read_last (l.last_isFinal t hlast), GeminiContentRead.empty]

theorem generateContent_eq : ∃ r, generateContent l.results = .ok r ∧
    GeminiContentRead.readAll [r] = {
      text := String.join (l.body.map StreamToken.value)
      functionCalls := []
      finishReason := some (l.last.elim "STOP" fun t => toGeminiFinishReason t.finishReason)
      usage := some (l.last.elim ⟨0, 0⟩ StreamToken.geminiUsage).toJson } := by
  rw [generateContent, TokenLog.results, TokenLog.tokens, List.map_append,
    collectGemini_body l.body_goes_on]
  cases hlast : l.last with
  | none =>
    refine ⟨_, rfl, ?_⟩
    rw [GeminiContentRead.readAll, List.foldl_cons, List.foldl_nil, read_response]
    simp [GeminiContentRead.empty, GeminiResponsePart.textOf]
  | some t =>
    have ht := l.last_isFinal t hlast
    simp only [Option.toList_some, List.map_cons, List.map_nil, collectGemini, ht, if_true]
    refine ⟨_, rfl, ?_⟩
    rw [GeminiContentRead.readAll, List.foldl_cons, List.foldl_nil, read_response]
    simp [GeminiContentRead.empty, GeminiResponsePart.textOf]

/-- The answers to a job are the same, and complete. -/
def SameGeminiAnswers : Prop :=
  ∃ r, generateContent l.results = .ok r ∧ SameGeminiAnswer l l.streamed (.readAll [r])

/-- The two deliver the same if the job has a final token and no token of it carries a tool call. -/
theorem same_gemini_answer_iff : SameGeminiAnswers l ↔
    l.last.isSome ∧ ∀ t ∈ l.tokens, t.toolItems = [] := by
  obtain ⟨r, hr, hread⟩ := generateContent_eq l
  have hcalls : l.functionCalls = [] ↔ ∀ t ∈ l.tokens, t.toolItems = [] := by
    rw [TokenLog.functionCalls, List.map_eq_nil_iff, List.flatMap_eq_nil_iff]
  rw [← hcalls]
  constructor
  · rintro ⟨r', hr', hsame⟩
    obtain rfl := Except.ok.inj (hr.symm.trans hr')
    rw [hread, streamed_eq] at hsame
    refine ⟨?_, hsame.streamedCalls.symm⟩
    have hreason := hsame.finishReason
    cases hlast : l.last with
    | none => simp [hlast] at hreason
    | some t => rfl
  · rintro ⟨hlast, hnone⟩
    obtain ⟨t, ht⟩ := Option.isSome_iff_exists.mp hlast
    refine ⟨r, hr, ?_⟩
    rw [hread, streamed_eq, ht]
    exact ⟨rfl, rfl, rfl, hnone.symm, hnone.symm⟩

end Answers

/-- A job that calls a tool. -/
def weatherLog : TokenLog where
  body := (callingJob [["weather"]]).body
  last := some .done
  body_goes_on := (callingJob [["weather"]]).body_goes_on
  last_isFinal t ht := by
    obtain rfl := Option.some.inj ht
    rfl

/-- The call is in neither answer. -/
theorem tool_call_dropped : ¬ SameGeminiAnswers weatherLog := by
  rintro ⟨r, -, hsame⟩
  have hcalls := hsame.streamedCalls
  rw [streamed_eq] at hcalls
  simp [TokenLog.functionCalls, weatherLog, TokenLog.tokens, callingJob, StreamToken.toolItems,
    Texts.items] at hcalls

end Veronex
