import Mathlib
import Veronex.Http.ChatCompletion

/-! # The two forms of an answer of `/api/chat`

The lines and the single response of `chat` (`infrastructure/inbound/http/ollama_compat_handlers.rs`),
from the tokens of the job.

`same_chat_iff`: for which jobs a client of the lines has what the single response says.
-/
namespace Veronex
set_option autoImplicit false

/-! ## Lines -/

section Lines
variable (model : String)

/-- Nothing is sent for an empty token. -/
def ndjsonLine (createdAt : String) : Except String StreamToken → List Json
  | .ok token =>
    match token.toolCalls with
    | some calls =>
      [.obj [("model", .str model), ("created_at", .str createdAt),
        ("message", .obj [("role", .str "assistant"), ("content", .str ""), ("tool_calls", calls)]),
        ("done", .bool false)]]
    | none =>
      if token.isFinal then
        [.obj [("model", .str model), ("created_at", .str createdAt),
          ("message", .obj [("role", .str "assistant"), ("content", .str "")]),
          ("done", .bool true), ("done_reason", .str "stop"), ("total_duration", .num "0"),
          ("prompt_eval_count", .num (toString (token.promptTokens.getD 0))),
          ("eval_count", .num (toString (token.completionTokens.getD 0)))]]
      else if token.value = "" then []
      else
        [.obj [("model", .str model), ("created_at", .str createdAt),
          ("message", .obj [("role", .str "assistant"), ("content", .str token.value)]),
          ("done", .bool false)]]
  | .error e => [.obj [("error", .str (sanitizeSseError e)), ("done", .bool true)]]

/-- The lines of the results from the `k`th on, the `i`th at the time `createdAt i`. -/
def chatLines (createdAt : ℕ → String) (k : ℕ) : List (Except String StreamToken) → List Json
  | [] => []
  | result :: results => ndjsonLine model (createdAt k) result ++ chatLines createdAt (k + 1) results

end Lines

/-! ## The single response -/

structure CollectedStream where
  content : String
  toolCalls : Option Json
  promptTokens : ℕ
  evalTokens : ℕ

def collectStream (c : CollectedStream) :
    List (Except String StreamToken) → Except String CollectedStream
  | [] => .ok c
  | .error e :: _ => .error (sanitizeSseError e)
  | .ok t :: results =>
    match t.toolCalls with
    | some calls => collectStream { c with toolCalls := some calls } results
    | none =>
      if t.isFinal then
        collectStream { c with
          promptTokens := t.promptTokens.getD 0
          evalTokens := t.completionTokens.getD 0 } results
      else collectStream { c with content := c.content ++ t.value } results

def buildChatResponse (model createdAt : String) (c : CollectedStream) (renewed : Bool) : Json :=
  let (doneReason, message) := match c.toolCalls with
    | some calls => ("tool_calls",
        Json.obj [("role", .str "assistant"), ("content", .str ""), ("tool_calls", calls)])
    | none => ("stop", Json.obj [("role", .str "assistant"), ("content", .str c.content)])
  .obj [("model", .str model), ("created_at", .str createdAt), ("message", message),
    ("done_reason", .str doneReason), ("done", .bool true), ("total_duration", .num "0"),
    ("load_duration", .num "0"), ("prompt_eval_count", .num (toString c.promptTokens)),
    ("prompt_eval_duration", .num "0"), ("eval_count", .num (toString c.evalTokens)),
    ("eval_duration", .num "0"), ("conversation_renewed", .bool renewed)]

/-- The error is that of an internal error. -/
def chatResponse (model createdAt : String) (renewed : Bool)
    (results : List (Except String StreamToken)) : Except String Json :=
  (collectStream ⟨"", none, 0, 0⟩ results).map fun c => buildChatResponse model createdAt c renewed

/-! ## What a client reads -/

structure ChatRead where
  content : String
  toolCalls : List Json
  doneReason : Option Json
  promptEvalCount : Option Json
  evalCount : Option Json

namespace ChatRead

def empty : ChatRead :=
  { content := "", toolCalls := [], doneReason := none, promptEvalCount := none, evalCount := none }

def isDone (r : Json) : Bool :=
  match r.get "done" with
  | some (.bool b) => b
  | _ => false

/-- A client of the lines puts the messages together and takes the record that is done. -/
def read (c : ChatRead) (r : Json) : ChatRead :=
  let message := (r.get "message").getD .null
  { content := c.content ++ ((message.get "content").bind Json.asStr).getD ""
    toolCalls := c.toolCalls ++ (message.get "tool_calls").elim [] Texts.items
    doneReason := if isDone r then r.get "done_reason" else c.doneReason
    promptEvalCount := if isDone r then r.get "prompt_eval_count" else c.promptEvalCount
    evalCount := if isDone r then r.get "eval_count" else c.evalCount }

def readAll (rs : List Json) : ChatRead := rs.foldl read empty

end ChatRead

/-! ## Both folds -/

section Folds
variable {model at' : String} {t : StreamToken} {c : ChatRead} {body : List StreamToken}

theorem read_callsLine {calls : Json} (h : t.toolCalls = some calls) :
    (ndjsonLine model at' (.ok t)).foldl ChatRead.read c =
      { c with toolCalls := c.toolCalls ++ t.toolItems } := by
  simp [ndjsonLine, h, ChatRead.read, ChatRead.isDone, Json.get, Json.asStr, List.lookup,
    StreamToken.toolItems]

theorem read_textLine (h : t.toolCalls = none) (ht : t.isFinal = false) :
    (ndjsonLine model at' (.ok t)).foldl ChatRead.read c =
      { c with content := c.content ++ t.value } := by
  by_cases hvalue : t.value = ""
  · simp [ndjsonLine, h, ht, hvalue]
  · simp [ndjsonLine, h, ht, hvalue, ChatRead.read, ChatRead.isDone, Json.get, Json.asStr, List.lookup]

theorem read_doneLine (h : t.toolCalls = none) (ht : t.isFinal = true) :
    (ndjsonLine model at' (.ok t)).foldl ChatRead.read c = { c with
      doneReason := some (.str "stop")
      promptEvalCount := some (.num (toString (t.promptTokens.getD 0)))
      evalCount := some (.num (toString (t.completionTokens.getD 0))) } := by
  simp [ndjsonLine, h, ht, ChatRead.read, ChatRead.isDone, Json.get, Json.asStr, List.lookup]

/-- What the client has after the tokens before the last one. -/
theorem chatRead_body (hbody : ∀ t ∈ body, t.isFinal = false) (createdAt : ℕ → String) (k : ℕ)
    (c : ChatRead) (rest : List (Except String StreamToken)) :
    (chatLines model createdAt k (body.map .ok ++ rest)).foldl ChatRead.read c =
      (chatLines model createdAt (k + body.length) rest).foldl ChatRead.read { c with
        content := textAfter c.content body
        toolCalls := c.toolCalls ++ body.flatMap StreamToken.toolItems } := by
  induction body generalizing k c with
  | nil => simp [textAfter]
  | cons t body ih =>
    obtain ⟨ht, hbody⟩ := List.forall_mem_cons.mp hbody
    have hindex : k + 1 + body.length = k + (t :: body).length := by
      rw [List.length_cons]
      omega
    rw [List.map_cons, List.cons_append, chatLines, List.foldl_append]
    cases hcalls : t.toolCalls with
    | some calls =>
      rw [read_callsLine hcalls, ih hbody, hindex]
      simp [textAfter, StreamToken.textValue, hcalls]
    | none =>
      rw [read_textLine hcalls ht, ih hbody, hindex]
      simp [textAfter, StreamToken.textValue, StreamToken.toolItems, hcalls]

/-- The calls that are kept are those of the last token that has some. -/
def lastCalls (calls : Option Json) (body : List StreamToken) : Option Json :=
  body.foldl (fun calls t => t.toolCalls.or calls) calls

theorem collectStream_body (hbody : ∀ t ∈ body, t.isFinal = false) (c : CollectedStream)
    (rest : List (Except String StreamToken)) :
    collectStream c (body.map .ok ++ rest) = collectStream { c with
      content := textAfter c.content body, toolCalls := lastCalls c.toolCalls body } rest := by
  induction body generalizing c with
  | nil => simp [textAfter, lastCalls]
  | cons t body ih =>
    obtain ⟨ht, hbody⟩ := List.forall_mem_cons.mp hbody
    rw [List.map_cons, List.cons_append, collectStream]
    cases hcalls : t.toolCalls with
    | some calls => simp [ih hbody, textAfter, lastCalls, StreamToken.textValue, hcalls]
    | none => simp [ht, ih hbody, textAfter, lastCalls, StreamToken.textValue, hcalls]

theorem lastCalls_some (calls : Json) (body : List StreamToken) :
    (lastCalls (some calls) body).isSome = true := by
  induction body generalizing calls with
  | nil => rfl
  | cons t body ih =>
    cases hcalls : t.toolCalls with
    | some v =>
      have := ih v
      simpa [lastCalls, hcalls] using this
    | none =>
      have := ih calls
      simpa [lastCalls, hcalls] using this

theorem lastCalls_none_iff : lastCalls none body = none ↔ ∀ t ∈ body, t.toolCalls = none := by
  induction body with
  | nil => simp [lastCalls]
  | cons t body ih =>
    rw [List.forall_mem_cons, ← ih]
    cases hcalls : t.toolCalls with
    | some calls =>
      have hstep : lastCalls none (t :: body) = lastCalls (some calls) body := by
        simp [lastCalls, hcalls]
      have hsome := lastCalls_some calls body
      rw [hstep]
      constructor
      · intro h
        simp [h] at hsome
      · rintro ⟨h, -⟩
        cases h
    | none => simp [lastCalls, hcalls]

end Folds

/-! ## Both answers -/

section Answers
variable (model : String) (createdAt : ℕ → String) (respondedAt : String) (renewed : Bool)
  (j : JobTokens)

theorem linesRead_eq : ChatRead.readAll (chatLines model createdAt 0 j.results) = {
    content := textAfter "" j.body
    toolCalls := j.body.flatMap StreamToken.toolItems
    doneReason := some (.str "stop")
    promptEvalCount := some (.num (toString (j.last.promptTokens.getD 0)))
    evalCount := some (.num (toString (j.last.completionTokens.getD 0))) } := by
  rw [ChatRead.readAll, JobTokens.results, chatRead_body j.body_goes_on, chatLines, chatLines,
    List.append_nil, read_doneLine j.last_plain j.last_isFinal]
  rfl

theorem collectStream_eq : collectStream ⟨"", none, 0, 0⟩ j.results = .ok {
    content := textAfter "" j.body
    toolCalls := lastCalls none j.body
    promptTokens := j.last.promptTokens.getD 0
    evalTokens := j.last.completionTokens.getD 0 } := by
  rw [JobTokens.results, collectStream_body j.body_goes_on, collectStream, j.last_plain]
  dsimp only
  rw [if_pos j.last_isFinal, collectStream]

/-- The single response of a collected stream, as its client reads it. -/
theorem responseRead_eq (c : CollectedStream) :
    ChatRead.readAll [buildChatResponse model respondedAt c renewed] = {
      content := if c.toolCalls.isSome then "" else c.content
      toolCalls := c.toolCalls.elim [] Texts.items
      doneReason := some (.str (if c.toolCalls.isSome then "tool_calls" else "stop"))
      promptEvalCount := some (.num (toString c.promptTokens))
      evalCount := some (.num (toString c.evalTokens)) } := by
  cases hcalls : c.toolCalls with
  | some calls =>
    simp [ChatRead.readAll, buildChatResponse, hcalls, ChatRead.read, ChatRead.empty,
      ChatRead.isDone, Json.get, Json.asStr, List.lookup]
  | none =>
    simp [ChatRead.readAll, buildChatResponse, hcalls, ChatRead.read, ChatRead.empty,
      ChatRead.isDone, Json.get, Json.asStr, List.lookup]

/-- The client of the lines has what the single response says. -/
def SameChat : Prop :=
  ∃ r, chatResponse model respondedAt renewed j.results = .ok r ∧
    ChatRead.readAll (chatLines model createdAt 0 j.results) = ChatRead.readAll [r]

/-- The two answers of `/api/chat` are the same exactly if no token of the job has tool calls. -/
theorem same_chat_iff : SameChat model createdAt respondedAt renewed j ↔
    ∀ t ∈ j.body, t.toolCalls = none := by
  rw [← lastCalls_none_iff, SameChat, chatResponse, collectStream_eq, linesRead_eq]
  simp only [Except.map, Except.ok.injEq, exists_eq_left', responseRead_eq, ChatRead.mk.injEq]
  cases hcalls : lastCalls none j.body with
  | some calls => simp
  | none =>
    have hplain := lastCalls_none_iff.mp hcalls
    have hitems : j.body.flatMap StreamToken.toolItems = [] := by
      rw [List.flatMap_eq_nil_iff]
      intro t ht
      rw [StreamToken.toolItems, hplain t ht]
      rfl
    simp [hitems]

end Answers

/-- A job that calls two tools in two tokens: the lines have both calls and end with `stop`, the
response has the second one and ends with `tool_calls`. -/
theorem two_calls_differ :
    ¬ SameChat "qwen3" (fun _ => "12:00") "12:01" false (callingJob [["weather"], ["time"]]) ∧
      (ChatRead.readAll (chatLines "qwen3" (fun _ => "12:00") 0
        (callingJob [["weather"], ["time"]]).results)).toolCalls =
          [callNamed "weather", callNamed "time"] ∧
      chatResponse "qwen3" "12:01" false (callingJob [["weather"], ["time"]]).results =
        .ok (buildChatResponse "qwen3" "12:01" ⟨"", some (.arr [callNamed "time"]), 0, 0⟩ false) := by
  have hresponse : chatResponse "qwen3" "12:01" false (callingJob [["weather"], ["time"]]).results =
      .ok (buildChatResponse "qwen3" "12:01" ⟨"", some (.arr [callNamed "time"]), 0, 0⟩ false) := rfl
  have hlines := linesRead_eq "qwen3" (fun _ => "12:00") (callingJob [["weather"], ["time"]])
  refine ⟨?_, congrArg ChatRead.toolCalls hlines, hresponse⟩
  rintro ⟨r, hr, hsame⟩
  obtain rfl := Except.ok.inj (hresponse.symm.trans hr)
  have hreason := congrArg ChatRead.doneReason (hlines.symm.trans hsame)
  rw [responseRead_eq] at hreason
  simp at hreason

end Veronex
