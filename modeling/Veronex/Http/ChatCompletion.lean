import Veronex.Foundation.Positions
import Veronex.Mcp.ForcedJson
import Veronex.Mcp.SessionManager
import Mathlib.Data.List.Nodup

/-! # The two forms of a chat completion

The streamed and the collected answer of `chat_completions`
(`infrastructure/inbound/http/openai_handlers.rs`) to a request for a job, from the tokens of the job.
The fields of an answer that do not depend on the tokens are in `ResponseHead`, or left out where they
are constant.

`same_completion_iff`: for which tokens the two carry the same completion.
-/
namespace Veronex
set_option autoImplicit false
open Concurrency

/-! ## Tool calls -/

/-- What the handlers take from `serde_json` and from the standard library. -/
structure Texts where
  /-- `to_string` -/
  toText : Json → String
  isAlphanumeric : Char → Bool

/-- A tool call in the format of OpenAI; its `type` is `function`. -/
structure OpenaiToolCall where
  index : ℕ
  id : String
  name : String
  arguments : String
  deriving DecidableEq

namespace Texts
variable (x : Texts)

def validateToolCall (call : Json) : Bool :=
  match call.get "function" with
  | none => false
  | some func =>
    match (func.get "name").bind Json.asStr with
    | none => false
    | some name =>
      decide (name ≠ "") && decide (name.utf8ByteSize ≤ 256) &&
        name.toList.all (fun c => x.isAlphanumeric c || c = '_' || c = '.' || c = '-' || c = ':') &&
        match func.get "arguments" with
        | some args => decide ((x.toText args).utf8ByteSize ≤ 65536)
        | none => true

def convertToolCall (i : ℕ) (call : Json) : OpenaiToolCall where
  index := i
  id := "call_" ++ toString i
  name := (((call.get "function").bind (Json.get · "name")).bind Json.asStr).getD ""
  arguments := (((call.get "function").bind (Json.get · "arguments")).map x.toText).getD ""

/-- `as_array` -/
def items : Json → List Json
  | .arr calls => calls
  | _ => []

/-- The calls of a token. -/
def openaiCalls (calls : Json) : List OpenaiToolCall :=
  ((items calls).zipIdx.filter fun e => x.validateToolCall e.1).map fun e =>
    x.convertToolCall e.2 e.1

end Texts

/-! ## Answers -/

structure UsageInfo where
  promptTokens : ℕ
  completionTokens : ℕ
  totalTokens : ℕ
  deriving DecidableEq

/-- The sum is of 32 bits. -/
def UsageInfo.of (promptTokens completionTokens : ℕ) : UsageInfo :=
  { promptTokens, completionTokens, totalTokens := (promptTokens + completionTokens) % 2 ^ 32 }

structure ResponseHead where
  id : String
  created : ℤ
  model : String
  deriving DecidableEq

structure DeltaContent where
  content : Option String
  toolCalls : Option (List OpenaiToolCall)
  deriving DecidableEq

structure ChunkChoice where
  delta : DeltaContent
  finishReason : Option String
  deriving DecidableEq

/-- The list of choices has at most one. -/
structure CompletionChunk where
  head : ResponseHead
  choice : Option ChunkChoice
  usage : Option UsageInfo
  deriving DecidableEq

namespace CompletionChunk

def content (head : ResponseHead) (text : String) : CompletionChunk :=
  { head, choice := some ⟨⟨some text, none⟩, none⟩, usage := none }

def finish (head : ResponseHead) (reason : String) : CompletionChunk :=
  { head, choice := some ⟨⟨none, none⟩, some reason⟩, usage := none }

def usageOnly (head : ResponseHead) (usage : UsageInfo) : CompletionChunk :=
  { head, choice := none, usage := some usage }

def toolCalls (head : ResponseHead) (calls : List OpenaiToolCall) : CompletionChunk :=
  { head, choice := some ⟨⟨none, some calls⟩, none⟩, usage := none }

end CompletionChunk

structure CompletionMessage where
  content : Option String
  toolCalls : Option (List OpenaiToolCall)
  deriving DecidableEq

structure ChatCompletion where
  head : ResponseHead
  message : CompletionMessage
  finishReason : String
  usage : UsageInfo
  deriving DecidableEq

inductive ChatEvent
  | chunk (c : CompletionChunk)
  | error (message : String)
  | done
  deriving DecidableEq

/-- The texts have no line breaks to escape. -/
def sanitizeSseError (message : String) : String :=
  let has := Mcp.contains message
  if has "database" || has "sqlx" || has "postgres" then "internal processing error"
  else if has "reqwest" || has "connect" || has "timeout" then "provider communication error"
  else if has "capacity" || has "slot" then "service at capacity"
  else if has "cancelled" || has "canceled" then "request cancelled"
  else if has "token" && has "limit" then "token limit exceeded"
  else "inference failed"

namespace Texts
variable (x : Texts) (head : ResponseHead) (includeUsage : Bool)

/-- The closure over the tokens; its state is `saw_tool_calls`. -/
def tokenEvents (sawToolCalls : Bool) : Except String StreamToken → Bool × List ChatEvent
  | .ok token =>
    match token.toolCalls with
    | some calls => (true, [.chunk (.toolCalls head (x.openaiCalls calls))])
    | none =>
      if token.isFinal then
        let reason := token.finishReason.getD (if sawToolCalls then "tool_calls" else "stop")
        let usage := UsageInfo.of (token.promptTokens.getD 0) (token.completionTokens.getD 0)
        (sawToolCalls, .chunk (.finish head reason) ::
          if includeUsage then [.chunk (.usageOnly head usage)] else [])
      else (sawToolCalls, if token.value = "" then [] else [.chunk (.content head token.value)])
  | .error e => (sawToolCalls, [.error (sanitizeSseError e)])

/-- The events of a streamed answer. -/
def streamedEvents (sawToolCalls : Bool) : List (Except String StreamToken) → List ChatEvent
  | [] => [.done]
  | token :: tokens =>
    let (sawToolCalls, events) := x.tokenEvents head includeUsage sawToolCalls token
    events ++ streamedEvents sawToolCalls tokens

end Texts

/-- The variables of `collect_completion`. -/
structure Collected where
  content : String
  toolCalls : List OpenaiToolCall
  promptTokens : ℕ
  completionTokens : ℕ
  finishReasonStr : String

namespace Texts
variable (x : Texts) (head : ResponseHead)

def collectTokens (c : Collected) : List (Except String StreamToken) → Except String Collected
  | [] => .ok c
  | .error e :: _ => .error (sanitizeSseError e)
  | .ok token :: tokens =>
    match token.toolCalls with
    | some calls => collectTokens { c with toolCalls := c.toolCalls ++ x.openaiCalls calls } tokens
    | none =>
      if token.isFinal then
        .ok { c with
          promptTokens := token.promptTokens.getD 0
          completionTokens := token.completionTokens.getD c.completionTokens
          finishReasonStr :=
            token.finishReason.getD (if c.toolCalls = [] then "stop" else "tool_calls") }
      else collectTokens { c with content := c.content ++ token.value } tokens

/-- The error is that of an internal error. -/
def collectCompletion (tokens : List (Except String StreamToken)) : Except String ChatCompletion :=
  (x.collectTokens ⟨"", [], 0, 0, "stop"⟩ tokens).map fun c =>
    { head
      message := { content := if c.content = "" then none else some c.content
                   toolCalls := if c.toolCalls = [] then none else some c.toolCalls }
      finishReason := c.finishReasonStr
      usage := .of c.promptTokens c.completionTokens }

end Texts

/-! ## The client of a stream -/

/-- Tool calls in the order of their indexes; a delta for a call that is there goes on with its
arguments. -/
def mergeToolCall (d : OpenaiToolCall) : List OpenaiToolCall → List OpenaiToolCall
  | [] => [d]
  | c :: calls =>
    if d.index < c.index then d :: c :: calls
    else if d.index = c.index then { c with arguments := c.arguments ++ d.arguments } :: calls
    else c :: mergeToolCall d calls

structure Merged where
  content : String
  toolCalls : List OpenaiToolCall
  finishReason : Option String
  usage : Option UsageInfo

namespace Merged

def empty : Merged := { content := "", toolCalls := [], finishReason := none, usage := none }

def mergeChunk (m : Merged) (c : CompletionChunk) : Merged :=
  let delta := (c.choice.map ChunkChoice.delta).getD ⟨none, none⟩
  { content := m.content ++ delta.content.getD ""
    toolCalls := (delta.toolCalls.getD []).foldl (fun calls d => mergeToolCall d calls) m.toolCalls
    finishReason := (c.choice.bind ChunkChoice.finishReason).or m.finishReason
    usage := c.usage.or m.usage }

def mergeEvent (m : Merged) : ChatEvent → Merged
  | .chunk c => m.mergeChunk c
  | .error _ | .done => m

/-- What the client has at the end. -/
def ofEvents (events : List ChatEvent) : Merged := events.foldl mergeEvent empty

end Merged

/-- The deltas of a stream. -/
def toolDeltas (events : List ChatEvent) : List OpenaiToolCall :=
  events.flatMap fun
    | .chunk c => ((c.choice.map ChunkChoice.delta).bind DeltaContent.toolCalls).getD []
    | .error _ | .done => []

/-- The ids are distinct and the indexes are 0, 1, .. -/
structure WellNumbered (calls : List OpenaiToolCall) : Prop where
  ids : (calls.map OpenaiToolCall.id).Nodup
  indexes : calls.map OpenaiToolCall.index = List.range calls.length

/-- The usage is part of a stream that was asked for it. -/
structure SameCompletion (includeUsage : Bool) (m : Merged) (c : ChatCompletion) : Prop where
  content : (if m.content = "" then none else some m.content) = c.message.content
  toolCalls : (if m.toolCalls = [] then none else some m.toolCalls) = c.message.toolCalls
  finishReason : m.finishReason = some c.finishReason
  usage : m.usage = if includeUsage then some c.usage else none

/-- The tokens of a job that has ended. -/
structure JobTokens where
  body : List StreamToken
  last : StreamToken
  body_goes_on : ∀ t ∈ body, t.isFinal = false
  last_isFinal : last.isFinal = true
  last_plain : last.toolCalls = none

def JobTokens.results (j : JobTokens) : List (Except String StreamToken) :=
  j.body.map .ok ++ [.ok j.last]

/-! ## Both folds -/

section Folds
variable {x : Texts} {head : ResponseHead} {includeUsage : Bool} {body : List StreamToken}

def StreamToken.toolItems (t : StreamToken) : List Json := (t.toolCalls.map Texts.items).getD []

/-- The text of a token that carries no tool calls. -/
def StreamToken.textValue (t : StreamToken) : String := if t.toolCalls.isSome then "" else t.value

def Texts.callsOf (x : Texts) (t : StreamToken) : List OpenaiToolCall :=
  (t.toolCalls.map x.openaiCalls).getD []

/-- The texts of the tokens after `content`. -/
def textAfter (content : String) (body : List StreamToken) : String :=
  body.foldl (fun content t => content ++ t.textValue) content

/-- The reason of the last token, or the one that is chosen for it. -/
def reasonOf (last : StreamToken) (called : Bool) : String :=
  last.finishReason.getD (if called then "tool_calls" else "stop")

def usageOf (last : StreamToken) : UsageInfo :=
  .of (last.promptTokens.getD 0) (last.completionTokens.getD 0)

theorem collectTokens_last {last : StreamToken} (hfinal : last.isFinal = true)
    (hplain : last.toolCalls = none) (c : Collected) :
    x.collectTokens c [.ok last] = .ok { c with
      promptTokens := last.promptTokens.getD 0
      completionTokens := last.completionTokens.getD c.completionTokens
      finishReasonStr :=
        last.finishReason.getD (if c.toolCalls = [] then "stop" else "tool_calls") } := by
  rw [Texts.collectTokens, hplain]
  dsimp only
  rw [if_pos hfinal]

/-- What `collect_completion` has after the tokens before the last one. -/
theorem collectTokens_body (hbody : ∀ t ∈ body, t.isFinal = false) (c : Collected)
    (rest : List (Except String StreamToken)) :
    x.collectTokens c (body.map .ok ++ rest) = x.collectTokens { c with
      content := textAfter c.content body
      toolCalls := c.toolCalls ++ body.flatMap x.callsOf } rest := by
  induction body generalizing c with
  | nil => simp [textAfter]
  | cons t body ih =>
    obtain ⟨ht, hbody⟩ := List.forall_mem_cons.mp hbody
    rw [List.map_cons, List.cons_append, Texts.collectTokens]
    cases hcalls : t.toolCalls with
    | some calls =>
      simp only [ih hbody, textAfter, List.foldl_cons, List.flatMap_cons, Texts.callsOf,
        StreamToken.textValue, hcalls, Option.isSome_some, if_true, String.append_empty,
        Option.map_some, Option.getD_some, List.append_assoc]
    | none =>
      simp only [ht, ih hbody, textAfter, List.foldl_cons, List.flatMap_cons, Texts.callsOf,
        StreamToken.textValue, hcalls, Option.isSome_none, Bool.false_eq_true, if_false,
        Option.map_none, Option.getD_none, List.nil_append]

/-- What the client has after the tokens before the last one. -/
theorem mergeEvents_body (hbody : ∀ t ∈ body, t.isFinal = false) (saw : Bool) (m : Merged)
    (rest : List (Except String StreamToken)) :
    (x.streamedEvents head includeUsage saw (body.map .ok ++ rest)).foldl Merged.mergeEvent m =
      (x.streamedEvents head includeUsage (saw || body.any fun t => t.toolCalls.isSome) rest).foldl
        Merged.mergeEvent { m with
          content := textAfter m.content body
          toolCalls := (body.flatMap x.callsOf).foldl (fun calls d => mergeToolCall d calls)
            m.toolCalls } := by
  induction body generalizing saw m with
  | nil => simp [textAfter]
  | cons t body ih =>
    obtain ⟨ht, hbody⟩ := List.forall_mem_cons.mp hbody
    rw [List.map_cons, List.cons_append, Texts.streamedEvents]
    cases hcalls : t.toolCalls with
    | some calls =>
      simp [Texts.tokenEvents, ih hbody, textAfter, Texts.callsOf, StreamToken.textValue, hcalls,
        Merged.mergeEvent, Merged.mergeChunk, CompletionChunk.toolCalls]
    | none =>
      by_cases hvalue : t.value = ""
      · simp [Texts.tokenEvents, ih hbody, textAfter, Texts.callsOf, StreamToken.textValue, hcalls,
          ht, hvalue]
      · simp [Texts.tokenEvents, ih hbody, textAfter, Texts.callsOf, StreamToken.textValue, hcalls,
          ht, hvalue, Merged.mergeEvent, Merged.mergeChunk, CompletionChunk.content]

theorem toolDeltas_append (as bs : List ChatEvent) :
    toolDeltas (as ++ bs) = toolDeltas as ++ toolDeltas bs :=
  List.flatMap_append

theorem toolDeltas_body (hbody : ∀ t ∈ body, t.isFinal = false) (saw : Bool)
    (rest : List (Except String StreamToken)) :
    toolDeltas (x.streamedEvents head includeUsage saw (body.map .ok ++ rest)) =
      body.flatMap x.callsOf ++ toolDeltas
        (x.streamedEvents head includeUsage (saw || body.any fun t => t.toolCalls.isSome) rest) := by
  induction body generalizing saw with
  | nil => simp
  | cons t body ih =>
    obtain ⟨ht, hbody⟩ := List.forall_mem_cons.mp hbody
    rw [List.map_cons, List.cons_append, Texts.streamedEvents]
    cases hcalls : t.toolCalls with
    | some calls =>
      simp only [Texts.tokenEvents, hcalls, toolDeltas_append, ih hbody, Texts.callsOf,
        List.flatMap_cons, List.append_assoc, List.any_cons]
      simp [toolDeltas, CompletionChunk.toolCalls]
    | none =>
      simp only [Texts.tokenEvents, hcalls, ht, Bool.false_eq_true, if_false, toolDeltas_append,
        ih hbody, Texts.callsOf, List.flatMap_cons, List.any_cons, Option.isSome_none, Bool.false_or,
        Option.map_none, Option.getD_none, List.nil_append]
      split
      · rfl
      · rfl

variable {last : StreamToken}

/-- The events of the last token. -/
theorem streamedEvents_last (hfinal : last.isFinal = true) (hplain : last.toolCalls = none)
    (saw : Bool) : x.streamedEvents head includeUsage saw [.ok last] =
      .chunk (.finish head (reasonOf last saw)) ::
        (if includeUsage then [.chunk (.usageOnly head (usageOf last))] else []) ++ [.done] := by
  simp only [Texts.streamedEvents, Texts.tokenEvents, hplain, hfinal, if_true, reasonOf, usageOf]

theorem mergeEvents_last (hfinal : last.isFinal = true) (hplain : last.toolCalls = none)
    (saw : Bool) (m : Merged) (husage : m.usage = none) :
    (x.streamedEvents head includeUsage saw [.ok last]).foldl Merged.mergeEvent m =
      { m with
        finishReason := some (reasonOf last saw)
        usage := if includeUsage then some (usageOf last) else none } := by
  rw [streamedEvents_last hfinal hplain]
  cases includeUsage with
  | true => simp [Merged.mergeEvent, Merged.mergeChunk, CompletionChunk.finish,
      CompletionChunk.usageOnly]
  | false => simp [Merged.mergeEvent, Merged.mergeChunk, CompletionChunk.finish, husage]

theorem toolDeltas_last (hfinal : last.isFinal = true) (hplain : last.toolCalls = none)
    (saw : Bool) : toolDeltas (x.streamedEvents head includeUsage saw [.ok last]) = [] := by
  rw [streamedEvents_last hfinal hplain]
  cases includeUsage with
  | true => rfl
  | false => rfl

end Folds

/-! ## Numbers -/

section Numbers
variable {x : Texts} {calls : List OpenaiToolCall}

/-- A delta with a new index comes last. -/
theorem mergeToolCall_last {d : OpenaiToolCall} (h : ∀ c ∈ calls, c.index < d.index) :
    mergeToolCall d calls = calls ++ [d] := by
  induction calls with
  | nil => rfl
  | cons c calls ih =>
    obtain ⟨hc, hcalls⟩ := List.forall_mem_cons.mp h
    rw [mergeToolCall, if_neg (by omega), if_neg (by omega), ih hcalls, List.cons_append]

theorem mergeToolCalls_increasing (h : (calls.map OpenaiToolCall.index).Pairwise (· < ·)) :
    calls.foldl (fun calls d => mergeToolCall d calls) [] = calls := by
  induction calls using List.reverseRecOn with
  | nil => rfl
  | append_singleton calls d ih =>
    rw [List.map_append, List.pairwise_append] at h
    obtain ⟨hcalls, -, hlast⟩ := h
    rw [List.foldl_concat, ih hcalls]
    refine mergeToolCall_last fun c hc => ?_
    exact hlast c.index (List.mem_map_of_mem hc) d.index (by simp)

theorem repr_injective : Function.Injective Nat.repr := by
  intro m n h
  have hdigits := congrArg String.toList h
  rw [Nat.toList_repr, Nat.toList_repr] at hdigits
  rw [← Nat.ofDigitChars_ten_toDigits (n := m), hdigits, Nat.ofDigitChars_ten_toDigits]

/-- The number of a call is in its id. -/
theorem callsOf_id (t : StreamToken) {c : OpenaiToolCall} (h : c ∈ x.callsOf t) :
    c.id = "call_" ++ c.index.repr := by
  cases hcalls : t.toolCalls with
  | none => simp [Texts.callsOf, hcalls] at h
  | some v =>
    simp only [Texts.callsOf, hcalls, Option.map_some, Option.getD_some, Texts.openaiCalls,
      List.mem_map] at h
    obtain ⟨e, -, rfl⟩ := h
    rfl

theorem callsOf_indexes (body : List StreamToken) :
    (body.flatMap x.callsOf).map OpenaiToolCall.index =
      (body.map StreamToken.toolItems).flatMap (positions x.validateToolCall) := by
  induction body with
  | nil => rfl
  | cons t body ih =>
    rw [List.flatMap_cons, List.map_append, ih, List.map_cons, List.flatMap_cons]
    congr 1
    cases hcalls : t.toolCalls with
    | none => simp [Texts.callsOf, StreamToken.toolItems, hcalls]
    | some v =>
      simp only [Texts.callsOf, StreamToken.toolItems, hcalls, Option.map_some, Option.getD_some,
        Texts.openaiCalls, List.map_map, positions]
      rfl

theorem callsOf_length (body : List StreamToken) : (body.flatMap x.callsOf).length =
    (body.map StreamToken.toolItems).flatten.countP x.validateToolCall := by
  rw [← List.length_map (f := OpenaiToolCall.index), callsOf_indexes, flatMap_positions_length]

/-- The calls of a response are numbered exactly if each is where its number is. -/
theorem wellNumbered_iff (body : List StreamToken) : WellNumbered (body.flatMap x.callsOf) ↔
    BlocksInPlace x.validateToolCall (body.map StreamToken.toolItems) := by
  rw [← positions_range_iff, ← callsOf_indexes, ← callsOf_length]
  refine ⟨WellNumbered.indexes, fun h => ⟨?_, h⟩⟩
  have hids : (body.flatMap x.callsOf).map OpenaiToolCall.id =
      ((body.flatMap x.callsOf).map OpenaiToolCall.index).map fun i => "call_" ++ i.repr := by
    rw [List.map_map]
    refine List.map_congr_left fun c hc => ?_
    obtain ⟨t, -, hct⟩ := List.mem_flatMap.mp hc
    exact callsOf_id t hct
  rw [hids, h]
  refine List.nodup_range.map fun i j hij => repr_injective ?_
  exact String.append_right_inj _ |>.mp hij

/-- Some call of the tokens is collected. -/
theorem callsOf_ne_nil_iff (body : List StreamToken) : body.flatMap x.callsOf ≠ [] ↔
    ∃ t ∈ body, ∃ c ∈ t.toolItems, x.validateToolCall c = true := by
  rw [← List.length_pos_iff, callsOf_length, List.countP_pos_iff]
  constructor
  · rintro ⟨c, hc, hvalid⟩
    obtain ⟨items, hitems, hc⟩ := List.mem_flatten.mp hc
    obtain ⟨t, ht, rfl⟩ := List.mem_map.mp hitems
    exact ⟨t, ht, c, hc, hvalid⟩
  · rintro ⟨t, ht, c, hc, hvalid⟩
    exact ⟨c, List.mem_flatten.mpr ⟨_, List.mem_map_of_mem ht, hc⟩, hvalid⟩

end Numbers

/-! ## Both answers -/

section Answers
variable (x : Texts) (head : ResponseHead) (includeUsage : Bool) (j : JobTokens)

/-- The answers to a job are the same completion. -/
def SameAnswers : Prop :=
  ∃ c, x.collectCompletion head j.results = .ok c ∧
    SameCompletion includeUsage
      (.ofEvents (x.streamedEvents head includeUsage false j.results)) c ∧
    WellNumbered (c.message.toolCalls.getD []) ∧
    WellNumbered (toolDeltas (x.streamedEvents head includeUsage false j.results))

/-- The last token has a reason, or where a token carries tool calls one of them is valid. -/
def ReasonKnown : Prop :=
  j.last.finishReason = none → (∃ t ∈ j.body, t.toolCalls.isSome = true) →
    ∃ t ∈ j.body, ∃ c ∈ t.toolItems, x.validateToolCall c = true

theorem collected_calls {calls : List OpenaiToolCall} :
    (if calls = [] then none else some calls).getD [] = calls := by
  by_cases h : calls = []
  · rw [if_pos h, h]
    rfl
  · rw [if_neg h]
    rfl

/-- The collected answer. -/
theorem collectCompletion_eq : x.collectCompletion head j.results = .ok {
    head
    message := {
      content := if textAfter "" j.body = "" then none else some (textAfter "" j.body)
      toolCalls := if j.body.flatMap x.callsOf = [] then none else some (j.body.flatMap x.callsOf) }
    finishReason := reasonOf j.last (decide (j.body.flatMap x.callsOf ≠ []))
    usage := usageOf j.last } := by
  rw [Texts.collectCompletion, JobTokens.results, collectTokens_body j.body_goes_on,
    collectTokens_last j.last_isFinal j.last_plain]
  by_cases hcalls : j.body.flatMap x.callsOf = []
  · simp [Except.map, reasonOf, usageOf, hcalls]
  · simp [Except.map, reasonOf, usageOf, hcalls]

/-- The streamed answer, put together. -/
theorem ofEvents_eq : Merged.ofEvents (x.streamedEvents head includeUsage false j.results) = {
    content := textAfter "" j.body
    toolCalls := (j.body.flatMap x.callsOf).foldl (fun calls d => mergeToolCall d calls) []
    finishReason := some (reasonOf j.last (j.body.any fun t => t.toolCalls.isSome))
    usage := if includeUsage then some (usageOf j.last) else none } := by
  rw [Merged.ofEvents, JobTokens.results, mergeEvents_body j.body_goes_on,
    mergeEvents_last j.last_isFinal j.last_plain _ _ rfl, Bool.false_or]
  rfl

theorem toolDeltas_eq :
    toolDeltas (x.streamedEvents head includeUsage false j.results) = j.body.flatMap x.callsOf := by
  rw [JobTokens.results, toolDeltas_body j.body_goes_on, toolDeltas_last j.last_isFinal j.last_plain,
    List.append_nil]

theorem reasonKnown_iff : reasonOf j.last (j.body.any fun t => t.toolCalls.isSome) =
    reasonOf j.last (decide (j.body.flatMap x.callsOf ≠ [])) ↔ ReasonKnown x j := by
  unfold reasonOf ReasonKnown
  rw [← callsOf_ne_nil_iff]
  have hcarried : j.body.flatMap x.callsOf ≠ [] → ∃ t ∈ j.body, t.toolCalls.isSome = true := by
    intro hcalls
    obtain ⟨c, hc⟩ := List.exists_mem_of_ne_nil _ hcalls
    obtain ⟨t, ht, hct⟩ := List.mem_flatMap.mp hc
    refine ⟨t, ht, ?_⟩
    cases htool : t.toolCalls with
    | none => simp [Texts.callsOf, htool] at hct
    | some v => rfl
  cases hreason : j.last.finishReason with
  | some reason => simp
  | none =>
    by_cases hcalls : j.body.flatMap x.callsOf = []
    · by_cases hany : ∃ t ∈ j.body, t.toolCalls.isSome = true
      · simp [hcalls, List.any_eq_true, hany]
      · simp [hcalls, List.any_eq_true, hany]
    · have hany := hcarried hcalls
      simp [hcalls, List.any_eq_true, hany]

/-- The two answers are the same completion, with its tool calls numbered 0, 1, .., exactly if every
valid call of a token is at the position that is its number among the valid calls of all tokens, and
the reason to finish is known or some call is valid. -/
theorem same_completion_iff : SameAnswers x head includeUsage j ↔
    BlocksInPlace x.validateToolCall (j.body.map StreamToken.toolItems) ∧ ReasonKnown x j := by
  rw [SameAnswers, collectCompletion_eq, ofEvents_eq, toolDeltas_eq, ← wellNumbered_iff,
    ← reasonKnown_iff]
  constructor
  · rintro ⟨c, hc, hsame, -, hnumbered⟩
    obtain rfl : _ = c := Except.ok.inj hc
    exact ⟨hnumbered, Option.some.inj hsame.finishReason⟩
  · rintro ⟨hnumbered, hreason⟩
    have hincreasing : ((j.body.flatMap x.callsOf).map OpenaiToolCall.index).Pairwise (· < ·) := by
      rw [hnumbered.indexes]
      exact List.pairwise_lt_range
    have hmerged := mergeToolCalls_increasing hincreasing
    refine ⟨_, rfl, ⟨rfl, ?_, congrArg some hreason, rfl⟩, ?_, hnumbered⟩
    · dsimp only
      rw [hmerged]
    · dsimp only
      rw [collected_calls]
      exact hnumbered

end Answers

/-- Every argument here is an empty object. -/
def objectTexts : Texts := { toText := fun _ => "{}", isAlphanumeric := Char.isAlphanum }

def callNamed (name : String) : Json :=
  .obj [("function", .obj [("name", .str name), ("arguments", .obj [])])]

/-- A job that calls these tools, a token for each list, and says nothing of the reason to finish. -/
def callingJob (tokens : List (List String)) : JobTokens where
  body := tokens.map fun names =>
    { StreamToken.text "" with toolCalls := some (.arr (names.map callNamed)) }
  last := .done
  body_goes_on t ht := by
    obtain ⟨names, -, rfl⟩ := List.mem_map.mp ht
    rfl
  last_isFinal := rfl
  last_plain := rfl

def answerHead : ResponseHead := { id := "chatcmpl-7", created := 1767225600, model := "qwen3" }

/-- Two calls in two tokens are both `call_0`; of a call after one that is not valid the index is 1;
and where the only call is not valid, the reasons differ. -/
theorem answers_differ :
    ¬ SameAnswers objectTexts answerHead true (callingJob [["weather"], ["time"]]) ∧
    ¬ SameAnswers objectTexts answerHead true (callingJob [["no name", "time"]]) ∧
    ¬ SameAnswers objectTexts answerHead true (callingJob [["no name"]]) := by
  refine ⟨?_, ?_, ?_⟩
  · rintro ⟨c, -, -, -, hnumbered⟩
    have hindexes := hnumbered.indexes
    revert hindexes
    decide
  · rintro ⟨c, -, -, -, hnumbered⟩
    have hindexes := hnumbered.indexes
    revert hindexes
    decide
  · rintro ⟨c, hc, hsame, -⟩
    have hstreamed : (Merged.ofEvents (objectTexts.streamedEvents answerHead true false
        (callingJob [["no name"]]).results)).finishReason = some "tool_calls" := by decide
    have hcollected : objectTexts.collectCompletion answerHead (callingJob [["no name"]]).results =
        .ok ⟨answerHead, ⟨none, none⟩, "stop", ⟨0, 0, 0⟩⟩ := by decide
    obtain rfl := Except.ok.inj (hcollected.symm.trans hc)
    rw [hsame.finishReason] at hstreamed
    revert hstreamed
    decide

end Veronex
