import Veronex.Foundation.ForLoop
import Veronex.Mcp.ForcedJson
import Veronex.Inference.World

/-! # The tool loop

`run_loop_forced_json` of `infrastructure/outbound/mcp/bridge.rs`: the rounds, and after the loop the
roll-up onto the first job, the turn and the counters. `Bridge` is what the loop calls; a round of it
may answer by anything.

`finished` and `observations` are logs kept for the statements.
-/
namespace Veronex
set_option autoImplicit false
open Concurrency

def MAX_ROUNDS : ℕ := 5
def MAX_TOOLS_PER_REQUEST : ℕ := 32
def LOOP_DETECT_THRESHOLD : ℕ := 3
def MAX_TOOL_RESULT_BYTES : ℕ := 32768
def U32_MAX : ℕ := 2 ^ 32 - 1
def I32_MAX : ℕ := 2 ^ 31 - 1

/-! ## Callers, calls and answers -/

inductive InferCaller
  | apiKey (id : Uuid) (tier : KeyTier)
  | session (sub : Uuid)

namespace InferCaller

def apiKeyId : InferCaller → Option Uuid
  | apiKey id _ => some id
  | session _ => none

def accountId : InferCaller → Option Uuid
  | apiKey _ _ => none
  | session sub => some sub

def keyTier : InferCaller → Option KeyTier
  | apiKey _ tier => some tier
  | session _ => none

def source : InferCaller → JobSource
  | apiKey _ _ => .api
  | session _ => .test

end InferCaller

/-- The bound on the rounds of a call; `none` when MCP is disabled for the key. `cap` is the `u8` of
`fetch_mcp_cap_points`. -/
def maxRounds (caller : InferCaller) (cap : Option ℕ) : Option ℕ :=
  match caller.apiKeyId with
  | some _ => if cap = some 0 then none else some ((cap.map (min · MAX_ROUNDS)).getD MAX_ROUNDS)
  | none => some MAX_ROUNDS

/-- The arguments of `run_loop_forced_json`. -/
structure LoopCall where
  caller : InferCaller
  model : String
  allTools : List Json
  conversationId : Option Uuid
  stop : Option Json
  seed : Option ℕ
  frequencyPenalty : Option Float
  presencePenalty : Option Float
  maxRounds : ℕ
  mcpLoopId : Uuid

structure ToolCallRecord where
  loopRound : ℕ
  namespacedName : String
  outcome : String
  cacheHit : Bool
  latencyMs : ℤ
  resultBytes : ℤ

structure RoundResult where
  content : String
  promptTokens : ℕ
  completionTokens : ℕ

inductive RoundError
  | lifecycleTimeout
  | firstTokenTimeout
  | streamIdleTimeout
  | totalTimeout
  | stream (e : String)

structure McpLoopResult where
  content : String
  toolCalls : List Json
  promptTokens : ℕ
  completionTokens : ℕ
  finishReason : String
  rounds : ℕ
  streamedViaTap : Bool

/-- What the loop calls, round by round. -/
structure Bridge where
  /-- `serde_json::from_str`. -/
  fromStr : String → Option Json
  /-- `serde_json::to_string`. -/
  toStr : Json → String
  quickArgsHash : String → String
  /-- `{:?}` of a string. -/
  debugStr : String → String
  submit : ℕ → SubmitJobRequest → Except DomainError Uuid
  /-- `submit` makes a new id. -/
  submit_fresh : ∀ i j req req' id, submit i req = .ok id → submit j req' = .ok id → i = j
  collectRound : ℕ → SubmitJobRequest → Except RoundError RoundResult
  /-- `execute_one`, in a round and for the job of that round. -/
  executeOne : ℕ → Uuid → Json → String × ToolCallRecord

/-- `{:?}`. -/
def RoundError.debug (b : Bridge) : RoundError → String
  | lifecycleTimeout => "LifecycleTimeout"
  | firstTokenTimeout => "FirstTokenTimeout"
  | streamIdleTimeout => "StreamIdleTimeout"
  | totalTimeout => "TotalTimeout"
  | stream e => s!"Stream({b.debugStr e})"

/-! ## Messages -/

def chatMessage (role content : String) : Json :=
  .obj [("role", .str role), ("content", .str content)]

def hasRole (role : String) (m : Json) : Bool := (m.get "role").bind Json.asStr == some role

def extractLastUserPrompt (messages : List Json) : String :=
  ((messages.reverse.find? (hasRole "user")).bind fun m => (m.get "content").bind Json.asStr).getD ""

def FINAL_SYNTHESIS : Json :=
  chatMessage "system" ("This is your final synthesis round. " ++
    "You have gathered all the tool results you need. " ++
    "Now produce a complete, well-structured answer in " ++
    "the user's language. Output " ++
    "\x7b\"action\":\"final\",\"answer\":\"...\"\x7d.")

/-- The longest prefix of at most this many bytes. -/
def truncateAtCharBoundary : ℕ → List Char → List Char
  | _, [] => []
  | maxLen, c :: s =>
    if c.utf8Size ≤ maxLen then c :: truncateAtCharBoundary (maxLen - c.utf8Size) s else []

/-- The content of the message a tool result becomes. -/
def observationText (text : String) : String :=
  "Observation: " ++ String.ofList (truncateAtCharBoundary MAX_TOOL_RESULT_BYTES text.toList)

def serverSlugFromNamespaced (namespaced : String) : String :=
  match "mcp_".toList.isPrefixOf? namespaced.toList with
  | none => ""
  | some s => if '_' ∈ s then String.ofList (s.takeWhile (· ≠ '_')) else ""

/-! ## A round -/

structure LoopState where
  messages : List Json
  totalPromptTokens : ℕ
  totalCompletionTokens : ℕ
  content : String
  rounds : ℕ
  firstJobId : Option Uuid
  intermediateJobIds : List Uuid
  callSigCounts : String × String → ℕ
  allMcpToolCalls : List Json
  /-- The rounds collected so far. -/
  finished : List RoundResult
  /-- The tool results so far. -/
  observations : List String

def LoopState.start (messages : List Json) : LoopState :=
  { messages, totalPromptTokens := 0, totalCompletionTokens := 0, content := "", rounds := 0
    firstJobId := none, intermediateJobIds := [], callSigCounts := fun _ => 0
    allMcpToolCalls := [], finished := [], observations := [] }

/-- How the loop is left. -/
inductive LoopEnd
  | final
  | refuse
  | loopDetected
  | exhausted
  | schemaFailed
  | submitFailed
  | roundFailed (round : ℕ) (e : RoundError)

abbrev RoundEnd := LoopStep LoopState LoopEnd

/-- The request of a round. -/
def LoopCall.request (call : LoopCall) (messages : List Json) (schema : Json) : SubmitJobRequest :=
  { prompt := extractLastUserPrompt messages, modelName := call.model, providerType := .ollama
    geminiTier := none, apiKeyId := call.caller.apiKeyId, accountId := call.caller.accountId
    source := call.caller.source, apiFormat := .openaiCompat, messages := some (.arr messages)
    tools := none, requestPath := some "/v1/chat/completions"
    conversationId := call.conversationId, keyTier := call.caller.keyTier, images := none
    stop := call.stop, seed := call.seed, responseFormat := some (schemaToResponseFormat schema)
    frequencyPenalty := call.frequencyPenalty, presencePenalty := call.presencePenalty
    mcpLoopId := some call.mcpLoopId, maxTokens := none, visionAnalysis := none }

namespace LoopState
variable (b : Bridge) (call : LoopCall) (round : ℕ) (s : LoopState)

def isLastRound : Bool := decide (round + 1 = call.maxRounds) && !s.allMcpToolCalls.isEmpty

def roundSchema : Option Json :=
  if s.isLastRound call round then some buildTerminalSchema
  else buildForcedJsonSchema call.allTools (allowFinalForRound s.allMcpToolCalls.length)

/-- The messages a round is submitted with. -/
def roundMessages : List Json :=
  if s.isLastRound call round then s.messages ++ [FINAL_SYNTHESIS] else s.messages

def submitted (jobId : Uuid) : LoopState :=
  match s.firstJobId with
  | none => { s with firstJobId := some jobId }
  | some _ => { s with intermediateJobIds := s.intermediateJobIds ++ [jobId] }

/-- The totals are `u32`s and saturate. -/
def collected (result : RoundResult) : LoopState :=
  { s with
    totalPromptTokens := min (s.totalPromptTokens + result.promptTokens) U32_MAX
    totalCompletionTokens := min (s.totalCompletionTokens + result.completionTokens) U32_MAX
    rounds := round + 1
    finished := s.finished ++ [result] }

def counted (sig : String × String) : LoopState :=
  { s with callSigCounts := Function.update s.callSigCounts sig (s.callSigCounts sig + 1) }

/-- A tool is executed; its result goes into the messages. -/
def executed (jobId : Uuid) (name : String) (args : Json) : LoopState :=
  let argsStr := b.toStr args
  let function : Json := .obj [("name", .str name), ("arguments", .str argsStr)]
  let results := [Json.obj [("function", function)]].map (b.executeOne round jobId)
  let action := b.toStr (.obj [("action", .str "tool"), ("tool", .str name), ("args", args)])
  let text := (results.head?.map Prod.fst).getD "(no result)"
  let invocations := results.head?.toList.map fun (text, rec) => Json.obj
    [("function", function), ("round", .num (toString rec.loopRound)),
      ("server_slug", .str (serverSlugFromNamespaced rec.namespacedName)), ("result", .str text),
      ("outcome", .str rec.outcome), ("cache_hit", .bool rec.cacheHit),
      ("latency_ms", .num (toString rec.latencyMs)),
      ("result_bytes", .num (toString rec.resultBytes))]
  { s with
    messages := s.messages ++ [chatMessage "assistant" action, chatMessage "user" (observationText text)]
    allMcpToolCalls := s.allMcpToolCalls ++ invocations
    observations := s.observations ++ [text] }

/-- What follows an answer of the model. -/
def acted (jobId : Uuid) : ForcedAction → RoundEnd
  | .tool name args =>
    let sig := (name, b.quickArgsHash (b.toStr args))
    let s := s.counted sig
    if LOOP_DETECT_THRESHOLD ≤ s.callSigCounts sig then
      let count := s.callSigCounts sig
      let content := s!"(Loop detected: '{name}' called {count} times. Stopping.)"
      .stop { s with content } .loopDetected
    else .next (s.executed b round jobId name args)
  | .final answer => .stop { s with content := answer } .final
  | .refuse reason => .stop { s with content := REFUSAL_PREFIX ++ reason } .refuse

def runRound : RoundEnd :=
  match s.roundSchema call round with
  | none => .stop s .schemaFailed
  | some schema =>
    let messages := s.roundMessages call round
    let req := call.request messages schema
    match b.submit round req with
    | .error _ => .stop { s with messages } .submitFailed
    | .ok jobId =>
      let s := { s with messages }.submitted jobId
      match b.collectRound round req with
      | .error e => .stop s (.roundFailed round e)
      | .ok result =>
        (s.collected round result).acted b round jobId (parseForcedAction b.fromStr result.content)

end LoopState

/-- The body of the loop. -/
def loopBody (b : Bridge) (call : LoopCall) (round : ℕ) (s : LoopState) : RoundEnd :=
  s.runRound b call round

/-- The rounds of a call, up to its bound. -/
def runRounds (b : Bridge) (call : LoopCall) (s : LoopState) : LoopState × LoopEnd :=
  let (s, ended) := forLoop (loopBody b call) call.maxRounds 0 s
  (s, ended.getD .exhausted)

/-! ## After the loop -/

/-- The calls after the loop; one that fails is logged, and the next one made. -/
inductive AfterLoopCall
  | rollUp
  | deleteIntermediate
  | getConversation
  | putConversation
  | countTurn
  deriving DecidableEq

/-- What the calls after the loop are answered, and when. -/
structure AfterLoop where
  now : Millis
  succeeds : AfterLoopCall → Bool

namespace LoopState
variable (call : LoopCall) (c : AfterLoop) (s : LoopState)

/-- The turn of the loop. -/
def turn (firstJobId : Uuid) : TurnRecord :=
  { jobId := firstJobId, prompt := extractLastUserPrompt s.messages
    messages := some (.arr s.messages)
    toolCalls := if s.allMcpToolCalls.isEmpty then none else some (.arr s.allMcpToolCalls)
    result := if s.content = "" then none else some s.content.toList
    modelName := some call.model, createdAt := c.now, visionAnalysis := none }

def s3Key (firstJobId : Uuid) : S3Key :=
  { owner := (call.caller.accountId.or call.caller.apiKeyId).getD firstJobId
    date := dateOf c.now, conversation := call.conversationId.getD firstJobId }

/-- `UPDATE inference_jobs SET prompt_tokens = .., completion_tokens = ..`. -/
def rollUp (firstJobId : Uuid) (w : World) : World :=
  if c.succeeds .rollUp then
    w.updateRow firstJobId fun row =>
      { row with
        promptTokens := some (min s.totalPromptTokens I32_MAX)
        completionTokens := some (min s.totalCompletionTokens I32_MAX) }
  else w

/-- `DELETE FROM inference_jobs WHERE id = ANY(..)`. -/
def deleteIntermediate (w : World) : World :=
  if !s.intermediateJobIds.isEmpty && c.succeeds .deleteIntermediate then
    { w with rows := fun id => if id ∈ s.intermediateJobIds then none else w.rows id }
  else w

/-- The key and the turn that are written. -/
def writtenTurn (w : World) : Option (S3Key × TurnRecord) :=
  if w.messageStore && c.succeeds .putConversation then
    s.firstJobId.map fun firstJobId => (s3Key call c firstJobId, s.turn call c firstJobId)
  else none

/-- A record that cannot be read is taken for a new one. -/
def writeTurn (w : World) : World :=
  match s.writtenTurn call c w with
  | some (key, turn) =>
    let turns := if c.succeeds .getConversation then (w.conversations key).getD [] else []
    w.apply (.putConversation key (turns ++ [turn]))
  | none => w

def countTurn (w : World) : World :=
  match call.conversationId with
  | some conversation =>
    if c.succeeds .countTurn then
      w.apply (.updateCounters conversation (min s.totalPromptTokens I32_MAX)
        (min s.totalCompletionTokens I32_MAX))
    else w
  | none => w

def cleanUp (w : World) : World :=
  match s.firstJobId with
  | none => w
  | some firstJobId =>
    s.countTurn call c (s.writeTurn call c (s.deleteIntermediate c (s.rollUp c firstJobId w)))

end LoopState

/-- What a call of the loop leaves. `written` is what it handed to `put_conversation`. -/
structure LoopRun where
  state : LoopState
  ended : LoopEnd
  result : Option McpLoopResult
  written : Option (S3Key × TurnRecord)
  world : World

/-- `w` is the shared state when the loop is left. -/
def LoopState.returned (b : Bridge) (call : LoopCall) (c : AfterLoop) (w : World) (s : LoopState)
    (ended : LoopEnd) : LoopRun :=
  let result (content finishReason : String) (rounds : ℕ) : McpLoopResult :=
    { content, toolCalls := [], promptTokens := s.totalPromptTokens
      completionTokens := s.totalCompletionTokens, finishReason, rounds, streamedViaTap := false }
  match ended with
  | .schemaFailed | .submitFailed =>
    { state := s, ended, result := none, written := none, world := w }
  | .roundFailed round e =>
    let content := s!"Error: round {round} failed ({e.debug b})"
    { state := s, ended, result := some (result content "error" round), written := none, world := w }
  | .final | .refuse | .loopDetected | .exhausted =>
    { state := s, ended, result := some (result s.content "stop" s.rounds)
      written := s.writtenTurn call c w, world := s.cleanUp call c w }

/-- The state the loop starts in. -/
def initialState (systemPrompt : String) (messages : List Json) : LoopState :=
  .start (chatMessage "system" systemPrompt :: messages)

/-- `none`: no tool has a name. -/
def runLoopForcedJson (b : Bridge) (call : LoopCall) (messages : List Json) (c : AfterLoop)
    (w : World) : Option LoopRun :=
  (buildForcedJsonSystemPrompt call.allTools).map fun systemPrompt =>
    let (s, ended) := runRounds b call (initialState systemPrompt messages)
    s.returned b call c w ended

end Veronex
