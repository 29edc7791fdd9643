import Veronex.Http.ChatCompletion
import Veronex.Properties.McpLoop

/-! # What the tool loop takes from a chat request

`run_loop` of `bridge.rs` and `mcp_ollama_chat` of `openai_handlers.rs`. A call of `run_loop` that
submits no job is answered by an error, and no answer of the loop has tool calls
(`toolDeltas_mcpOllamaChat`), so a request loses nothing only where the loop neither declines nor is
asked for a tool of the client: `loses_nothing_iff`.
-/
namespace Veronex
set_option autoImplicit false
open Concurrency

/-! ## The loop behind a chat request -/

/-- What `chat_completions` looks at where the provider is Ollama. -/
structure ChatRoute where
  hasAnyImages : Bool
  useMcp : Option Bool
  /-- There is a bridge, and it has sessions. -/
  shouldIntercept : Bool
  caller : InferCaller
  acl : List Uuid

def ChatRoute.toMcp (r : ChatRoute) : Bool :=
  !(r.hasAnyImages || !r.useMcp.getD true) && r.shouldIntercept &&
    match r.caller.apiKeyId with
    | none => true
    | some _ => !r.acl.isEmpty

/-- A request of `mcp_ollama_chat`; its messages are in the format of Ollama, with the context of its
conversation. -/
structure McpRequest where
  caller : InferCaller
  model : String
  messages : List Json
  tools : Option (List Json)
  conversationId : Option Uuid
  stop : Option Json
  seed : Option ℕ
  frequencyPenalty : Option Float
  presencePenalty : Option Float
  includeUsage : Bool

/-- What `run_loop` finds. -/
structure McpEnv where
  /-- `fetch_mcp_cap_points` -/
  capPoints : Option ℕ
  /-- `prune_to_budget` -/
  pruneToBudget : List Json → List Json
  /-- The tools of the vector selection or of `get_all`. -/
  mcpOpenaiTools : List Json
  /-- `server_id_of` finds a server. -/
  advertised : String → Bool
  mcpLoopId : Uuid
  afterLoop : AfterLoop
  world : World

/-- The tools of the servers after those of the request, up to the cap. -/
def injectTools (allTools : List Json) : List Json → List Json
  | [] => allTools
  | tool :: rest =>
    if MAX_TOOLS_PER_REQUEST ≤ allTools.length then allTools else injectTools (allTools ++ [tool]) rest

def McpRequest.allTools (req : McpRequest) (env : McpEnv) : List Json :=
  injectTools (req.tools.getD []) env.mcpOpenaiTools

def McpRequest.loopCall (req : McpRequest) (env : McpEnv) (maxRounds : ℕ) : LoopCall :=
  { caller := req.caller, model := req.model, allTools := req.allTools env
    conversationId := req.conversationId, stop := req.stop, seed := req.seed
    frequencyPenalty := req.frequencyPenalty, presencePenalty := req.presencePenalty, maxRounds
    mcpLoopId := env.mcpLoopId }

/-- `run_loop` -/
def runLoop (b : Bridge) (req : McpRequest) (env : McpEnv) : Option McpLoopResult :=
  match maxRounds req.caller env.capPoints with
  | none => none
  | some rounds =>
    let messages := env.pruneToBudget req.messages
    if (req.allTools env).isEmpty then none
    else
      (runLoopForcedJson b (req.loopCall env rounds) messages env.afterLoop env.world).bind
        LoopRun.result

/-- The stream of `mcp_ollama_chat`, from what the loop has sent; nothing goes through the tap. -/
def mcpEvents (x : Texts) (head : ResponseHead) (includeUsage : Bool) :
    Option McpLoopResult → List ChatEvent
  | none => [.error "MCP loop failed to start", .done]
  | some r =>
    let openaiCalls := x.openaiCalls (.arr r.toolCalls)
    (if !r.streamedViaTap && r.content ≠ "" then [.chunk (.content head r.content)] else []) ++
      (if openaiCalls ≠ [] then [.chunk (.toolCalls head openaiCalls)] else []) ++
      [.chunk (.finish head r.finishReason)] ++
      (if includeUsage then
        [.chunk (.usageOnly head (.of r.promptTokens r.completionTokens))] else []) ++
      [.done]

def mcpOllamaChat (x : Texts) (head : ResponseHead) (b : Bridge) (req : McpRequest) (env : McpEnv) :
    List ChatEvent :=
  mcpEvents x head req.includeUsage (runLoop b req env)

/-! ## What the plain path offers -/

/-- The stream is one of a completion, which has a finish chunk. -/
def Completes (events : List ChatEvent) : Prop :=
  ∃ head reason, ChatEvent.chunk (.finish head reason) ∈ events

/-- `run_loop` submits nothing: MCP is disabled for the key, or there is no tool to offer. -/
def McpRequest.Declined (req : McpRequest) (env : McpEnv) : Prop :=
  maxRounds req.caller env.capPoints = none ∨ buildForcedJsonSystemPrompt (req.allTools env) = none

/-- A tool of the request, which no server advertises. -/
def McpRequest.OwnTool (req : McpRequest) (env : McpEnv) (name : String) : Prop :=
  (∃ tool ∈ req.tools.getD [], (tool.get "function").bind toolName = some name) ∧
    env.advertised name = false

/-- In some round of the call the model selects the tool. -/
def Selects (b : Bridge) (call : LoopCall) (messages : List Json) (name : String) : Prop :=
  ∃ round s schema jobId result args, Reaches b call messages round s ∧
    s.roundSchema call round = some schema ∧
    b.submit round (s.roundRequest call round schema) = .ok jobId ∧
    b.collectRound round (s.roundRequest call round schema) = .ok result ∧
    parseForcedAction b.fromStr result.content = .tool name args

/-- In some round of the loop the model selects the tool. -/
def McpRequest.Selected (b : Bridge) (req : McpRequest) (env : McpEnv) (name : String) : Prop :=
  ∃ rounds, maxRounds req.caller env.capPoints = some rounds ∧
    Selects b (req.loopCall env rounds) (env.pruneToBudget req.messages) name

/-- The loop hands a call of the tool to `execute_calls`. -/
def McpRequest.Executed (b : Bridge) (req : McpRequest) (env : McpEnv) (name : String) : Prop :=
  ∃ rounds run, maxRounds req.caller env.capPoints = some rounds ∧
    runLoopForcedJson b (req.loopCall env rounds) (env.pruneToBudget req.messages) env.afterLoop
      env.world = some run ∧
    ∃ invocation ∈ run.state.allMcpToolCalls, (invocation.get "function").bind toolName = some name

/-- The request gets what it would have without the loop. -/
structure LosesNothing (x : Texts) (head : ResponseHead) (b : Bridge) (req : McpRequest)
    (env : McpEnv) : Prop where
  plain : req.Declined env → Completes (mcpOllamaChat x head b req env)
  returned : ∀ name, req.OwnTool env name → req.Selected b env name →
    (∃ call ∈ toolDeltas (mcpOllamaChat x head b req env), call.name = name) ∧
      ¬ req.Executed b env name

section Loop
variable {x : Texts} {head : ResponseHead} {b : Bridge} {req : McpRequest} {env : McpEnv}

/-- No result of the loop has tool calls. -/
theorem returned_toolCalls {call : LoopCall} {c : AfterLoop} {w : World} {s : LoopState}
    {ended : LoopEnd} {r : McpLoopResult} (h : (s.returned b call c w ended).result = some r) :
    r.toolCalls = [] := by
  cases ended with
  | schemaFailed | submitFailed => cases h
  | roundFailed round e | final | refuse | loopDetected | exhausted =>
    obtain rfl := Option.some.inj h
    rfl

theorem runLoop_toolCalls {r : McpLoopResult} (h : runLoop b req env = some r) :
    r.toolCalls = [] := by
  unfold runLoop at h
  split at h
  · cases h
  · dsimp only at h
    split at h
    · cases h
    · obtain ⟨run, hrun, hresult⟩ := Option.bind_eq_some_iff.mp h
      obtain ⟨prompt, -, rfl⟩ := runLoop_eq hrun
      exact returned_toolCalls hresult

theorem runLoop_declined (h : req.Declined env) : runLoop b req env = none := by
  unfold runLoop
  rcases h with hcap | hprompt
  · rw [hcap]
  · split
    · rfl
    next rounds hrounds =>
      have hnone : buildForcedJsonSystemPrompt (req.loopCall env rounds).allTools = none := hprompt
      dsimp only
      split
      · rfl
      · rw [runLoopForcedJson, hnone]
        rfl

/-- Nor has the stream. -/
theorem toolDeltas_mcpOllamaChat : toolDeltas (mcpOllamaChat x head b req env) = [] := by
  unfold mcpOllamaChat
  cases hrun : runLoop b req env with
  | none => rfl
  | some r =>
    have hnone : x.openaiCalls (.arr r.toolCalls) = [] := by
      rw [runLoop_toolCalls hrun]
      rfl
    simp only [mcpEvents, hnone, toolDeltas_append, ne_eq, not_true_eq_false, if_false]
    split <;> split <;> rfl

/-- A request that is declined gets an error. -/
theorem not_completes_of_declined (h : req.Declined env) :
    ¬ Completes (mcpOllamaChat x head b req env) := by
  rintro ⟨head', reason, hmem⟩
  rw [mcpOllamaChat, runLoop_declined h] at hmem
  simp [mcpEvents] at hmem

/-- A request loses nothing exactly when the loop does not decline it and the model selects none of
its own tools. -/
theorem loses_nothing_iff (x : Texts) (head : ResponseHead) (b : Bridge) (req : McpRequest)
    (env : McpEnv) :
    LosesNothing x head b req env ↔
      ¬ req.Declined env ∧ ∀ name, req.OwnTool env name → ¬ req.Selected b env name := by
  constructor
  · intro h
    refine ⟨fun hdeclined => not_completes_of_declined hdeclined (h.plain hdeclined), ?_⟩
    intro name hown hselected
    obtain ⟨⟨call, hcall, -⟩, -⟩ := h.returned name hown hselected
    rw [toolDeltas_mcpOllamaChat] at hcall
    cases hcall
  · rintro ⟨hserved, hnever⟩
    exact ⟨fun hdeclined => absurd hdeclined hserved,
      fun name hown hselected => absurd hselected (hnever name hown)⟩

end Loop

/-! ## Samples -/

/-- A key asks, with a tool of its own. -/
def ownToolRequest : McpRequest :=
  { caller := .apiKey 1 .paid, model := "m", messages := sampleMessages, tools := some [sampleTool]
    conversationId := some 9, stop := none, seed := none, frequencyPenalty := none
    presencePenalty := none, includeUsage := false }

/-- The key has access to a server, which advertises nothing. -/
def ownToolRoute : ChatRoute :=
  { hasAnyImages := false, useMcp := none, shouldIntercept := true, caller := .apiKey 1 .paid
    acl := [3] }

def cappedEnv (cap : ℕ) : McpEnv :=
  { capPoints := some cap, pruneToBudget := id, mcpOpenaiTools := [], advertised := fun _ => false
    mcpLoopId := 7, afterLoop := sampleCleanup, world := sampleWorld }

/-- No server is found for any tool. -/
def unmappedBridge : Bridge :=
  { sampleBridge toolThenFinal with
    executeOne := fun round _ _ =>
      ("\x7b\"error\":\"unknown tool\",\"tool\":\"f\"\x7d", ⟨round, "f", "unknown_tool", false, 0, 0⟩) }

/-- In the first round the model selects the tool of the client. -/
theorem own_tool_selected : ownToolRequest.Selected unmappedBridge (cappedEnv 2) "f" := by
  have haction : parseForcedAction unmappedBridge.fromStr toolText = .tool "f" (.obj []) := by
    have hfromStr : unmappedBridge.fromStr (String.ofList (trim toolText.toList)) =
        some toolAnswer := fromStr_toolText toolThenFinal
    rw [parseForcedAction, hfromStr]
    rfl
  exact ⟨2, rfl, 0, _, _, 0, _, .obj [], ⟨_, rfl, by decide, rfl⟩, rfl, rfl, rfl, haction⟩

/-- A key of cap zero gets an error; and the call of a tool of the client is handed to
`execute_calls`, which knows no server for it, and is not returned. -/
theorem mcp_takes_away :
    (ownToolRoute.toMcp = true ∧ ownToolRequest.Declined (cappedEnv 0) ∧
      ¬ Completes (mcpOllamaChat objectTexts answerHead unmappedBridge ownToolRequest
        (cappedEnv 0))) ∧
    ownToolRoute.toMcp = true ∧
      ConformingRun unmappedBridge (ownToolRequest.loopCall (cappedEnv 2) 2) sampleMessages ∧
      ownToolRequest.OwnTool (cappedEnv 2) "f" ∧
      ownToolRequest.Selected unmappedBridge (cappedEnv 2) "f" ∧
      ownToolRequest.Executed unmappedBridge (cappedEnv 2) "f" ∧
      toolDeltas (mcpOllamaChat objectTexts answerHead unmappedBridge ownToolRequest
        (cappedEnv 2)) = [] := by
  refine ⟨⟨rfl, .inl rfl, not_completes_of_declined (.inl rfl)⟩, rfl, ?_, ?_, own_tool_selected, ?_,
    toolDeltas_mcpOllamaChat⟩
  · exact conforming_toolThenFinal le_rfl rfl fun _ _ => rfl
  · exact ⟨⟨sampleTool, List.mem_singleton_self _, rfl⟩, rfl⟩
  · exact ⟨2, _, rfl, rfl, _, List.mem_singleton_self _, rfl⟩

end Veronex
