import Veronex.Conversation.Record
import Veronex.Mcp.ForcedJson

/-! # The context of a conversation

`context_assembler.rs`, `session_handoff.rs`, and what `load_conversation_context`
(`openai_handlers.rs`) and `chat` (`ollama_compat_handlers.rs`) do with a record once they have it.
-/
namespace Veronex
set_option autoImplicit false

/-- `LabSettings`. The products with a ratio, which are taken in `f32`, are functions of
`configured_ctx`. -/
structure LabSettings where
  compressionModel : Option String
  /-- `(configured_ctx as f32 * context_budget_ratio) as usize` -/
  contextBudget : ℕ → ℕ
  recentVerbatimWindow : ℤ
  handoffEnabled : Bool
  /-- `(configured_ctx as f32 * handoff_threshold) as u32` -/
  handoffThreshold : ℕ → ℕ

/-- `regular_turns` -/
def regularTurns : ConversationRecord → List (TurnRecord × Option CompressedTurn)
  | [] => []
  | .handoff _ :: rest => regularTurns rest
  | .regular turn compressed :: rest => (turn, compressed) :: regularTurns rest

@[simp] theorem regularTurns_append (r s : ConversationRecord) :
    regularTurns (r ++ s) = regularTurns r ++ regularTurns s := by
  induction r with
  | nil => rfl
  | cons turn rest ih =>
    cases turn with
    | handoff turn => exact ih
    | regular turn compressed => exact congrArg ((turn, compressed) :: ·) ih

@[simp] theorem regularTurns_map_regular (turns : List (TurnRecord × Option CompressedTurn)) :
    regularTurns (turns.map fun t => .regular t.1 t.2) = turns := by
  induction turns with
  | nil => rfl
  | cons t turns ih => exact congrArg (t :: ·) ih

/-! ## Assembly -/

def message (role content : String) : Json := .obj [("role", .str role), ("content", .str content)]

def contentOf (m : Json) : Option String := (m.get "content").bind Json.asStr

@[simp] theorem contentOf_message (role content : String) :
    contentOf (message role content) = some content := by
  simp [contentOf, message, Json.get, Json.asStr, List.lookup_cons]

/-- The prompt and the result as they are. -/
def rawMessages (turn : TurnRecord) : List Json :=
  message "user" turn.prompt ::
    (turn.result.map fun result => message "assistant" (String.ofList result)).toList

/-- The messages of a turn; inside the window they are never the compressed ones. -/
def turnMessages (verbatim : Bool) (turn : TurnRecord × Option CompressedTurn) : List Json :=
  match verbatim, turn.2 with
  | false, some compressed => [message "user" compressed.summary]
  | false, none | true, _ => rawMessages turn.1

/-- `recent_verbatim_window as usize`, which wraps a negative number. -/
def LabSettings.window (lab : LabSettings) : ℕ := (lab.recentVerbatimWindow % 2 ^ 64).toNat

/-- The messages before the budget is enforced. -/
def historyMessages (lab : LabSettings) (turns : List (TurnRecord × Option CompressedTurn)) :
    List Json :=
  turns.zipIdx.flatMap fun p =>
    turnMessages (decide (turns.length - lab.window ≤ p.2)) p.1

/-- `estimate_tokens_msgs` -/
def estimateTokensMsgs (messages : List Json) : ℕ :=
  ((messages.filterMap contentOf).map estimateTokens).sum

/-- Drops the oldest messages, but not the last one. -/
def enforceBudget (budget : ℕ) : List Json → List Json
  | [] => []
  | [m] => [m]
  | m :: n :: rest =>
    if budget < estimateTokensMsgs (m :: n :: rest) then enforceBudget budget (n :: rest)
    else m :: n :: rest

def assemble (record : ConversationRecord) (configuredCtx : ℕ) (lab : LabSettings) : List Json :=
  enforceBudget (lab.contextBudget configuredCtx) (historyMessages lab (regularTurns record))

/-! ## Handoff -/

/-- What a turn counts for. -/
def turnTokens (turn : TurnRecord × Option CompressedTurn) : ℕ :=
  (match turn.2 with
    | some compressed => compressed.compressedTokens
    | none => estimateTokens turn.1.prompt % 2 ^ 32) +
  match turn.1.result with
    | some result => estimateTokens (String.ofList result) % 2 ^ 32
    | none => 0

/-- `count_record_tokens`, in `u32`. -/
def countRecordTokens (record : ConversationRecord) : ℕ :=
  ((regularTurns record).map turnTokens).sum % 2 ^ 32

def shouldHandoff (record : ConversationRecord) (configuredCtx : ℕ) (lab : LabSettings) : Bool :=
  lab.handoffEnabled && configuredCtx != 0 &&
    lab.handoffThreshold configuredCtx ≤ countRecordTokens record

/-- The text that is summarized. -/
def handoffHistory (record : ConversationRecord) : String :=
  "\n".intercalate ((regularTurns record).map fun t =>
    "User: " ++ t.1.prompt ++ "\nAssistant: " ++
      ((t.1.result.map String.ofList).getD "(no response)") ++ "\n")

/-- `generate_master_summary`; `ask` is what the model answers to the text. -/
def masterSummary (ask : String → Reply) (record : ConversationRecord) : Option String :=
  match ask (handoffHistory record) with
  | .content text =>
    let summary := String.ofList (trim text.toList)
    if summary = "" then none else some summary
  | .ok | .error => none

/-- What a request finds outside of the record. -/
structure LoadEnv where
  lab : LabSettings
  configuredCtx : ℕ
  /-- `check_multiturn_eligibility`, which looks at the model and the settings, where the handler asks
  it: `chat` does so only if there is more than one user message. -/
  eligible : Bool
  /-- Whether an Ollama provider is active. -/
  provider : Bool
  model : String
  ask : String → Reply
  newId : Uuid
  createdAt : String
  putOk : Bool

/-- `perform_handoff`: the new conversation, its summary and the record that is stored for it. -/
def performHandoff (env : LoadEnv) (record : ConversationRecord) (conversation : Uuid) :
    Option (Uuid × String × ConversationRecord) :=
  match masterSummary env.ask record with
  | none => none
  | some summary =>
    if env.putOk then
      some (env.newId, summary,
        [.handoff
          { masterSummary := summary
            summaryModel := env.lab.compressionModel.getD env.model
            previousConversationId := conversation
            previousTurnCount := (regularTurns record).length % 2 ^ 32
            createdAt := env.createdAt }])
    else none

/-! ## Requests -/

inductive Surface
  | openai
  | ollama

def isUser (m : Json) : Bool := (m.get "role").bind Json.asStr == some "user"

/-- What stays of the messages of the request. -/
def Surface.kept : Surface → List Json → List Json
  | .openai, messages => messages
  | .ollama, messages => (messages.reverse.find? isUser).toList

/-- The messages put before those of the request, the conversation the job is of, and the record a
handoff has stored; `none` where the request is rejected. -/
def conversationContext (env : LoadEnv) (conversation : Uuid) (record : ConversationRecord) :
    Option (List Json × Uuid × Option ConversationRecord) :=
  let assembled := (assemble record env.configuredCtx env.lab, conversation, none)
  if !env.eligible then none
  else if shouldHandoff record env.configuredCtx env.lab && env.provider then
    match performHandoff env record conversation with
    | some (newId, summary, newRecord) =>
      some ([message "user" ("[Context from previous session]\n" ++ summary)], newId, some newRecord)
    | none => some assembled
  else some assembled

/-- The messages of the job. -/
def jobMessages (surface : Surface) (env : LoadEnv) (conversation : Uuid)
    (record : ConversationRecord) (messages : List Json) : Option (List Json) :=
  (conversationContext env conversation record).map fun c => c.1 ++ surface.kept messages

end Veronex
