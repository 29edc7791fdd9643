import Mathlib.Algebra.GroupWithZero.Nat
import Mathlib.Data.List.DropRight
import Mathlib.Tactic.Common

/-! # Value objects and the job entity

`domain/value_objects.rs`, `domain/enums.rs`, `domain/entities/mod.rs` and the request type of
`ports/inbound/inference_use_case.rs`. A `Uuid` is its number; a time is its unix time in
milliseconds; the `f64` sampling options are carried, never computed with.
-/
namespace Veronex
set_option autoImplicit false

/-! ## Identifiers -/

abbrev Uuid := ℕ

/-- `instance_id` of a gateway process. -/
abbrev InstanceId := ℕ

abbrev ProviderId := Uuid

/-- Unix time in milliseconds. -/
abbrev Millis := ℕ

/-! ## Enumerations -/

inductive JobStatus
  | pending
  | running
  | completed
  | failed
  | cancelled
  deriving DecidableEq, Repr

namespace JobStatus

/-- The value of the `status` column. -/
def asStr : JobStatus → String
  | pending => "pending"
  | running => "running"
  | completed => "completed"
  | failed => "failed"
  | cancelled => "cancelled"

def fromStr : String → Option JobStatus
  | "pending" => some pending
  | "running" => some running
  | "completed" => some completed
  | "failed" => some failed
  | "cancelled" => some cancelled
  | _ => none

/-- What `save` and the updates store is what `row_to_job` parses back, so a row can carry the
status itself. -/
theorem fromStr_asStr (s : JobStatus) : fromStr s.asStr = some s := by
  cases s <;> rfl

/-- `matches!(status, Completed | Failed | Cancelled)`. -/
def isTerminal : JobStatus → Bool
  | completed | failed | cancelled => true
  | pending | running => false

end JobStatus

inductive ProviderType
  | ollama
  | gemini
  deriving DecidableEq, Repr

inductive JobSource
  | api
  | test
  | analyzer
  deriving DecidableEq, Repr

inductive ApiFormat
  | openaiCompat
  | ollamaNative
  | geminiNative
  | veronexNative
  deriving DecidableEq, Repr

inductive KeyTier
  | free
  | paid
  deriving DecidableEq, Repr

/-! ## Validated strings -/

inductive DomainError
  | validation (msg : String)
  | queueFull (msg : String)
  | internal (msg : String)
  deriving DecidableEq, Repr

/-- The text of an error. -/
def DomainError.display : DomainError → String
  | .validation msg => "validation error: " ++ msg
  | .queueFull msg => "queue full: " ++ msg
  | .internal msg => msg

/-- `ModelName(String)`: never empty. -/
def ModelName := {s : String // s ≠ ""}
  deriving DecidableEq

def ModelName.asStr (m : ModelName) : String := m.val

def ModelName.new (s : String) : Except DomainError ModelName :=
  if h : s = "" then .error (.validation "model name cannot be empty") else .ok ⟨s, h⟩

/-- `Prompt(String)`: never empty. -/
def Prompt := {s : String // s ≠ ""}
  deriving DecidableEq

def Prompt.asStr (p : Prompt) : String := p.val

def Prompt.new (s : String) : Except DomainError Prompt :=
  if h : s = "" then .error (.validation "prompt cannot be empty") else .ok ⟨s, h⟩

/-- The model of the samples has a name. -/
theorem m_ne_empty : "m" ≠ "" := by decide

theorem ModelName.new_ok {s : String} {m : ModelName} (h : ModelName.new s = .ok m) :
    m.asStr = s := by
  unfold ModelName.new at h
  split at h
  · cases h
  · cases h; rfl

theorem Prompt.new_ok {s : String} {p : Prompt} (h : Prompt.new s = .ok p) : p.asStr = s := by
  unfold Prompt.new at h
  split at h
  · cases h
  · cases h; rfl

/-! ## JSON and stream tokens -/

/-- `serde_json::Value`; a number is its source text. -/
inductive Json
  | null
  | bool (b : Bool)
  | num (text : String)
  | str (s : String)
  | arr (items : List Json)
  | obj (fields : List (String × Json))

structure StreamToken where
  value : String
  isFinal : Bool
  promptTokens : Option ℕ
  completionTokens : Option ℕ
  cachedTokens : Option ℕ
  toolCalls : Option Json
  finishReason : Option String
  isPhaseBoundary : Bool

namespace StreamToken

def text (value : String) : StreamToken :=
  { value, isFinal := false, promptTokens := none, completionTokens := none, cachedTokens := none
    toolCalls := none, finishReason := none, isPhaseBoundary := false }

def done : StreamToken := { text "" with isFinal := true }

def phaseBoundary : StreamToken := { text "" with isPhaseBoundary := true }

end StreamToken

structure VisionAnalysis where
  analysis : String
  visionModel : String
  imageCount : ℕ
  analysisTokens : ℕ

/-! ## The job entity -/

/-- The fields of a request that decide what the provider generates. -/
structure GenerationInput where
  prompt : String
  messages : Option Json
  tools : Option Json
  images : Option (List String)
  stop : Option Json
  seed : Option ℕ
  responseFormat : Option Json
  frequencyPenalty : Option Float
  presencePenalty : Option Float
  maxTokens : Option ℕ

structure InferenceJob where
  id : Uuid
  prompt : Prompt
  promptPreview : Option String
  modelName : ModelName
  status : JobStatus
  providerType : ProviderType
  createdAt : Millis
  startedAt : Option Millis
  completedAt : Option Millis
  error : Option String
  resultText : Option String
  apiKeyId : Option Uuid
  accountId : Option Uuid
  latencyMs : Option ℕ
  ttftMs : Option ℕ
  promptTokens : Option ℕ
  completionTokens : Option ℕ
  cachedTokens : Option ℕ
  source : JobSource
  providerId : Option ProviderId
  apiFormat : ApiFormat
  messages : Option Json
  tools : Option Json
  requestPath : Option String
  queueTimeMs : Option ℕ
  cancelledAt : Option Millis
  conversationId : Option Uuid
  toolCallsJson : Option Json
  messagesHash : Option String
  messagesPrefixHash : Option String
  failureReason : Option String
  images : Option (List String)
  imageKeys : Option (List String)
  stop : Option Json
  seed : Option ℕ
  responseFormat : Option Json
  frequencyPenalty : Option Float
  presencePenalty : Option Float
  mcpLoopId : Option Uuid
  maxTokens : Option ℕ
  visionAnalysis : Option VisionAnalysis

/-- What a job asks the provider for: prompt, messages, tools, images and sampling options. -/
def InferenceJob.generationInput (j : InferenceJob) : GenerationInput where
  prompt := j.prompt.asStr
  messages := j.messages
  tools := j.tools
  images := j.images
  stop := j.stop
  seed := j.seed
  responseFormat := j.responseFormat
  frequencyPenalty := j.frequencyPenalty
  presencePenalty := j.presencePenalty
  maxTokens := j.maxTokens

structure SubmitJobRequest where
  prompt : String
  modelName : String
  providerType : ProviderType
  geminiTier : Option String
  apiKeyId : Option Uuid
  accountId : Option Uuid
  source : JobSource
  apiFormat : ApiFormat
  messages : Option Json
  tools : Option Json
  requestPath : Option String
  conversationId : Option Uuid
  keyTier : Option KeyTier
  images : Option (List String)
  stop : Option Json
  seed : Option ℕ
  responseFormat : Option Json
  frequencyPenalty : Option Float
  presencePenalty : Option Float
  mcpLoopId : Option Uuid
  maxTokens : Option ℕ
  visionAnalysis : Option VisionAnalysis

def SubmitJobRequest.generationInput (r : SubmitJobRequest) : GenerationInput where
  prompt := r.prompt
  messages := r.messages
  tools := r.tools
  images := r.images
  stop := r.stop
  seed := r.seed
  responseFormat := r.responseFormat
  frequencyPenalty := r.frequencyPenalty
  presencePenalty := r.presencePenalty
  maxTokens := r.maxTokens

/-! ## The prompt preview -/

/-- `char::is_whitespace`: the code points of the Unicode property `White_Space`. -/
def isWhitespace (c : Char) : Bool :=
  let n := c.toNat
  (0x09 ≤ n && n ≤ 0x0D) || n == 0x20 || n == 0x85 || n == 0xA0 || n == 0x1680 ||
    (0x2000 ≤ n && n ≤ 0x200A) || n == 0x2028 || n == 0x2029 || n == 0x202F || n == 0x205F ||
    n == 0x3000

/-- `str::trim`. -/
def trim (s : List Char) : List Char := (s.dropWhile isWhitespace).rdropWhile isWhitespace

/-- `str::trim_start_matches` for a string pattern: drops the pattern as often as it is a prefix.
The fuel is the number of characters, of which every round drops at least one. -/
def trimStartMatchesAux (pat : List Char) : ℕ → List Char → List Char
  | 0, s => s
  | fuel + 1, s =>
    if pat.isPrefixOf s then trimStartMatchesAux pat fuel (s.drop pat.length) else s

def trimStartMatches (pat s : List Char) : List Char := trimStartMatchesAux pat s.length s

/-- The preview `submit` stores: the prompt without its `/no_think` prefix, cut after nine
characters when it has more than ten. -/
def promptPreview (prompt : String) : String :=
  let promptSrc := trim (trimStartMatches "/no_think".toList prompt.toList)
  if promptSrc.length ≤ 10 then String.ofList promptSrc
  else String.ofList (promptSrc.take 9 ++ ['…'])

example : promptPreview "hello" = "hello" := by decide

end Veronex
