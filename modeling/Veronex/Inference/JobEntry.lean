import Veronex.Domain.Constants

/-! # Rows and in-memory entries of a job

`infrastructure/outbound/persistence/job_repository.rs` and the `JobEntry` of
`application/use_cases/inference/mod.rs`. The columns are those `save`, `row_to_job` and the
updates name; `image_keys` is left to the upload task, which nothing here reads.
-/
namespace Veronex
set_option autoImplicit false

/-! ## Rows of `inference_jobs` -/

structure JobRow where
  id : Uuid
  promptPreview : Option String
  modelName : String
  providerType : ProviderType
  status : JobStatus
  error : Option String
  createdAt : Millis
  startedAt : Option Millis
  completedAt : Option Millis
  apiKeyId : Option Uuid
  accountId : Option Uuid
  latencyMs : Option ℕ
  ttftMs : Option ℕ
  promptTokens : Option ℕ
  completionTokens : Option ℕ
  cachedTokens : Option ℕ
  source : JobSource
  providerId : Option ProviderId
  apiFormat : ApiFormat
  requestPath : Option String
  conversationId : Option Uuid
  queueTimeMs : Option ℕ
  cancelledAt : Option Millis
  messagesHash : Option String
  messagesPrefixHash : Option String
  failureReason : Option String
  imageKeys : Option (List String)
  mcpLoopId : Option Uuid
  hasToolCalls : Bool
  resultPreview : Option String

/-- The row `save` inserts. `hashes` is `compute_message_hashes`. -/
def JobRow.ofJob (hashes : Json → Option (String × String)) (job : InferenceJob) : JobRow :=
  let pair := match job.messagesHash, job.messagesPrefixHash with
    | some h, some p => some (h, p)
    | _, _ => job.messages.bind hashes
  { id := job.id, promptPreview := job.promptPreview, modelName := job.modelName.asStr
    providerType := job.providerType, status := job.status, error := job.error
    createdAt := job.createdAt, startedAt := job.startedAt, completedAt := job.completedAt
    apiKeyId := job.apiKeyId, accountId := job.accountId, latencyMs := job.latencyMs
    ttftMs := job.ttftMs, promptTokens := job.promptTokens
    completionTokens := job.completionTokens, cachedTokens := job.cachedTokens
    source := job.source, providerId := job.providerId, apiFormat := job.apiFormat
    requestPath := job.requestPath, conversationId := job.conversationId
    queueTimeMs := job.queueTimeMs, cancelledAt := job.cancelledAt
    messagesHash := pair.map Prod.fst, messagesPrefixHash := pair.map Prod.snd
    failureReason := job.failureReason, imageKeys := job.imageKeys, mcpLoopId := job.mcpLoopId
    hasToolCalls := false, resultPreview := none }

/-- `row_to_job`. The prompt is rebuilt from the preview; what has no column is `None`. -/
def rowToJob (row : JobRow) : Except DomainError InferenceJob := do
  let prompt ← Prompt.new (row.promptPreview.getD "")
  let modelName ← ModelName.new row.modelName
  return {
    id := row.id, prompt, promptPreview := row.promptPreview, modelName
    providerType := row.providerType, status := row.status, error := row.error
    createdAt := row.createdAt, startedAt := row.startedAt, completedAt := row.completedAt
    resultText := none, apiKeyId := row.apiKeyId, accountId := row.accountId
    latencyMs := row.latencyMs, ttftMs := row.ttftMs, promptTokens := row.promptTokens
    completionTokens := row.completionTokens, cachedTokens := row.cachedTokens
    source := row.source, providerId := row.providerId, apiFormat := row.apiFormat
    messages := none, tools := none, requestPath := row.requestPath
    queueTimeMs := row.queueTimeMs, cancelledAt := row.cancelledAt
    conversationId := row.conversationId, toolCallsJson := none
    messagesHash := row.messagesHash, messagesPrefixHash := row.messagesPrefixHash
    failureReason := row.failureReason, images := none, imageKeys := row.imageKeys
    stop := none, seed := none, responseFormat := none, frequencyPenalty := none
    presencePenalty := none, mcpLoopId := row.mcpLoopId, maxTokens := none
    visionAnalysis := none }

theorem rowToJob_status {row : JobRow} {job : InferenceJob} (h : rowToJob row = .ok job) :
    job.status = row.status := by
  unfold rowToJob at h
  cases hp : Prompt.new (row.promptPreview.getD "") with
  | error e => rw [hp] at h; cases h
  | ok prompt =>
    cases hm : ModelName.new row.modelName with
    | error e => rw [hp, hm] at h; cases h
    | ok modelName =>
      rw [hp, hm] at h
      cases h
      rfl

/-- The values `finalize` binds. -/
structure FinalMetrics where
  startedAt : Option Millis
  completedAt : Millis
  providerId : Option ProviderId
  queueTimeMs : Option ℕ
  latencyMs : ℕ
  ttftMs : Option ℕ
  promptTokens : Option ℕ
  completionTokens : Option ℕ
  cachedTokens : Option ℕ
  hasToolCalls : Bool
  resultPreview : Option String

namespace JobRow

/-- The `UPDATE` of `cancel_job`. -/
def cancel (row : JobRow) (cancelledAt : Millis) : JobRow :=
  if row.status = .completed ∨ row.status = .failed then row
  else { row with status := .cancelled, cancelledAt := some cancelledAt }

/-- The `UPDATE` of `fail_with_reason`. -/
def failWithReason (row : JobRow) (reason : String) (errorMsg : Option String) : JobRow :=
  if row.status.isTerminal then row
  else { row with status := .failed, failureReason := some reason, error := errorMsg.or row.error }

/-- The `UPDATE` of `finalize`. -/
def finalize (row : JobRow) (m : FinalMetrics) : JobRow :=
  if row.status = .cancelled ∨ row.status = .failed then row
  else
    { row with
      status := .completed
      startedAt := m.startedAt.or row.startedAt
      completedAt := some m.completedAt
      providerId := m.providerId.or row.providerId
      queueTimeMs := m.queueTimeMs.or row.queueTimeMs
      latencyMs := some m.latencyMs
      ttftMs := m.ttftMs
      promptTokens := m.promptTokens
      completionTokens := m.completionTokens
      cachedTokens := m.cachedTokens
      hasToolCalls := m.hasToolCalls
      resultPreview := m.resultPreview }

/-- `cancel_job`, `fail_with_reason` and `finalize` leave every row they name terminal. -/
theorem cancel_isTerminal (row : JobRow) (at' : Millis) : (row.cancel at').status.isTerminal := by
  unfold cancel
  split
  · next h => rcases h with h | h <;> simp [h, JobStatus.isTerminal]
  · rfl

theorem failWithReason_isTerminal (row : JobRow) (reason : String) (errorMsg : Option String) :
    (row.failWithReason reason errorMsg).status.isTerminal := by
  unfold failWithReason
  split
  · next h => exact h
  · rfl

theorem finalize_isTerminal (row : JobRow) (m : FinalMetrics) :
    (row.finalize m).status.isTerminal := by
  unfold finalize
  split
  · next h => rcases h with h | h <;> simp [h, JobStatus.isTerminal]
  · rfl

end JobRow

/-! ## Shared cells -/

/-- What a cell is: a `Notify` of a reader or of a worker, the flag `persisted_to_s3` or the stop
channel of a lease renewer. -/
inductive CellRole
  | notify
  | cancelNotify
  | persistedToS3
  | stop
  deriving DecidableEq, Repr

/-- A shared cell (an `Arc`), named by the job and the instance it was made for. -/
structure Cell where
  role : CellRole
  inst : InstanceId
  job : Uuid
  serial : ℕ
  deriving DecidableEq, Repr

/-! ## Entries -/

/-- `JobEntry`, without the handles for context compression. -/
structure JobEntry where
  job : InferenceJob
  status : JobStatus
  tokens : List StreamToken
  done : Bool
  apiKeyId : Option Uuid
  notify : Cell
  cancelNotify : Cell
  geminiTier : Option String
  keyTier : Option KeyTier
  tpmReservationMinute : Option ℕ
  assignedProviderId : Option ProviderId
  visionAnalysis : Option VisionAnalysis
  persistedToS3 : Cell

/-- What a `get_mut` of an entry writes. -/
inductive EntryUpdate
  /-- `cancel`. -/
  | cancelled
  /-- The setup of `run_job`. -/
  | running (startedAt : Millis)
  /-- Tokens for the readers. -/
  | push (tokens : List StreamToken)
  /-- Every failure: no provider, lifecycle, token budget, stream error. -/
  | failed (error reason : String)
  /-- The finalizer, on an entry that is not cancelled. -/
  | completed (completedAt : Millis)
  /-- The finalizer after the ownership was lost. -/
  | lost
  /-- The dispatcher, after its claim. -/
  | assigned (provider : ProviderId)

def EntryUpdate.apply (e : JobEntry) : EntryUpdate → JobEntry
  | .cancelled => { e with status := .cancelled, done := true }
  | .running startedAt =>
    { e with status := .running, job := { e.job with status := .running, startedAt := some startedAt } }
  | .push tokens => { e with tokens := e.tokens ++ tokens }
  | .failed error reason =>
    { e with
      status := .failed
      job := { e.job with status := .failed, error := some error, failureReason := some reason }
      done := true }
  | .completed completedAt =>
    { e with
      status := .completed
      job := { e.job with status := .completed, completedAt := some completedAt }
      done := true }
  | .lost => { e with done := true }
  | .assigned provider => { e with assignedProviderId := some provider }

/-- The fields no update of an entry touches: what the provider is asked for and the cells. -/
structure SameOrigin (e e' : JobEntry) : Prop where
  input : e'.job.generationInput = e.job.generationInput
  model : e'.job.modelName = e.job.modelName
  reserved : e'.tpmReservationMinute = e.tpmReservationMinute
  notify : e'.notify = e.notify
  cancelNotify : e'.cancelNotify = e.cancelNotify
  persistedToS3 : e'.persistedToS3 = e.persistedToS3

theorem EntryUpdate.sameOrigin (u : EntryUpdate) (e : JobEntry) : SameOrigin e (u.apply e) := by
  cases u <;> exact ⟨rfl, rfl, rfl, rfl, rfl, rfl⟩

end Veronex
