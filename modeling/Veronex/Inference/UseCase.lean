import Veronex.Inference.World

/-! # `submit`, `cancel` and `stream`

`application/use_cases/inference/use_case.rs`. Each method is a machine whose control points are the
accesses of the source in their order; broadcasts and the image upload touch nothing modelled here.
-/
namespace Veronex
set_option autoImplicit false

/-! ## `submit` -/

/-- The job of a request whose prompt and model name are valid. -/
def newJob (uuid : Uuid) (req : SubmitJobRequest) (prompt : Prompt) (modelName : ModelName)
    (now : Millis) : InferenceJob :=
  { id := uuid, prompt, promptPreview := some (promptPreview req.prompt), modelName
    status := .pending, providerType := req.providerType, createdAt := now, startedAt := none
    completedAt := none, error := none, resultText := none, apiKeyId := req.apiKeyId
    accountId := req.accountId, latencyMs := none, ttftMs := none, promptTokens := none
    completionTokens := none, cachedTokens := none, source := req.source, providerId := none
    apiFormat := req.apiFormat, messages := req.messages, tools := req.tools
    requestPath := req.requestPath, queueTimeMs := none, cancelledAt := none
    conversationId := req.conversationId, toolCallsJson := none, messagesHash := none
    messagesPrefixHash := none, failureReason := none, images := req.images, imageKeys := none
    stop := req.stop, seed := req.seed, responseFormat := req.responseFormat
    frequencyPenalty := req.frequencyPenalty, presencePenalty := req.presencePenalty
    mcpLoopId := req.mcpLoopId, maxTokens := req.maxTokens, visionAnalysis := req.visionAnalysis }

/-- The job `submit` builds from a request. -/
def buildJob (uuid : Uuid) (req : SubmitJobRequest) (now : Millis) :
    Except DomainError InferenceJob := do
  let prompt ← Prompt.new req.prompt
  let modelName ← ModelName.new req.modelName
  return newJob uuid req prompt modelName now

theorem buildJob_ok {uuid : Uuid} {req : SubmitJobRequest} {now : Millis} {job : InferenceJob}
    (h : buildJob uuid req now = .ok job) :
    ∃ prompt modelName, Prompt.asStr prompt = req.prompt ∧ ModelName.asStr modelName = req.modelName ∧
      job = newJob uuid req prompt modelName now := by
  unfold buildJob at h
  cases hp : Prompt.new req.prompt with
  | error e => rw [hp] at h; cases h
  | ok prompt =>
    cases hm : ModelName.new req.modelName with
    | error e => rw [hp, hm] at h; cases h
    | ok modelName =>
      rw [hp, hm] at h
      cases h
      exact ⟨prompt, modelName, Prompt.new_ok hp, ModelName.new_ok hm, rfl⟩

/-- `job_for_db`: the job without what Postgres is not to keep. -/
def jobForDb (job : InferenceJob) : InferenceJob :=
  { job with
    messages := none, stop := none, seed := none, responseFormat := none
    frequencyPenalty := none, presencePenalty := none }

def tierBonus (source : JobSource) (keyTier : Option KeyTier) : Millis :=
  match source, keyTier with
  | .test, _ => TIER_BONUS_TEST
  | _, some .paid => TIER_BONUS_PAID
  | _, _ => TIER_BONUS_STANDARD

/-- The entry `submit` inserts. -/
def submittedEntry (w : World) (inst : InstanceId) (req : SubmitJobRequest) (job : InferenceJob)
    (cancelNotify : Cell) : JobEntry :=
  { job, status := .pending, tokens := [], done := false, apiKeyId := req.apiKeyId
    notify := w.cell .notify inst job.id 0, cancelNotify
    geminiTier := req.geminiTier, keyTier := req.keyTier
    tpmReservationMinute := some (w.now / 60000), assignedProviderId := none
    visionAnalysis := req.visionAnalysis, persistedToS3 := w.cell .persistedToS3 inst job.id 1 }

inductive SubmitPc
  | create
  | save (job : InferenceJob)
  | insertNotifier (job : InferenceJob)
  | insertEntry (job : InferenceJob) (cancelNotify : Cell)
  | incrPending (job : InferenceJob)
  | enqueue (job : InferenceJob)
  /-- The queue is full. -/
  | rejectDecr (job : InferenceJob)
  | rejectEntry (job : InferenceJob)
  | rejectNotifier (job : InferenceJob)
  | rejectRow (job : InferenceJob)
  | returned (result : Except DomainError Uuid)

structure Submit where
  inst : InstanceId
  req : SubmitJobRequest
  pc : SubmitPc

namespace Submit

def goto (s : Submit) (pc : SubmitPc) : Submit := { s with pc }

def step (w : World) (s : Submit) : Option (Moved Submit) :=
  match s.pc with
  | .create =>
    match buildJob w.nextJob s.req w.now with
    | .error e => some { access := .newJob s.inst s.req, next := s.goto (.returned (.error e)) }
    | .ok job => some { access := .newJob s.inst s.req, next := s.goto (.save job) }
  | .save job =>
    some { access := .saveRow (.ofJob w.messageHashes (jobForDb job))
           next := s.goto (.insertNotifier job) }
  | .insertNotifier job =>
    let cell := w.cell .cancelNotify s.inst job.id 0
    some { access := .insertNotifier s.inst job.id cell, next := s.goto (.insertEntry job cell) }
  | .insertEntry job cell =>
    some { access := .insertEntry s.inst job.id (submittedEntry w s.inst s.req job cell)
           next := s.goto (.incrPending job) }
  | .incrPending job => some { access := .incrPending 1, next := s.goto (.enqueue job) }
  | .enqueue job =>
    let score := w.now - tierBonus s.req.source s.req.keyTier
    let accepted := (w.queue.zsetEnqueue job.id score s.req.modelName w.now MAX_QUEUE_SIZE
      MAX_QUEUE_PER_MODEL).2
    some { access := .zsetEnqueue job.id score s.req.modelName w.now MAX_QUEUE_SIZE
             MAX_QUEUE_PER_MODEL
           next := s.goto (if accepted then .returned (.ok job.id) else .rejectDecr job) }
  | .rejectDecr job => some { access := .incrPending (-1), next := s.goto (.rejectEntry job) }
  | .rejectEntry job =>
    some { access := .removeEntry s.inst job.id, next := s.goto (.rejectNotifier job) }
  | .rejectNotifier job =>
    some { access := .removeNotifier s.inst job.id, next := s.goto (.rejectRow job) }
  | .rejectRow job =>
    some { access := .failRow job.id "queue_full" (some "queue capacity exceeded")
           next := s.goto (.returned (.error (.queueFull "queue capacity exceeded"))) }
  | .returned _ => none

end Submit

/-! ## `cancel` -/

inductive CancelPc
  | lookup
  /-- The `get_mut` of the entry. -/
  | mark
  | notifyReader (notify cancelNotify : Cell)
  | notifyWorker (cancelNotify : Cell)
  | decrPending
  | cancelRow
  | readModel
  | dequeue (model : String)
  | publish (isFinal : Bool)
  | removeNotifier (isFinal : Bool)
  | returned
  deriving DecidableEq

/-- `prev` is the status of the entry this cancel marked. -/
structure Cancel where
  inst : InstanceId
  uuid : Uuid
  isLocal : Bool
  prev : Option JobStatus
  pc : CancelPc

namespace Cancel

def goto (c : Cancel) (pc : CancelPc) : Cancel := { c with pc }

/-- The point after the queue was dealt with: a cancel without a local entry is published. -/
def leave (c : Cancel) (isFinal : Bool) : Cancel :=
  c.goto (if c.isLocal then .removeNotifier isFinal else .publish isFinal)

def step (w : World) (c : Cancel) : Option (Moved Cancel) :=
  match c.pc with
  | .lookup =>
    some { access := .read, next := { c with isLocal := (w.jobs c.inst c.uuid).isSome, pc := .mark } }
  | .mark =>
    match w.jobs c.inst c.uuid with
    | none => some { access := .read, next := c.goto .cancelRow }
    | some e =>
      if e.status.isTerminal then some { access := .read, next := c.leave true }
      else some { access := .updateEntry c.inst c.uuid .cancelled
                  next := { c with
                    prev := some e.status, pc := .notifyReader e.notify e.cancelNotify } }
  | .notifyReader n cn => some { access := .notifyOne n, next := c.goto (.notifyWorker cn) }
  | .notifyWorker cn =>
    -- a running job is left to the runner, which decrements the running counter
    some { access := .notifyOne cn
           next := c.goto (if c.prev = some .pending then .decrPending else .cancelRow) }
  | .decrPending => some { access := .incrPending (-1), next := c.goto .cancelRow }
  | .cancelRow => some { access := .cancelRow c.uuid w.now, next := c.goto .readModel }
  | .readModel =>
    let model := ((w.jobs c.inst c.uuid).map fun e => e.job.modelName.asStr).getD ""
    some { access := .read, next := c.goto (.dequeue model) }
  | .dequeue model => some { access := .zsetCancel c.uuid model, next := c.leave false }
  | .publish isFinal =>
    some { access := .read, next := c.goto (.removeNotifier isFinal)
           spawned := w.instances.map fun i => .cancelMessage i c.uuid }
  | .removeNotifier isFinal =>
    some { access := .removeNotifier c.inst c.uuid, next := c.goto .returned
           spawned := if c.isLocal && !isFinal then
             [.cleanup c.inst c.uuid (w.now + JOB_CLEANUP_DELAY)] else [] }
  | .returned => none

end Cancel

/-! ## `stream` -/

inductive StreamPc
  | lookup
  | database
  | read
  /-- Before the first poll of `notified()`. -/
  | await (notify : Cell)
  | parked (notify : Cell)
  | finished (result : Except String Unit)

/-- A reader. The index of the source is the number of tokens it has yielded. -/
structure Stream where
  reader : ReaderId
  inst : InstanceId
  uuid : Uuid
  yielded : List StreamToken
  pc : StreamPc

namespace Stream

def goto (s : Stream) (pc : StreamPc) : Stream := { s with pc }

def fail (s : Stream) (message : String) : Stream := s.goto (.finished (.error message))

/-- What a reader without a local entry gets from the row. `row_to_job` restores no result text. -/
def fromDatabase (w : World) (s : Stream) : Stream :=
  match w.getJob s.uuid with
  | .error e => s.fail e.display
  | .ok none => s.fail ("job not found: " ++ toString s.uuid)
  | .ok (some job) =>
    match job.status with
    | .completed =>
      let text := match job.resultText with
        | some text => if text = "" then [] else [StreamToken.text text]
        | none => []
      { s with yielded := text ++ [StreamToken.done], pc := .finished (.ok ()) }
    | .failed => s.fail (job.error.getD "inference failed")
    | _ => s.fail ("job not in memory: " ++ toString s.uuid)

def step (w : World) (s : Stream) : Option (Moved Stream) :=
  match s.pc with
  | .lookup =>
    some { access := .read
           next := s.goto (if (w.jobs s.inst s.uuid).isSome then .read else .database) }
  | .database => some { access := .read, next := s.fromDatabase w }
  | .read =>
    match w.jobs s.inst s.uuid with
    | none =>
      some { access := .read, next := s.fail ("job entry disappeared: " ++ toString s.uuid) }
    | some e =>
      some { access := .read
             next := { s with
               yielded := s.yielded ++ e.tokens.drop s.yielded.length
               pc := if e.done then .finished (.ok ()) else .await e.notify } }
  | .await notify =>
    some { access := .awaitNotify notify s.reader
           next := s.goto (if w.permit notify then .read else .parked notify) }
  | .parked notify =>
    if s.reader ∈ w.waiting notify then none else some { access := .read, next := s.goto .read }
  | .finished _ => none

end Stream

/-! ## `get_status` -/

/-- `get_status`, which looks into the map of its instance in one state and, without an entry, reads
the row in a later one. -/
def getStatus (atMap atRow : World) (inst : InstanceId) (uuid : Uuid) : Except String JobStatus :=
  match atMap.jobs inst uuid with
  | some e => .ok e.status
  | none =>
    match atRow.getJob uuid with
    | .error e => .error e.display
    | .ok none => .error ("job not found: " ++ toString uuid)
    | .ok (some job) => .ok job.status

end Veronex
