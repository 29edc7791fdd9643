import Veronex.Inference.World

/-! # `run_job` and the block around it

`application/use_cases/inference/runner.rs`, and the block `queue_dispatcher_loop` spawns for a
claimed job. A worker is that block: it starts the lease renewer, runs the job and gives the lease,
the attempts counter and the owner key back. `emit_inference_event`, the LRU record and the Gemini
counters touch nothing modelled here.
-/
namespace Veronex
set_option autoImplicit false

/-! ## Control points -/

/-- The ways `run_job` returns. -/
inductive Exit
  | cancelledBeforeStart
  | lifecycleFailed
  /-- `cancel_notify` fired. -/
  | cancelSignal
  /-- The status of the entry was cancelled. -/
  | cancelStatus
  | streamError
  | ownershipLost
  | completed
  deriving DecidableEq, Repr

/-- The calls of `persist_partial_conversation`. -/
inductive PersistSite
  | signal
  | status
  | error (message : String)

inductive PersistPc
  | compareExchange (flag : Cell)
  | get
  | put (turns : List TurnRecord)

/-- The calls of `notify_one` on the readers' cell. -/
inductive NotifySite
  | boundary
  | lifecycle
  | token
  | budget
  | error (message : String)
  | completed (completedAt : Millis)

/-- `finalize_job` after its write of the entry. -/
inductive FinalPc
  | decrRunning
  | readOwner
  | lostEntry
  | lostNotifier
  | readFlag
  | compareExchange (flag : Cell)
  | getConversation
  | readVision (turns : List TurnRecord)
  | putConversation (turns : List TurnRecord) (vision : Option VisionAnalysis)
  | finalizeRow
  | counters
  | removeNotifier
  | recordTpm

/-- The block after `run_job`. -/
inductive BlockPc
  | stopKeepalive
  | leaseRemove
  | removeAttempts
  | removeOwner
  deriving DecidableEq

inductive WorkerPc
  | spawned
  | setup
  | earlyDecr
  /-- `join!(decr_pending, incr_running)`. -/
  | counters
  | counterPending
  | counterRunning
  | lifecycle
  | boundary
  | lifecycleRow (message : String)
  | lifecycleEntry (message : String)
  | lifecycleDecr
  | capture
  | select
  | received (result : Except String StreamToken)
  | refreshOwner
  | signalFlag
  | signalDecr
  | statusDecr
  | errorFlag (message : String)
  | errorEntry (message : String)
  | errorRow (message : String)
  | errorDecr
  | errorTpm
  | persist (site : PersistSite) (pc : PersistPc)
  | notify (cell : Cell) (site : NotifySite)
  | finalEntry
  | final (completedAt : Millis) (pc : FinalPc)
  | block (exit : Exit) (pc : BlockPc)
  | returned (exit : Exit)
  /-- `consume_text` panicked: the task is gone. -/
  | panicked

/-- A worker. `log` is the history of what it pushed to the entry. -/
structure Worker where
  args : RunArgs
  job : InferenceJob
  stop : Cell
  apiKeyId : Option Uuid
  tpmMinute : Option ℕ
  startedAt : Millis
  cancelNotify : Cell
  ts : TokenStreamState
  log : List StreamToken
  pc : WorkerPc

namespace Worker

/-- The worker the dispatcher spawns. -/
def start (args : RunArgs) : Worker :=
  let none' : Cell := { role := .stop, inst := args.inst, job := args.uuid, serial := 0 }
  { args, job := args.job, stop := none', apiKeyId := none, tpmMinute := none, startedAt := 0
    cancelNotify := none', ts := .default 0, log := [], pc := .spawned }

def goto (v : Worker) (pc : WorkerPc) : Worker := { v with pc }

def inst (v : Worker) : InstanceId := v.args.inst
def uuid (v : Worker) : Uuid := v.args.uuid

def cleanup (v : Worker) (w : World) (delay : Millis) : Spawn :=
  .cleanup v.inst v.uuid (w.now + delay)

/-! ## Tokens -/

/-- The token log entries for a filtered token: a final token with text is split in two. -/
def pushed (token : StreamToken) : List StreamToken :=
  if token.isFinal ∧ token.value ≠ "" then [.text token.value, .done] else [token]

def addToolCalls (calls : List Json) : Option Json → List Json
  | none => calls
  | some (.arr items) => calls ++ items
  | some other => calls ++ [other]

/-- What a token does to the stream state, and the filtered token; `none` on a panic. -/
def consume (ts : TokenStreamState) (token : StreamToken) (now startedAt : Millis) :
    Option (StreamToken × TokenStreamState) := do
  let (emitted, ts) ←
    if token.value = "" then some ([], ts) else ts.consumeText token.value.toList
  let token := { token with value := String.ofList emitted }
  let ts := { ts with
    tokenCount := ts.tokenCount + 1
    text := ts.text ++ emitted
    toolCalls := addToolCalls ts.toolCalls token.toolCalls }
  let ts := if token.promptTokens.isSome ∨ token.completionTokens.isSome then
      { ts with promptTokens := token.promptTokens, completionTokens := token.completionTokens
                cachedTokens := token.cachedTokens }
    else ts
  let ts := if ts.ttftMs.isNone ∧ token.isFinal = false ∧ emitted ≠ [] then
      { ts with ttftMs := some (now - startedAt) }
    else ts
  return (token, ts)

/-! ## What the run writes -/

/-- `owner_id`, day and conversation of the job's record. -/
def s3Key (v : Worker) : S3Key :=
  { owner := (v.job.accountId.or v.job.apiKeyId).getD v.uuid, date := dateOf v.job.createdAt
    conversation := v.job.conversationId.getD v.uuid }

def resultText (v : Worker) : Option (List Char) :=
  if v.ts.text = [] then none else some (stripThinkBlocks v.ts.text)

/-- Whether the stream made tool calls, and the array of them. -/
def toolCallsJson (v : Worker) : Option Json :=
  match v.ts.toolCalls with
  | [] => none
  | calls => some (.arr calls)

/-- The turn of this job. `run_job` took the messages out of the job when the stream started. -/
def turn (v : Worker) (vision : Option VisionAnalysis) : TurnRecord :=
  { jobId := v.uuid, prompt := v.job.prompt.asStr, messages := v.job.messages
    toolCalls := v.toolCallsJson, result := v.resultText
    modelName := some v.job.modelName.asStr, createdAt := v.job.createdAt, visionAnalysis := vision }

def completionTokens (v : Worker) : Option ℕ :=
  v.ts.completionTokens.or (if v.ts.tokenCount = 0 then none else some v.ts.tokenCount)

/-- The arguments of `finalize`. -/
def metrics (v : Worker) (completedAt : Millis) : FinalMetrics :=
  { startedAt := some v.startedAt, completedAt, providerId := some v.args.providerId
    queueTimeMs := v.job.queueTimeMs, latencyMs := completedAt - v.startedAt
    ttftMs := v.ts.ttftMs, promptTokens := v.ts.promptTokens
    completionTokens := v.completionTokens, cachedTokens := v.ts.cachedTokens
    hasToolCalls := v.toolCallsJson.isSome
    resultPreview := match v.resultText with
      | none => none
      | some text =>
        if text = [] then none
        else some (String.ofList ((trim (trimStartMatches "/no_think".toList text)).take 20)) }

/-- `record_tpm`: the tokens used minus the reservation, in the minute of the reservation. -/
def tpmAccess (v : Worker) (w : World) (tokens : ℕ) : Access :=
  match v.apiKeyId with
  | none => .read
  | some key =>
    let adjustment := (tokens : ℤ) - TPM_ESTIMATED_TOKENS
    if adjustment = 0 then .read
    else .recordTpm key (v.tpmMinute.getD (w.now / 60000)) adjustment

/-! ## Steps -/

def afterPersist : PersistSite → WorkerPc
  | .signal => .signalDecr
  | .status => .statusDecr
  | .error message => .errorEntry message

def afterNotify : NotifySite → WorkerPc
  | .boundary => .capture
  | .lifecycle => .lifecycleDecr
  | .token => .refreshOwner
  | .budget => .finalEntry
  | .error message => .errorRow message
  | .completed completedAt => .final completedAt .decrRunning

/-- `persist_partial_conversation`. -/
def persistStep (w : World) (v : Worker) (site : PersistSite) : PersistPc → Moved Worker
  | .compareExchange flag =>
    if w.flag flag then { access := .read, next := v.goto (afterPersist site) }
    else
      let skip := w.messageStore = false ∨ v.ts.text = [] ∧ v.ts.toolCalls.isEmpty = true
      { access := .setFlag flag
        next := v.goto (if skip then afterPersist site else .persist site .get) }
  | .get =>
    { access := .read
      next := v.goto (.persist site (.put ((w.conversations v.s3Key).getD [] ++ [v.turn none]))) }
  | .put turns =>
    { access := .putConversation v.s3Key turns, next := v.goto (afterPersist site) }

/-- `finalize_job` after its write of the entry. -/
def finalStep (w : World) (v : Worker) (completedAt : Millis) : FinalPc → Moved Worker
  | .decrRunning => { access := .incrRunning (-1), next := v.goto (.final completedAt .readOwner) }
  | .readOwner =>
    let lost := match w.owner v.uuid with
      | some id => id != v.inst
      | none => false
    { access := .read
      next := v.goto (.final completedAt (if lost then .lostEntry else .readFlag)) }
  | .lostEntry =>
    { access := .updateEntry v.inst v.uuid .lost, next := v.goto (.final completedAt .lostNotifier) }
  | .lostNotifier =>
    { access := .removeNotifier v.inst v.uuid, next := v.goto (.block .ownershipLost .stopKeepalive)
      spawned := [v.cleanup w OWNERSHIP_LOST_CLEANUP_DELAY] }
  | .readFlag =>
    match w.jobs v.inst v.uuid with
    | some e => { access := .read, next := v.goto (.final completedAt (.compareExchange e.persistedToS3)) }
    | none =>
      -- the entry vanished: the runner writes all the same
      let write := w.messageStore ∧ v.job.mcpLoopId.isNone
      { access := .read
        next := v.goto (.final completedAt (if write then .getConversation else .finalizeRow)) }
  | .compareExchange flag =>
    if w.flag flag then { access := .read, next := v.goto (.final completedAt .finalizeRow) }
    else
      -- the rounds of an MCP loop are written by the bridge
      let write := w.messageStore ∧ v.job.mcpLoopId.isNone
      { access := .setFlag flag
        next := v.goto (.final completedAt (if write then .getConversation else .finalizeRow)) }
  | .getConversation =>
    { access := .read
      next := v.goto (.final completedAt (.readVision ((w.conversations v.s3Key).getD []))) }
  | .readVision turns =>
    let vision := (w.jobs v.inst v.uuid).bind fun e => e.visionAnalysis
    { access := .read, next := v.goto (.final completedAt (.putConversation turns vision)) }
  | .putConversation turns vision =>
    { access := .putConversation v.s3Key (turns ++ [v.turn vision])
      next := v.goto (.final completedAt .finalizeRow) }
  | .finalizeRow =>
    { access := .finalizeRow v.uuid (v.metrics completedAt)
      next := v.goto (.final completedAt .counters) }
  | .counters =>
    { access := match v.job.conversationId with
        | some conversation =>
          if v.job.mcpLoopId.isNone then
            .updateCounters conversation (v.ts.promptTokens.getD 0) (v.completionTokens.getD 0)
          else .read
        | none => .read
      next := v.goto (.final completedAt .removeNotifier) }
  | .removeNotifier =>
    { access := .removeNotifier v.inst v.uuid, next := v.goto (.final completedAt .recordTpm) }
  | .recordTpm =>
    { access := v.tpmAccess w v.ts.tokenCount, next := v.goto (.block .completed .stopKeepalive)
      spawned := [v.cleanup w JOB_CLEANUP_DELAY] }

/-- The critical section of the entry for one item of the stream. -/
def receiveStep (w : World) (v : Worker) (result : Except String StreamToken) : Moved Worker :=
  match w.jobs v.inst v.uuid with
  | none => { access := .read, next := v.goto .finalEntry }
  | some e =>
    if e.status = .cancelled then
      { access := .read, next := v.goto (.persist .status (.compareExchange e.persistedToS3)) }
    else
      match result with
      | .error message => { access := .read, next := v.goto (.errorFlag message) }
      | .ok token =>
        match consume v.ts token w.now v.startedAt with
        | none => { access := .read, next := v.goto .panicked }
        | some (token, ts) =>
          if MAX_TOKENS_PER_JOB < e.tokens.length then
            { access := .updateEntry v.inst v.uuid
                (.failed "token budget exceeded" "token_budget_exceeded")
              next := { v with ts, pc := .notify e.notify .budget } }
          else
            { access := .updateEntry v.inst v.uuid (.push (pushed token))
              next := { v with
                ts, log := v.log ++ pushed token, pc := .notify e.notify .token } }

/-- The block after `run_job`. -/
def blockStep (v : Worker) (exit : Exit) : BlockPc → Moved Worker
  | .stopKeepalive => { access := .setFlag v.stop, next := v.goto (.block exit .leaseRemove) }
  | .leaseRemove => { access := .leaseRemove v.uuid, next := v.goto (.block exit .removeAttempts) }
  | .removeAttempts => { access := .removeAttempts v.uuid, next := v.goto (.block exit .removeOwner) }
  | .removeOwner => { access := .removeOwner v.uuid, next := v.goto (.returned exit) }

def step (w : World) (v : Worker) (choice : Choice) : Option (Moved Worker) :=
  match v.pc with
  | .spawned =>
    let stop := w.cell .stop v.inst v.uuid 0
    some { access := .newCells 1, next := { v with stop, pc := .setup }
           spawned := [.keepalive v.uuid stop (w.now + LEASE_RENEW_INTERVAL_SECS * 1000)] }
  | .setup =>
    let job := { v.job with
      status := .running, startedAt := some w.now, providerId := some v.args.providerId
      queueTimeMs := some (w.now - v.job.createdAt) }
    match w.jobs v.inst v.uuid with
    | none => some { access := .read, next := { v with job, startedAt := w.now, pc := .counters } }
    | some e =>
      if e.status = .cancelled then some { access := .read, next := v.goto .earlyDecr }
      else some { access := .updateEntry v.inst v.uuid (.running w.now)
                  next := { v with
                    job, startedAt := w.now, apiKeyId := e.apiKeyId
                    tpmMinute := e.tpmReservationMinute, pc := .counters } }
  | .earlyDecr =>
    some { access := .incrPending (-1), next := v.goto (.block .cancelledBeforeStart .stopKeepalive) }
  | .counters =>
    match choice with
    | .pendingFirst => some { access := .incrPending (-1), next := v.goto .counterRunning }
    | .runningFirst => some { access := .incrRunning 1, next := v.goto .counterPending }
    | _ => none
  | .counterPending => some { access := .incrPending (-1), next := v.goto .lifecycle }
  | .counterRunning => some { access := .incrRunning 1, next := v.goto .lifecycle }
  | .lifecycle =>
    if w.lifecyclePhase v.inst then
      match choice with
      | .ready (.ok _) => some { access := .read, next := v.goto .boundary }
      | .ready (.error message) => some { access := .read, next := v.goto (.lifecycleRow message) }
      | _ => none
    else some { access := .read, next := v.goto .capture }
  | .boundary =>
    match w.jobs v.inst v.uuid with
    | none => some { access := .read, next := v.goto .capture }
    | some e =>
      some { access := .updateEntry v.inst v.uuid (.push [.phaseBoundary])
             next := { v with log := v.log ++ [.phaseBoundary], pc := .notify e.notify .boundary } }
  | .lifecycleRow message =>
    some { access := .failRow v.uuid "lifecycle_failed" (some message)
           next := v.goto (.lifecycleEntry message) }
  | .lifecycleEntry message =>
    match w.jobs v.inst v.uuid with
    | none => some { access := .read, next := v.goto .lifecycleDecr }
    | some e =>
      some { access := .updateEntry v.inst v.uuid (.failed message "lifecycle_failed")
             next := v.goto (.notify e.notify .lifecycle) }
  | .lifecycleDecr =>
    some { access := .incrRunning (-1), next := v.goto (.block .lifecycleFailed .stopKeepalive)
           spawned := [v.cleanup w JOB_CLEANUP_DELAY] }
  | .capture =>
    let ts := TokenStreamState.default w.now
    match w.jobs v.inst v.uuid with
    | some e =>
      some { access := .read, next := { v with cancelNotify := e.cancelNotify, ts, pc := .select } }
    | none =>
      some { access := .newCells 1
             next := { v with cancelNotify := w.cell .cancelNotify v.inst v.uuid 0, ts, pc := .select } }
  | .select =>
    -- the select is biased: a permit is taken before the stream is polled
    if w.permit v.cancelNotify then
      some { access := .takePermit v.cancelNotify, next := v.goto .signalFlag }
    else match choice with
      | .item none => some { access := .read, next := v.goto .finalEntry }
      | .item (some result) => some { access := .read, next := v.goto (.received result) }
      | _ => none
  | .received result => some (receiveStep w v result)
  | .refreshOwner =>
    if OWNER_REFRESH_INTERVAL ≤ w.now - v.ts.lastOwnerRefresh then
      some { access := .refreshOwner v.uuid v.inst
             next := { v with ts := { v.ts with lastOwnerRefresh := w.now }, pc := .select } }
    else some { access := .read, next := v.goto .select }
  | .signalFlag =>
    match w.jobs v.inst v.uuid with
    | some e =>
      some { access := .read, next := v.goto (.persist .signal (.compareExchange e.persistedToS3)) }
    | none => some { access := .read, next := v.goto .signalDecr }
  | .signalDecr =>
    some { access := .incrRunning (-1), next := v.goto (.block .cancelSignal .stopKeepalive)
           spawned := [v.cleanup w JOB_CLEANUP_DELAY] }
  | .statusDecr =>
    some { access := .incrRunning (-1), next := v.goto (.block .cancelStatus .stopKeepalive) }
  | .errorFlag message =>
    match w.jobs v.inst v.uuid with
    | some e =>
      some { access := .read
             next := v.goto (.persist (.error message) (.compareExchange e.persistedToS3)) }
    | none => some { access := .read, next := v.goto (.errorEntry message) }
  | .errorEntry message =>
    match w.jobs v.inst v.uuid with
    | none => some { access := .read, next := v.goto (.errorRow message) }
    | some e =>
      some { access := .updateEntry v.inst v.uuid (.failed message "provider_error")
             next := v.goto (.notify e.notify (.error message)) }
  | .errorRow message =>
    some { access := .failRow v.uuid "provider_error" (some message), next := v.goto .errorDecr }
  | .errorDecr => some { access := .incrRunning (-1), next := v.goto .errorTpm }
  | .errorTpm =>
    some { access := v.tpmAccess w 0, next := v.goto (.block .streamError .stopKeepalive)
           spawned := [v.cleanup w JOB_CLEANUP_DELAY] }
  | .persist site pc => some (persistStep w v site pc)
  | .notify cell site =>
    some { access := .notifyOne cell, next := v.goto (afterNotify site) }
  | .finalEntry =>
    match w.jobs v.inst v.uuid with
    | none => some { access := .read, next := v.goto (.final w.now .decrRunning) }
    | some e =>
      if e.status = .cancelled then
        some { access := .read, next := v.goto (.final w.now .decrRunning) }
      else some { access := .updateEntry v.inst v.uuid (.completed w.now)
                  next := v.goto (.notify e.notify (.completed w.now)) }
  | .final completedAt pc => some (finalStep w v completedAt pc)
  | .block exit pc => some (blockStep v exit pc)
  | .returned _ => none
  | .panicked => none

end Worker

end Veronex
