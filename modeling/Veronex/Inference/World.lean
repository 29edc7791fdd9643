import Veronex.Inference.JobEntry
import Veronex.Inference.TokenStream
import Veronex.Queue.Scripts
import Mathlib.Data.List.Sort
import Mathlib.Algebra.Order.Ring.Rat

/-! # The shared state of the gateway instances

Postgres, Valkey, the conversation store and, for every instance, its in-memory maps. A task of an
instance touches the shared state only through an `Access`: one Valkey command or script, one SQL
statement, one critical section of a concurrent map, one operation on a shared cell. `World.apply`
is the effect of an access; every call to Valkey, Postgres and the store succeeds.

`requests` is a log kept for the statements: what was submitted under an id, and where.
-/
namespace Veronex
set_option autoImplicit false

/-! ## Conversations -/

/-- `TurnRecord`, as the runner writes it. -/
structure TurnRecord where
  jobId : Uuid
  prompt : String
  messages : Option Json
  toolCalls : Option Json
  result : Option (List Char)
  modelName : Option String
  createdAt : Millis
  visionAnalysis : Option VisionAnalysis

/-- The key of a conversation record: owner, day and conversation. -/
structure S3Key where
  owner : Uuid
  date : ℕ
  conversation : Uuid
  deriving DecidableEq

/-- Days since 1970 of a time. -/
def dateOf (t : Millis) : ℕ := t / 86400000

/-- The counters of a row of `conversations`. -/
structure ConversationCounters where
  turnCount : ℕ
  totalPromptTokens : ℕ
  totalCompletionTokens : ℕ

/-- The identity of a stream reader. -/
abbrev ReaderId := ℕ

/-! ## The state -/

structure World where
  now : Millis
  /-- The ids and cells made so far. -/
  nextJob : Uuid
  nextCell : ℕ
  instances : List InstanceId
  /-- `compute_message_hashes`. -/
  messageHashes : Json → Option (String × String)
  /-- `MCP_LIFECYCLE_PHASE` of an instance. -/
  lifecyclePhase : InstanceId → Bool
  /-- Whether a message store is configured. -/
  messageStore : Bool
  requests : Uuid → Option (InstanceId × SubmitJobRequest)
  rows : Uuid → Option JobRow
  conversationCounters : Uuid → ConversationCounters
  conversations : S3Key → Option (List TurnRecord)
  queue : Queue
  active : JobMap Millis
  owner : Uuid → Option InstanceId
  heartbeat : InstanceId → Bool
  attempts : Uuid → ℕ
  noProviderAttempts : Uuid → ℤ
  pending : ℤ
  running : ℤ
  tpm : Uuid → ℕ → ℤ
  jobs : InstanceId → Uuid → Option JobEntry
  cancelNotifiers : InstanceId → Uuid → Option Cell
  permit : Cell → Bool
  waiting : Cell → List ReaderId
  flag : Cell → Bool

/-- The configuration of a deployment. -/
structure Deployment where
  instances : List InstanceId
  messageHashes : Json → Option (String × String)
  lifecyclePhase : InstanceId → Bool
  messageStore : Bool

def World.init (d : Deployment) : World :=
  { now := 0, nextJob := 0, nextCell := 0
    instances := d.instances, messageHashes := d.messageHashes
    lifecyclePhase := d.lifecyclePhase, messageStore := d.messageStore
    requests := fun _ => none
    rows := fun _ => none
    conversationCounters := fun _ => ⟨0, 0, 0⟩
    conversations := fun _ => none
    queue := Queue.empty, active := ∅
    owner := fun _ => none
    heartbeat := fun _ => true
    attempts := fun _ => 0
    noProviderAttempts := fun _ => 0
    pending := 0, running := 0
    tpm := fun _ _ => 0
    jobs := fun _ _ => none
    cancelNotifiers := fun _ _ => none
    permit := fun _ => false
    waiting := fun _ => []
    flag := fun _ => false }

/-- Replaces the value of a map of one instance at one job. -/
def update₂ {β : Type} (f : InstanceId → Uuid → β) (inst : InstanceId) (id : Uuid) (b : β) :
    InstanceId → Uuid → β :=
  Function.update f inst (Function.update (f inst) id b)

/-! ## Accesses -/

inductive Access
  /-- A read. -/
  | read
  /-- `JobId::new`. -/
  | newJob (inst : InstanceId) (req : SubmitJobRequest)
  /-- `Arc::new`, `n` times. -/
  | newCells (n : ℕ)
  | saveRow (row : JobRow)
  | cancelRow (id : Uuid) (cancelledAt : Millis)
  | failRow (id : Uuid) (reason : String) (errorMsg : Option String)
  | finalizeRow (id : Uuid) (metrics : FinalMetrics)
  | updateStatus (id : Uuid) (status : JobStatus)
  | updateCounters (conversation : Uuid) (promptTokens completionTokens : ℕ)
  | putConversation (key : S3Key) (turns : List TurnRecord)
  | insertEntry (inst : InstanceId) (id : Uuid) (entry : JobEntry)
  /-- `entry(..).or_insert_with(..)`. -/
  | orInsertEntry (inst : InstanceId) (id : Uuid) (entry : JobEntry)
  | updateEntry (inst : InstanceId) (id : Uuid) (u : EntryUpdate)
  | removeEntry (inst : InstanceId) (id : Uuid)
  | insertNotifier (inst : InstanceId) (id : Uuid) (cell : Cell)
  | removeNotifier (inst : InstanceId) (id : Uuid)
  /-- `notify_one`. -/
  | notifyOne (cell : Cell)
  /-- The first poll of `notified()`: takes the permit or starts to wait. -/
  | takePermit (cell : Cell)
  | awaitNotify (cell : Cell) (reader : ReaderId)
  /-- Sets a flag: a successful `compare_exchange(false, true)`, or a stop signal. -/
  | setFlag (cell : Cell)
  | incrPending (delta : ℤ)
  | incrRunning (delta : ℤ)
  | zsetEnqueue (id : Uuid) (score : ℕ) (model : String) (now : Millis) (maxSize : ℕ)
      (maxPerModel : ℤ)
  | zsetClaim (id : Uuid) (model : String) (now : Millis)
  | zsetCancel (id : Uuid) (model : String)
  /-- `ZADD XX queue:active`. -/
  | leaseRenew (id : Uuid) (deadline : Millis)
  | leaseRemove (id : Uuid)
  | setOwner (id : Uuid) (inst : InstanceId)
  /-- `SET XX job:owner`. -/
  | refreshOwner (id : Uuid) (inst : InstanceId)
  | removeOwner (id : Uuid)
  | setAttempts (id : Uuid) (attempts : ℕ)
  | removeAttempts (id : Uuid)
  | incrNoProvider (id : Uuid)
  | removeNoProvider (id : Uuid)
  | recordTpm (apiKey : Uuid) (minute : ℕ) (delta : ℤ)

namespace World

/-- An `UPDATE ... WHERE id = ..`. -/
def updateRow (w : World) (id : Uuid) (f : JobRow → JobRow) : World :=
  { w with rows := Function.update w.rows id ((w.rows id).map f) }

def apply (w : World) : Access → World
  | .read => w
  | .newJob inst req =>
    { w with
      nextJob := w.nextJob + 1
      requests := Function.update w.requests w.nextJob (some (inst, req)) }
  | .newCells n => { w with nextCell := w.nextCell + n }
  | .saveRow row =>
    { w with rows := Function.update w.rows row.id ((w.rows row.id).or (some row)) }
  | .cancelRow id cancelledAt => w.updateRow id (·.cancel cancelledAt)
  | .failRow id reason errorMsg => w.updateRow id (·.failWithReason reason errorMsg)
  | .finalizeRow id metrics => w.updateRow id (·.finalize metrics)
  | .updateStatus id status => w.updateRow id fun row => { row with status }
  | .updateCounters conversation promptTokens completionTokens =>
    let c := w.conversationCounters conversation
    let c' : ConversationCounters :=
      { turnCount := c.turnCount + 1
        totalPromptTokens := c.totalPromptTokens + promptTokens
        totalCompletionTokens := c.totalCompletionTokens + completionTokens }
    { w with conversationCounters := Function.update w.conversationCounters conversation c' }
  | .putConversation key turns =>
    { w with conversations := Function.update w.conversations key (some turns) }
  | .insertEntry inst id entry =>
    { w with jobs := update₂ w.jobs inst id (some entry), nextCell := w.nextCell + 3 }
  | .orInsertEntry inst id entry =>
    { w with
      jobs := update₂ w.jobs inst id ((w.jobs inst id).or (some entry))
      nextCell := w.nextCell + 3 }
  | .updateEntry inst id u =>
    { w with jobs := update₂ w.jobs inst id ((w.jobs inst id).map u.apply) }
  | .removeEntry inst id => { w with jobs := update₂ w.jobs inst id none }
  | .insertNotifier inst id cell =>
    { w with
      cancelNotifiers := update₂ w.cancelNotifiers inst id (some cell)
      nextCell := w.nextCell + 1 }
  | .removeNotifier inst id =>
    { w with cancelNotifiers := update₂ w.cancelNotifiers inst id none }
  | .notifyOne cell =>
    -- the first waiting reader is woken; without one the permit stays for the next
    { w with
      permit := if w.waiting cell = [] then Function.update w.permit cell true else w.permit
      waiting := Function.update w.waiting cell (w.waiting cell).tail }
  | .takePermit cell => { w with permit := Function.update w.permit cell false }
  | .awaitNotify cell reader =>
    { w with
      permit := Function.update w.permit cell false
      waiting := if w.permit cell then w.waiting
        else Function.update w.waiting cell (w.waiting cell ++ [reader]) }
  | .setFlag cell => { w with flag := Function.update w.flag cell true }
  | .incrPending delta => { w with pending := w.pending + delta }
  | .incrRunning delta => { w with running := w.running + delta }
  | .zsetEnqueue id score model now maxSize maxPerModel =>
    { w with queue := (w.queue.zsetEnqueue id score model now maxSize maxPerModel).1 }
  | .zsetClaim id model now =>
    let r := w.queue.zsetClaim w.active id model now
    { w with queue := r.1, active := r.2.1 }
  | .zsetCancel id model => { w with queue := (w.queue.zsetCancel id model).1 }
  | .leaseRenew id deadline =>
    { w with active := if id ∈ w.active then w.active.insert id deadline else w.active }
  | .leaseRemove id => { w with active := w.active.erase id }
  | .setOwner id inst => { w with owner := Function.update w.owner id (some inst) }
  | .refreshOwner id inst =>
    { w with owner :=
        if (w.owner id).isSome then Function.update w.owner id (some inst) else w.owner }
  | .removeOwner id => { w with owner := Function.update w.owner id none }
  | .setAttempts id attempts => { w with attempts := Function.update w.attempts id attempts }
  | .removeAttempts id => { w with attempts := Function.update w.attempts id 0 }
  | .incrNoProvider id =>
    { w with noProviderAttempts :=
        Function.update w.noProviderAttempts id (w.noProviderAttempts id + 1) }
  | .removeNoProvider id =>
    { w with noProviderAttempts := Function.update w.noProviderAttempts id 0 }
  | .recordTpm apiKey minute delta =>
    let buckets := Function.update (w.tpm apiKey) minute (w.tpm apiKey minute + delta)
    { w with tpm := Function.update w.tpm apiKey buckets }

/-! ## Reads -/

/-- `job_repo.get`: no row, a row that does not parse, or the job. -/
def getJob (w : World) (id : Uuid) : Except DomainError (Option InferenceJob) :=
  match w.rows id with
  | none => .ok none
  | some row => (rowToJob row).map some

/-- `list_pending`, which fails as a whole when one row does not parse. -/
def listPending (w : World) : Except DomainError (List InferenceJob) :=
  let rows := ((List.range w.nextJob).filterMap w.rows).filter fun row =>
    row.status = .pending ∨ row.status = .running
  ((rows.insertionSort fun a b => a.createdAt ≤ b.createdAt).take 1000).mapM rowToJob

/-- `zset_peek`: the first `k` members by score, then by id. -/
def zsetPeek (w : World) (k : ℕ) : List (Uuid × ℕ) :=
  let entries := w.queue.zset.keys.filterMap fun id =>
    (w.queue.zset.lookup id).map fun score => (id, score)
  (entries.insertionSort fun a b => a.2 < b.2 ∨ a.2 = b.2 ∧ a.1 ≤ b.1).take k

/-- `active_lease_expired`: `ZRANGEBYSCORE 0 now`. -/
def leaseExpired (w : World) (now : Millis) : List Uuid :=
  let entries := w.active.keys.filterMap fun id =>
    (w.active.lookup id).bind fun deadline => if deadline ≤ now then some (id, deadline) else none
  (entries.insertionSort fun a b => a.2 < b.2 ∨ a.2 = b.2 ∧ a.1 ≤ b.1).map Prod.fst

/-- A cell for a job of an instance, `k` after the last one. -/
def cell (w : World) (role : CellRole) (inst : InstanceId) (id : Uuid) (k : ℕ) : Cell :=
  { role, inst, job := id, serial := w.nextCell + k }

end World

/-! ## Steps of a task -/

/-- What the surroundings of a task decide at a step; a step that leaves nothing open takes any. -/
inductive Choice
  | go
  /-- Which models are loaded somewhere, and the global performance factor. -/
  | scores (loaded : String → Bool) (perfFactor : ℚ)
  /-- What `filter_candidates` and `score_and_claim` find for a job. -/
  | noCandidates
  | busy
  | provider (id : ProviderId) (isFreeTier : Bool)
  /-- Which of two concurrent counter writes comes first. -/
  | pendingFirst
  | runningFirst
  /-- The result of `ensure_ready`. -/
  | ready (result : Except String Unit)
  /-- The next item of the provider's stream. -/
  | item (result : Option (Except String StreamToken))
  /-- The keys an iteration over a map meets, in its order. -/
  | keys (ids : List Uuid)

/-- The arguments of the block the dispatcher spawns around `run_job`. -/
structure RunArgs where
  inst : InstanceId
  uuid : Uuid
  job : InferenceJob
  providerId : ProviderId
  isFreeTier : Bool

inductive Spawn
  | run (args : RunArgs)
  | keepalive (uuid : Uuid) (stop : Cell) (wakeAt : Millis)
  | cleanup (inst : InstanceId) (uuid : Uuid) (due : Millis)
  | cancelMessage (inst : InstanceId) (uuid : Uuid)

/-- One step of a task: its access, its next state, what it spawned. -/
structure Moved (M : Type) where
  access : Access
  next : M
  spawned : List Spawn := []

end Veronex
