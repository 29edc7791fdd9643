import Veronex.Inference.Dispatcher

/-! # The background tasks of an instance

Lease renewal (`dispatcher.rs`), the cancel subscriber (`pubsub/relay.rs`), the thermal drain, the
deferred removal of entries and the sweeper (`use_case.rs`, `helpers.rs`), start-up recovery
(`use_case.rs`), and the passes of `queue_maintenance.rs` that touch jobs. An iteration over a
concurrent map or an `HSCAN` meets the keys of a `Choice` one after the other.
-/
namespace Veronex
set_option autoImplicit false

/-! ## Lease renewal -/

inductive KeepalivePc
  | sleeping (wakeAt : Millis)
  /-- `ZSCORE` after the `ZADD XX` of `active_lease_renew`. -/
  | check
  | stopped
  deriving DecidableEq

structure Keepalive where
  inst : InstanceId
  uuid : Uuid
  stop : Cell
  pc : KeepalivePc

def Keepalive.goto (k : Keepalive) (pc : KeepalivePc) : Keepalive := { k with pc }

def Keepalive.step (w : World) (k : Keepalive) : Option (Moved Keepalive) :=
  match k.pc with
  | .sleeping wakeAt =>
    if w.flag k.stop then some { access := .read, next := k.goto .stopped }
    else if wakeAt ≤ w.now then
      some { access := .leaseRenew k.uuid (w.now + LEASE_TTL_MS), next := k.goto .check }
    else none
  | .check =>
    some { access := .read
           next := k.goto (if k.uuid ∈ w.active then
             .sleeping (w.now + LEASE_RENEW_INTERVAL_SECS * 1000) else .stopped) }
  | .stopped => none

/-! ## Cancel messages -/

/-- One message on a cancel channel, at the subscriber of one instance. -/
structure CancelMessage where
  inst : InstanceId
  uuid : Uuid
  handled : Bool

/-- `run_cancel_subscriber`, for one message. -/
def CancelMessage.step (w : World) (m : CancelMessage) : Option (Moved CancelMessage) :=
  if m.handled then none
  else
    match w.cancelNotifiers m.inst m.uuid with
    | some notifier => some { access := .notifyOne notifier, next := { m with handled := true } }
    | none => some { access := .read, next := { m with handled := true } }

/-! ## Thermal drain -/

inductive DrainPc
  | collect
  | iterate (keys : List Uuid) (toCancel : List Cell)
  | notify (toCancel : List Cell)
  | finished

/-- `ThermalDrainAdapter::cancel_jobs_for_provider`. -/
structure Drain where
  inst : InstanceId
  providerId : ProviderId
  pc : DrainPc

def Drain.goto (d : Drain) (pc : DrainPc) : Drain := { d with pc }

/-- Collects the cell of the next entry if it runs on the provider. -/
def Drain.iterate (w : World) (d : Drain) (toCancel : List Cell) : List Uuid → DrainPc
  | [] => .notify toCancel
  | id :: keys =>
    match w.jobs d.inst id with
    | none => .iterate keys toCancel
    | some e =>
      .iterate keys (if e.assignedProviderId = some d.providerId then toCancel ++ [e.cancelNotify]
        else toCancel)

def Drain.notify (d : Drain) : List Cell → Moved Drain
  | [] => { access := .read, next := d.goto .finished }
  | cell :: rest => { access := .notifyOne cell, next := d.goto (.notify rest) }

def Drain.step (w : World) (d : Drain) (choice : Choice) : Option (Moved Drain) :=
  match d.pc with
  | .collect =>
    match choice with
    | .keys ids => some { access := .read, next := d.goto (.iterate ids []) }
    | _ => none
  | .iterate keys toCancel => some { access := .read, next := d.goto (d.iterate w toCancel keys) }
  | .notify toCancel => some (d.notify toCancel)
  | .finished => none

/-! ## Removal of entries -/

/-- `schedule_cleanup`: the entry is removed once the delay has passed. -/
structure Cleanup where
  inst : InstanceId
  uuid : Uuid
  due : Millis
  removed : Bool

def Cleanup.step (w : World) (c : Cleanup) : Option (Moved Cleanup) :=
  if c.removed = false ∧ c.due ≤ w.now then
    some { access := .removeEntry c.inst c.uuid, next := { c with removed := true } }
  else none

inductive SweepPc
  | collect
  | iterate (now : Millis) (keys stale : List Uuid)
  | removeEntry (stale : List Uuid)
  | removeNotifier (id : Uuid) (stale : List Uuid)
  | finished

/-- One round of `start_job_sweeper`. -/
structure Sweep where
  inst : InstanceId
  pc : SweepPc

def Sweep.goto (s : Sweep) (pc : SweepPc) : Sweep := { s with pc }

/-- Collects the next id if its entry has been pending for too long. -/
def Sweep.iterate (w : World) (s : Sweep) (now : Millis) (stale : List Uuid) : List Uuid → SweepPc
  | [] => .removeEntry stale
  | id :: keys =>
    match w.jobs s.inst id with
    | none => .iterate now keys stale
    | some e =>
      let old := e.status = .pending ∧ SWEEP_MAX_AGE < now - e.job.createdAt
      .iterate now keys (if old then stale ++ [id] else stale)

def Sweep.remove (s : Sweep) : List Uuid → Moved Sweep
  | [] => { access := .read, next := s.goto .finished }
  | id :: stale => { access := .removeEntry s.inst id, next := s.goto (.removeNotifier id stale) }

def Sweep.step (w : World) (s : Sweep) (choice : Choice) : Option (Moved Sweep) :=
  match s.pc with
  | .collect =>
    match choice with
    | .keys ids => some { access := .read, next := s.goto (.iterate w.now ids []) }
    | _ => none
  | .iterate now keys stale => some { access := .read, next := s.goto (s.iterate w now stale keys) }
  | .removeEntry stale => some (s.remove stale)
  | .removeNotifier id stale =>
    some { access := .removeNotifier s.inst id, next := s.goto (.removeEntry stale) }
  | .finished => none

/-! ## Start-up recovery -/

inductive RecoverPc
  | list
  | each (todo : List InferenceJob)
  | readOwner (job : InferenceJob) (todo : List InferenceJob)
  | readHeartbeat (owner : InstanceId) (job : InferenceJob) (todo : List InferenceJob)
  | resetStatus (job : InferenceJob) (todo : List InferenceJob)
  | insertEntry (job : InferenceJob) (todo : List InferenceJob)
  | enqueue (job : InferenceJob) (todo : List InferenceJob)
  | finished

/-- `recover_pending_jobs`. -/
structure Recover where
  inst : InstanceId
  pc : RecoverPc

/-- The entry a recovered job gets. -/
def recoveredEntry (w : World) (inst : InstanceId) (job : InferenceJob) : JobEntry :=
  { adoptedEntry w inst job.id job with apiKeyId := job.apiKeyId }

def Recover.goto (r : Recover) (pc : RecoverPc) : Recover := { r with pc }

def Recover.each (r : Recover) : List InferenceJob → Recover
  | [] => r.goto .finished
  | job :: todo =>
    r.goto (if job.status = .running then .readOwner job todo else .insertEntry job todo)

def Recover.step (w : World) (r : Recover) : Option (Moved Recover) :=
  match r.pc with
  | .list =>
    match w.listPending with
    | .error _ => some { access := .read, next := r.goto .finished }
    | .ok jobs => some { access := .read, next := r.goto (.each jobs) }
  | .each todo => some { access := .read, next := r.each todo }
  | .readOwner job todo =>
    match w.owner job.id with
    | some owner =>
      some { access := .read
             next := r.goto (if owner ≠ r.inst then .readHeartbeat owner job todo
               else .resetStatus job todo) }
    | none => some { access := .read, next := r.goto (.resetStatus job todo) }
  | .readHeartbeat owner job todo =>
    some { access := .read
           next := r.goto (if w.heartbeat owner then .each todo else .resetStatus job todo) }
  | .resetStatus job todo =>
    let job' := { job with status := .pending, startedAt := none }
    some { access := .updateStatus job.id .pending, next := r.goto (.insertEntry job' todo) }
  | .insertEntry job todo =>
    some { access := .orInsertEntry r.inst job.id (recoveredEntry w r.inst job)
           next := r.goto (.enqueue job todo) }
  | .enqueue job todo =>
    some { access := .zsetEnqueue job.id (w.now - TIER_BONUS_PAID) job.modelName.asStr w.now
             MAX_QUEUE_SIZE MAX_QUEUE_PER_MODEL
           next := r.goto (.each todo) }
  | .finished => none

/-! ## `queue_wait_cancel_pass` -/

inductive WaitCancelPc
  | collect
  | scan (now : Millis) (keys expired : List Uuid)
  | models (expired : List Uuid)
  | cancel (todo : List (Uuid × String))
  | failRow (id : Uuid) (todo : List (Uuid × String))
  | decrPending (todo : List (Uuid × String))
  | finished

structure WaitCancel where
  inst : InstanceId
  pc : WaitCancelPc

def WaitCancel.goto (q : WaitCancel) (pc : WaitCancelPc) : WaitCancel := { q with pc }

def WaitCancel.scan (w : World) (now : Millis) (expired : List Uuid) : List Uuid → WaitCancelPc
  | [] => if expired = [] then .finished else .models expired
  | id :: keys =>
    match w.queue.enqueueAt.lookup id with
    | none => .scan now keys expired
    | some enqueueAt =>
      let waited := MAX_QUEUE_WAIT_SECS * 1000 < now - enqueueAt
      .scan now keys (if waited then expired ++ [id] else expired)

def WaitCancel.cancel (w : World) (q : WaitCancel) : List (Uuid × String) → Moved WaitCancel
  | [] => { access := .read, next := q.goto .finished }
  | (id, model) :: todo =>
    let removed := (w.queue.zsetCancel id model).2
    { access := .zsetCancel id model
      next := q.goto (if removed then .failRow id todo else .cancel todo) }

def WaitCancel.step (w : World) (q : WaitCancel) (choice : Choice) : Option (Moved WaitCancel) :=
  match q.pc with
  | .collect =>
    match choice with
    | .keys ids => some { access := .read, next := q.goto (.scan w.now ids []) }
    | _ => none
  | .scan now keys expired =>
    some { access := .read, next := q.goto (scan w now expired keys) }
  | .models expired =>
    let todo := expired.map fun id => (id, (w.queue.model.lookup id).getD "")
    some { access := .read, next := q.goto (.cancel todo) }
  | .cancel todo => some (q.cancel w todo)
  | .failRow id todo =>
    some { access := .failRow id "queue_wait_exceeded" (some "queue wait exceeded 300s")
           next := q.goto (.decrPending todo) }
  | .decrPending todo => some { access := .incrPending (-1), next := q.goto (.cancel todo) }
  | .finished => none

/-! ## `processing_reaper_pass` -/

inductive ReapPc
  | list
  | each (todo : List Uuid)
  /-- Too many attempts. -/
  | giveUpRow (id : Uuid) (todo : List Uuid)
  | giveUpLease (id : Uuid) (todo : List Uuid)
  | giveUpAttempts (id : Uuid) (todo : List Uuid)
  | takeOut (id : Uuid) (attempts : ℕ) (todo : List Uuid)
  | setAttempts (id : Uuid) (attempts : ℕ) (todo : List Uuid)
  | getJob (id : Uuid) (todo : List Uuid)
  | enqueue (id : Uuid) (score : ℕ) (model : String) (todo : List Uuid)
  | leaseAgain (id : Uuid) (todo : List Uuid)
  | finished
  deriving DecidableEq

structure Reap where
  inst : InstanceId
  pc : ReapPc

def Reap.goto (r : Reap) (pc : ReapPc) : Reap := { r with pc }

def Reap.each (w : World) (r : Reap) : List Uuid → Reap
  | [] => r.goto .finished
  | id :: todo =>
    let attempts := w.attempts id
    r.goto (if LEASE_MAX_ATTEMPTS ≤ attempts then .giveUpRow id todo
      else .takeOut id attempts todo)

def Reap.step (w : World) (r : Reap) : Option (Moved Reap) :=
  match r.pc with
  | .list => some { access := .read, next := r.goto (.each (w.leaseExpired w.now)) }
  | .each todo => some { access := .read, next := r.each w todo }
  | .giveUpRow id todo =>
    some { access := .failRow id "lease_expired_max_attempts"
             (some "lease expired after max retry attempts")
           next := r.goto (.giveUpLease id todo) }
  | .giveUpLease id todo =>
    some { access := .leaseRemove id, next := r.goto (.giveUpAttempts id todo) }
  | .giveUpAttempts id todo =>
    some { access := .removeAttempts id, next := r.goto (.each todo) }
  | .takeOut id attempts todo =>
    some { access := .leaseRemove id, next := r.goto (.setAttempts id attempts todo) }
  | .setAttempts id attempts todo =>
    some { access := .setAttempts id (attempts + 1), next := r.goto (.getJob id todo) }
  | .getJob id todo =>
    match w.getJob id with
    | .ok (some job) =>
      some { access := .read, next := r.goto (.enqueue id w.now job.modelName.asStr todo) }
    | _ => some { access := .read, next := r.goto (.leaseAgain id todo) }
  | .enqueue id score model todo =>
    some { access := .zsetEnqueue id score model w.now U64_MAX U64_MAX
           next := r.goto (.each todo) }
  | .leaseAgain id todo => some { access := .leaseRemove id, next := r.goto (.each todo) }
  | .finished => none

end Veronex
