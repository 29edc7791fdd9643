import Veronex.Inference.Cluster

/-! # Commands that fail

`submit`, the dispatcher, the block around `run_job` and the reaper, when a command to Postgres,
Valkey or the store fails. A failed command may have taken effect all the same. Most failures are
logged and the task goes on as if the command had succeeded; `fail` of each task says where it does
not. An enqueue that fails in `submit` runs the job off the queue (`spawn_job_direct`), and one that
fails in the reaper fails the job.

`FaultyConfig.enqueued` is kept for the statements: the jobs that an enqueue has accepted.
-/
namespace Veronex
open Concurrency
set_option autoImplicit false

/-- An access to Postgres, Valkey or the store, and not to the memory of an instance. -/
def Access.isCommand : Access → Bool
  | .read | .newJob _ _ | .newCells _ | .insertEntry _ _ _ | .orInsertEntry _ _ _
  | .updateEntry _ _ _ | .removeEntry _ _ | .insertNotifier _ _ _ | .removeNotifier _ _
  | .notifyOne _ | .takePermit _ | .awaitNotify _ _ | .setFlag _ => false
  | _ => true

/-! ## Where a failure makes a difference -/

def Submit.fail (w : World) (s : Submit) (message : String) : Option (Moved Submit) :=
  match s.pc with
  | .save job =>
    some { access := .saveRow (.ofJob w.messageHashes (jobForDb job))
           next := s.goto (.returned (.error (.internal message))) }
  | .enqueue job => (s.step w).map fun m => { m with next := s.goto (.returned (.ok job.id)) }
  | _ => (s.step w).filter (·.access.isCommand)

def Dispatch.fail (w : World) (d : Dispatch) (choice : Choice) : Option (Moved Dispatch) :=
  match d.pc with
  | .len => some { access := .read, next := d.goto (.peek ZSET_PEEK_K) }
  | .peek _ => some { access := .read, next := d.goto .finished }
  | .fetch now _ _ todo scored => some { access := .read, next := d.goto (.load now todo scored) }
  | .countMiss c rest =>
    some { access := .incrNoProvider c.uuid, next := d.goto (.claimToFail c rest) }
  | .claimToFail c rest | .claim c _ rest =>
    some { access := .zsetClaim c.uuid c.job.modelName.asStr w.now, next := d.goto (.attempt rest) }
  | _ => (d.step w choice).filter (·.access.isCommand)

def Worker.fail (w : World) (v : Worker) (choice : Choice) : Option (Moved Worker) :=
  match v.pc with
  | .final completedAt .readOwner =>
    some { access := .read, next := v.goto (.final completedAt .readFlag) }
  | .final completedAt .getConversation =>
    some { access := .read, next := v.goto (.final completedAt (.readVision [])) }
  | .persist site .get =>
    some { access := .read, next := v.goto (.persist site (.put [v.turn none])) }
  | _ => (v.step w choice).filter (·.access.isCommand)

def Keepalive.fail (w : World) (k : Keepalive) : Option (Moved Keepalive) :=
  match k.pc with
  | .check => some { access := .read, next := k.goto .stopped }
  | _ => (k.step w).filter (·.access.isCommand)

/-- A failed enqueue is dealt with in `FaultyTask.fail`. -/
def Reap.fail (w : World) (r : Reap) : Option (Moved Reap) :=
  match r.pc with
  | .list => some { access := .read, next := r.goto .finished }
  | .each (id :: todo) => some { access := .read, next := r.goto (.takeOut id 0 todo) }
  | .getJob id todo => some { access := .read, next := r.goto (.leaseAgain id todo) }
  | _ => (r.step w).filter (·.access.isCommand)

/-! ## Jobs off the queue -/

inductive DirectPc
  | pick
  | failJob (reason : String) (pc : FailPc)
  | run (v : Worker)
  | finished

/-- `spawn_job_direct`. -/
structure Direct where
  inst : InstanceId
  job : InferenceJob
  pc : DirectPc

namespace Direct

def goto (d : Direct) (pc : DirectPc) : Direct := { d with pc }

/-- `run_job` has returned: there is no block around it. -/
def ran (d : Direct) (v : Worker) : Direct :=
  d.goto (match v.pc with
    | .block _ _ => .finished
    | _ => .run v)

/-- `fail_job_no_provider`, which begins with the counter. -/
def failStep (w : World) (d : Direct) (reason : String) : FailPc → Moved Direct
  | .entry =>
    match w.jobs d.inst d.job.id with
    | none => { access := .read, next := d.goto (.failJob reason .row) }
    | some e =>
      { access := .updateEntry d.inst d.job.id (.failed reason "no_eligible_provider")
        next := d.goto (.failJob reason (.notify e.notify)) }
  | .notify cell => { access := .notifyOne cell, next := d.goto (.failJob reason .row) }
  | .row =>
    { access := .failRow d.job.id "no_eligible_provider" (some reason), next := d.goto .finished
      spawned := [.cleanup d.inst d.job.id (w.now + JOB_CLEANUP_DELAY)] }
  | _ => { access := .incrPending (-1), next := d.goto (.failJob reason .entry) }

/-- The worker of a direct run starts with `run_job`. -/
def worker (d : Direct) (providerId : ProviderId) (isFreeTier : Bool) : Worker :=
  { Worker.start { inst := d.inst, uuid := d.job.id, job := d.job, providerId, isFreeTier } with
    pc := .setup }

def step (w : World) (d : Direct) (choice : Choice) : Option (Moved Direct) :=
  match d.pc with
  | .pick =>
    match choice with
    | .busy => some { access := .read, next := d.goto .finished }
    | .provider id isFreeTier =>
      some { access := .read, next := d.goto (.run (d.worker id isFreeTier)) }
    | _ => none
  | .failJob reason pc => some (d.failStep w reason pc)
  | .run v => (v.step w choice).map (·.map d.ran)
  | .finished => none

def fail (w : World) (d : Direct) (choice : Choice) (message : String) : Option (Moved Direct) :=
  match d.pc with
  | .pick => some { access := .read, next := d.goto (.failJob message .decrPending) }
  | .run v => (v.fail w choice).map (·.map d.ran)
  | _ => (d.step w choice).filter (·.access.isCommand)

end Direct

/-! ## Tasks -/

inductive FaultyTask
  | task (t : Task)
  | direct (d : Direct)
  /-- The reaper fails a job it could not enqueue again. -/
  | failReaped (inst : InstanceId) (id : Uuid) (todo : List Uuid)

structure FaultyMoved where
  access : Access
  next : FaultyTask
  spawned : List FaultyTask

namespace FaultyTask

def ofSpawn (s : Spawn) : FaultyTask := .task s.task

def moved {M : Type} (f : M → FaultyTask) (m : Moved M) : FaultyMoved :=
  { access := m.access, next := f m.next, spawned := m.spawned.map ofSpawn }

def failReapedStep (inst : InstanceId) (id : Uuid) (todo : List Uuid) : FaultyMoved :=
  { access := .failRow id "lease_expired_reenqueue_failed" none
    next := .task (.reap { inst, pc := .each todo }), spawned := [] }

def step (w : World) (choice : Choice) : FaultyTask → Option FaultyMoved
  | .task t => (t.step w choice).map (moved .task)
  | .direct d => (d.step w choice).map (moved .direct)
  | .failReaped inst id todo => some (failReapedStep inst id todo)

/-- The run off the queue that a failed enqueue starts. -/
def directs (s : Submit) : List FaultyTask :=
  match s.pc with
  | .enqueue job => [.direct { inst := s.inst, job, pc := .pick }]
  | _ => []

/-- The command of the task fails. -/
def fail (w : World) (choice : Choice) (message : String) : FaultyTask → Option FaultyMoved
  | .task (.submit s) =>
    (s.fail w message).map fun m =>
      { moved (fun s => .task (.submit s)) m with spawned := directs s }
  | .task (.dispatch d) => (d.fail w choice).map (moved fun d => .task (.dispatch d))
  | .task (.run v) => (v.fail w choice).map (moved fun v => .task (.run v))
  | .task (.keepalive k) => (k.fail w).map (moved fun k => .task (.keepalive k))
  | .task (.reap r) =>
    match r.pc with
    | .enqueue id score model todo =>
      some { access := .zsetEnqueue id score model w.now U64_MAX U64_MAX
             next := .failReaped r.inst id todo, spawned := [] }
    | _ => (r.fail w).map (moved fun r => .task (.reap r))
  | .task _ => none
  | .direct d => (d.fail w choice message).map (moved .direct)
  | .failReaped inst id todo => some (failReapedStep inst id todo)

/-- The task after its instance has crashed. -/
def crashed (inst : InstanceId) : FaultyTask → FaultyTask
  | .task t => .task (if t.inst? = some inst ∧ t.ended = false then .killed else t)
  | .direct d => if d.inst = inst then .direct (d.goto .finished) else .direct d
  | .failReaped inst' id todo =>
    if inst' = inst then .task .killed else .failReaped inst' id todo

/-- A pass of the dispatcher on this instance that has not ended. -/
def dispatching (inst : InstanceId) : FaultyTask → Bool
  | .task t => decide (Config.Dispatching inst t)
  | _ => false

end FaultyTask

/-! ## Runs -/

/-- How the command of a step ends. -/
inductive Outcome
  | done
  | failed (reached : Bool) (message : String)

/-- Whether the command takes effect. -/
def Outcome.reached : Outcome → Bool
  | .done => true
  | .failed reached _ => reached

structure FaultyConfig where
  world : World
  tasks : List FaultyTask
  enqueued : List Uuid

inductive FaultyAction
  | submit (inst : InstanceId) (req : SubmitJobRequest)
  /-- The next pass of the dispatcher loop. -/
  | dispatch (inst : InstanceId)
  | reap (inst : InstanceId)
  | run (k : ℕ) (choice : Choice) (outcome : Outcome)
  | tick (elapsed : Millis)
  | crash (inst : InstanceId)
  /-- An owner key expires or is overwritten. -/
  | owner (id : Uuid) (inst : Option InstanceId)

/-- The job that an access puts into the queue. -/
def World.accepts (w : World) : Access → List Uuid
  | .zsetEnqueue id score model now maxSize maxPerModel =>
    if (w.queue.zsetEnqueue id score model now maxSize maxPerModel).2 then [id] else []
  | _ => []

namespace FaultyConfig

def init (d : Deployment) : FaultyConfig := { world := World.init d, tasks := [], enqueued := [] }

/-- The next command of a task. -/
def moved (c : FaultyConfig) (k : ℕ) (choice : Choice) (outcome : Outcome) :
    Option FaultyMoved := do
  let t ← c.tasks[k]?
  match outcome with
  | .done => t.step c.world choice
  | .failed _ message => t.fail c.world choice message

def step (c : FaultyConfig) : FaultyAction → Option FaultyConfig
  | .submit inst req =>
    some { c with tasks := c.tasks ++ [.task (.submit { inst, req, pc := .create })] }
  | .dispatch inst =>
    if c.tasks.any (FaultyTask.dispatching inst) then none
    else some { c with tasks := c.tasks ++ [.task (.dispatch { inst, pc := .len })] }
  | .reap inst => some { c with tasks := c.tasks ++ [.task (.reap { inst, pc := .list })] }
  | .run k choice outcome => do
    let m ← c.moved k choice outcome
    let tasks := advance c.tasks k m.next m.spawned
    if outcome.reached then
      return { world := c.world.apply m.access, tasks
               enqueued := c.world.accepts m.access ++ c.enqueued }
    else return { c with tasks }
  | .tick elapsed => some { c with world := { c.world with now := c.world.now + elapsed } }
  | .crash inst =>
    some { c with
      world := { c.world with
        jobs := Function.update c.world.jobs inst fun _ => none
        cancelNotifiers := Function.update c.world.cancelNotifiers inst fun _ => none }
      tasks := c.tasks.map (FaultyTask.crashed inst) }
  | .owner id inst =>
    some { c with world := { c.world with owner := Function.update c.world.owner id inst } }

end FaultyConfig

end Veronex
