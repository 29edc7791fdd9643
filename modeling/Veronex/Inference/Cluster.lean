import Veronex.Foundation.Pool
import Veronex.Foundation.Transition
import Veronex.Inference.Background
import Veronex.Inference.Runner
import Veronex.Inference.UseCase

/-! # The gateway instances together

A configuration is the shared state and the pool of all tasks ever started, on whatever instance;
finished tasks stay in the pool. One step runs one access of one task, starts a task, lets time
pass, or is a fault: an instance restarts, an owner key expires or is overwritten, a heartbeat comes
or goes.
-/
namespace Veronex
open Concurrency
set_option autoImplicit false

inductive Task
  | submit (s : Submit)
  | cancel (c : Cancel)
  | stream (s : Stream)
  | dispatch (d : Dispatch)
  | run (v : Worker)
  | keepalive (k : Keepalive)
  | cancelMessage (m : CancelMessage)
  | drain (d : Drain)
  | cleanup (c : Cleanup)
  | sweep (s : Sweep)
  | recover (r : Recover)
  | waitCancel (q : WaitCancel)
  | reap (r : Reap)
  /-- A task that ended with its instance. -/
  | killed

/-- The task of a spawn; a renewer belongs to the instance of the worker that spawned it. -/
def Spawn.task : Spawn → Task
  | .run args => .run (.start args)
  | .keepalive uuid stop wakeAt => .keepalive { inst := stop.inst, uuid, stop, pc := .sleeping wakeAt }
  | .cleanup inst uuid due => .cleanup { inst, uuid, due, removed := false }
  | .cancelMessage inst uuid => .cancelMessage { inst, uuid, handled := false }

/-- A step of one kind of task as a step of the sum. -/
def Moved.map {M N : Type} (f : M → N) (m : Moved M) : Moved N :=
  { access := m.access, next := f m.next, spawned := m.spawned }

def Task.step (w : World) (choice : Choice) : Task → Option (Moved Task)
  | .submit s => (s.step w).map (·.map .submit)
  | .cancel c => (c.step w).map (·.map .cancel)
  | .stream s => (s.step w).map (·.map .stream)
  | .dispatch d => (d.step w choice).map (·.map .dispatch)
  | .run v => (v.step w choice).map (·.map .run)
  | .keepalive k => (k.step w).map (·.map .keepalive)
  | .cancelMessage m => (m.step w).map (·.map .cancelMessage)
  | .drain d => (d.step w choice).map (·.map .drain)
  | .cleanup c => (c.step w).map (·.map .cleanup)
  | .sweep s => (s.step w choice).map (·.map .sweep)
  | .recover r => (r.step w).map (·.map .recover)
  | .waitCancel q => (q.step w choice).map (·.map .waitCancel)
  | .reap r => (r.step w).map (·.map .reap)
  | .killed => none

/-- The instance a task runs on. -/
def Task.inst? : Task → Option InstanceId
  | .submit s => some s.inst
  | .cancel c => some c.inst
  | .stream s => some s.inst
  | .dispatch d => some d.inst
  | .run v => some v.inst
  | .keepalive k => some k.inst
  | .cancelMessage m => some m.inst
  | .drain d => some d.inst
  | .cleanup c => some c.inst
  | .sweep s => some s.inst
  | .recover r => some r.inst
  | .waitCancel q => some q.inst
  | .reap r => some r.inst
  | .killed => none

/-- Whether a task has ended. -/
def Task.ended : Task → Bool
  | .submit s => match s.pc with
    | .returned _ => true
    | _ => false
  | .cancel c => c.pc = .returned
  | .stream s => match s.pc with
    | .finished _ => true
    | _ => false
  | .dispatch d => match d.pc with
    | .finished => true
    | _ => false
  | .run v => match v.pc with
    | .returned _ => true
    | .panicked => true
    | _ => false
  | .keepalive k => k.pc = .stopped
  | .cancelMessage m => m.handled
  | .drain d => match d.pc with
    | .finished => true
    | _ => false
  | .cleanup c => c.removed
  | .sweep s => match s.pc with
    | .finished => true
    | _ => false
  | .recover r => match r.pc with
    | .finished => true
    | _ => false
  | .waitCancel q => match q.pc with
    | .finished => true
    | _ => false
  | .reap r => r.pc = .finished
  | .killed => true

/-! ## Configurations -/

structure Config where
  world : World
  tasks : List Task

/-- A task that a client, a loop or the start-up code starts. -/
inductive Start
  | submit (inst : InstanceId) (req : SubmitJobRequest)
  | cancel (inst : InstanceId) (uuid : Uuid)
  | stream (inst : InstanceId) (uuid : Uuid)
  /-- The next pass of the dispatcher loop. -/
  | dispatch (inst : InstanceId)
  | drain (inst : InstanceId) (provider : ProviderId)
  | sweep (inst : InstanceId)
  | recover (inst : InstanceId)
  | waitCancel (inst : InstanceId)
  | reap (inst : InstanceId)

inductive Action
  | start (s : Start)
  | run (k : ℕ) (choice : Choice)
  | tick (elapsed : Millis)
  | restart (inst : InstanceId)
  | owner (id : Uuid) (inst : Option InstanceId)
  | heartbeat (inst : InstanceId) (alive : Bool)

namespace Config

/-- The task a start adds. A reader is named by its place in the pool. -/
def started (c : Config) : Start → Task
  | .submit inst req => .submit { inst, req, pc := .create }
  | .cancel inst uuid => .cancel { inst, uuid, isLocal := false, prev := none, pc := .lookup }
  | .stream inst uuid =>
    .stream { reader := c.tasks.length, inst, uuid, yielded := [], pc := .lookup }
  | .dispatch inst => .dispatch { inst, pc := .len }
  | .drain inst providerId => .drain { inst, providerId, pc := .collect }
  | .sweep inst => .sweep { inst, pc := .collect }
  | .recover inst => .recover { inst, pc := .list }
  | .waitCancel inst => .waitCancel { inst, pc := .collect }
  | .reap inst => .reap { inst, pc := .list }

/-- A pass of the dispatcher on this instance that has not ended. -/
def Dispatching (inst : InstanceId) (t : Task) : Prop :=
  t.ended = false ∧ match t with
    | .dispatch d => d.inst = inst
    | _ => False

instance (inst : InstanceId) : DecidablePred (Dispatching inst) := fun t => by
  unfold Dispatching
  cases t <;> exact inferInstance

/-- The loop of an instance runs its passes one after the other. -/
def CanStart (c : Config) : Start → Prop
  | .dispatch inst => ∀ t ∈ c.tasks, ¬ Dispatching inst t
  | _ => True

instance (c : Config) : DecidablePred c.CanStart := fun s => by
  unfold CanStart
  cases s <;> exact inferInstance

/-- A restart of an instance ends its tasks and empties its maps. -/
def restarted (c : Config) (inst : InstanceId) : Config :=
  { world := { c.world with
      jobs := Function.update c.world.jobs inst fun _ => none
      cancelNotifiers := Function.update c.world.cancelNotifiers inst fun _ => none }
    tasks := c.tasks.map fun t =>
      if t.inst? = some inst ∧ t.ended = false then .killed else t }

def step (c : Config) : Action → Option Config
  | .start s => if c.CanStart s then some { c with tasks := c.tasks ++ [c.started s] } else none
  | .run k choice => do
    let t ← c.tasks[k]?
    let m ← t.step c.world choice
    return { world := c.world.apply m.access
             tasks := advance c.tasks k m.next (m.spawned.map Spawn.task) }
  | .tick elapsed => some { c with world := { c.world with now := c.world.now + elapsed } }
  | .restart inst => some (c.restarted inst)
  | .owner id inst =>
    some { c with world := { c.world with owner := Function.update c.world.owner id inst } }
  | .heartbeat inst alive =>
    some { c with world :=
      { c.world with heartbeat := Function.update c.world.heartbeat inst alive } }

def init (d : Deployment) : Config := { world := World.init d, tasks := [] }

end Config

/-! ## What a step can be -/

/-- A step of a task, by its kind. -/
inductive TaskMoved (w : World) (choice : Choice) : Task → Moved Task → Prop
  | submit {s : Submit} {m : Moved Submit} (h : s.step w = some m) :
      TaskMoved w choice (.submit s) (m.map .submit)
  | cancel {c : Cancel} {m : Moved Cancel} (h : c.step w = some m) :
      TaskMoved w choice (.cancel c) (m.map .cancel)
  | stream {s : Stream} {m : Moved Stream} (h : s.step w = some m) :
      TaskMoved w choice (.stream s) (m.map .stream)
  | dispatch {d : Dispatch} {m : Moved Dispatch} (h : d.step w choice = some m) :
      TaskMoved w choice (.dispatch d) (m.map .dispatch)
  | run {v : Worker} {m : Moved Worker} (h : v.step w choice = some m) :
      TaskMoved w choice (.run v) (m.map .run)
  | keepalive {k : Keepalive} {m : Moved Keepalive} (h : k.step w = some m) :
      TaskMoved w choice (.keepalive k) (m.map .keepalive)
  | cancelMessage {c : CancelMessage} {m : Moved CancelMessage} (h : c.step w = some m) :
      TaskMoved w choice (.cancelMessage c) (m.map .cancelMessage)
  | drain {d : Drain} {m : Moved Drain} (h : d.step w choice = some m) :
      TaskMoved w choice (.drain d) (m.map .drain)
  | cleanup {c : Cleanup} {m : Moved Cleanup} (h : c.step w = some m) :
      TaskMoved w choice (.cleanup c) (m.map .cleanup)
  | sweep {s : Sweep} {m : Moved Sweep} (h : s.step w choice = some m) :
      TaskMoved w choice (.sweep s) (m.map .sweep)
  | recover {r : Recover} {m : Moved Recover} (h : r.step w = some m) :
      TaskMoved w choice (.recover r) (m.map .recover)
  | waitCancel {q : WaitCancel} {m : Moved WaitCancel} (h : q.step w choice = some m) :
      TaskMoved w choice (.waitCancel q) (m.map .waitCancel)
  | reap {r : Reap} {m : Moved Reap} (h : r.step w = some m) :
      TaskMoved w choice (.reap r) (m.map .reap)

theorem Task.step_moved {w : World} {choice : Choice} {t : Task} {m : Moved Task}
    (h : t.step w choice = some m) : TaskMoved w choice t m := by
  cases t with
  | killed => cases h
  | _ =>
    obtain ⟨n, hn, rfl⟩ := Option.map_eq_some_iff.mp h
    constructor
    exact hn

/-- A step of a configuration, by its action. -/
inductive ConfigMoved (c : Config) : Action → Config → Prop
  | start {s : Start} (hs : c.CanStart s) :
      ConfigMoved c (.start s) { c with tasks := c.tasks ++ [c.started s] }
  | run {k : ℕ} {choice : Choice} {t : Task} {m : Moved Task} {others : List Task}
      {tasks : List Task} (ht : c.tasks[k]? = some t) (hm : t.step c.world choice = some m)
      (hreplaced : Replaced c.tasks t m.next (m.spawned.map Spawn.task) others tasks)
      (hothers : ∀ u ∈ others, ∃ l, l ≠ k ∧ c.tasks[l]? = some u) :
      ConfigMoved c (.run k choice) { world := c.world.apply m.access, tasks }
  | tick (elapsed : Millis) :
      ConfigMoved c (.tick elapsed)
        { c with world := { c.world with now := c.world.now + elapsed } }
  | restart (inst : InstanceId) : ConfigMoved c (.restart inst) (c.restarted inst)
  | owner (id : Uuid) (inst : Option InstanceId) :
      ConfigMoved c (.owner id inst)
        { c with world := { c.world with owner := Function.update c.world.owner id inst } }
  | heartbeat (inst : InstanceId) (alive : Bool) :
      ConfigMoved c (.heartbeat inst alive)
        { c with world :=
          { c.world with heartbeat := Function.update c.world.heartbeat inst alive } }

theorem Config.step_moved {c c' : Config} {a : Action} (h : c.step a = some c') :
    ConfigMoved c a c' := by
  cases a with
  | start s =>
    simp only [Config.step] at h
    split at h
    · next hs =>
      obtain rfl := Option.some.inj h
      exact .start hs
    · cases h
  | run k choice =>
    obtain ⟨t, ht, h⟩ := Option.bind_eq_some_iff.mp h
    obtain ⟨m, hm, h⟩ := Option.bind_eq_some_iff.mp h
    obtain rfl := Option.some.inj h
    obtain ⟨others, hreplaced, hothers⟩ := advance_replaced ht m.next (m.spawned.map Spawn.task)
    exact .run ht hm hreplaced hothers
  | tick elapsed => obtain rfl := Option.some.inj h; exact .tick elapsed
  | restart inst => obtain rfl := Option.some.inj h; exact .restart inst
  | owner id inst => obtain rfl := Option.some.inj h; exact .owner id inst
  | heartbeat inst alive => obtain rfl := Option.some.inj h; exact .heartbeat inst alive

/-! ## A small deployment -/

/-- Two instances without a message store. -/
def twoInstances : Deployment where
  instances := [0, 1]
  messageHashes := fun _ => none
  lifecyclePhase := fun _ => false
  messageStore := false

/-- A request with this prompt and no options. -/
def plainRequest (prompt : String) : SubmitJobRequest where
  prompt := prompt
  modelName := "m"
  providerType := .ollama
  geminiTier := none
  apiKeyId := none
  accountId := none
  source := .api
  apiFormat := .openaiCompat
  messages := none
  tools := none
  requestPath := none
  conversationId := none
  keyTier := none
  images := none
  stop := none
  seed := none
  responseFormat := none
  frequencyPenalty := none
  presencePenalty := none
  mcpLoopId := none
  maxTokens := none
  visionAnalysis := none

/-- A submission at instance 0, then a pass of the dispatcher of an instance that claims the job:
`loads` steps bring it from its window to the sort. -/
def submitThenDispatch (req : SubmitJobRequest) (inst : InstanceId) (loads : ℕ) : List Action :=
  .start (.submit 0 req) :: List.replicate 6 (.run 0 .go) ++
    .start (.dispatch inst) :: List.replicate (2 + loads) (.run 1 .go) ++
    [.run 1 (.scores (fun _ => false) 1), .run 1 (.provider 1 false)] ++
    List.replicate 4 (.run 1 .go)

namespace Config

/-- Whether some worker of the pool passes a test. -/
def anyWorker (c : Config) (p : Worker → Bool) : Bool :=
  c.tasks.any fun t => match t with
    | .run v => p v
    | _ => false

theorem mem_of_anyWorker {c : Config} {p : Worker → Bool} (h : c.anyWorker p = true) :
    ∃ v, .run v ∈ c.tasks ∧ p v = true := by
  obtain ⟨t, ht, hp⟩ := List.any_eq_true.mp h
  cases t with
  | run v => exact ⟨v, ht, hp⟩
  | _ => cases hp

end Config

end Veronex
