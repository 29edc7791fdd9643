import Veronex.Inference.Cluster

/-! # The agents' cleanup beside the gateway instances

`cleanup_instance` of `veronex-agent/src/orphan_sweeper.rs` with the statements of
`veronex-agent/src/persistence/mod.rs`. A cleanup reads and writes the owner keys, the rows and the
running counter of the gateways, and `veronex:queue:processing`, which no gateway instance writes.
Each command is a step, and any agent may clean up any instance at any time; which ones a sweep
picks, and the keys it keeps about them, are in `Agent.OrphanSweep`.
-/
namespace Veronex
open Concurrency
set_option autoImplicit false

def PROCESSING_BATCH_MAX : ℕ := 10000

/-- The `WHERE` clause of `fail_orphaned_job`. -/
def JobRow.orphaned (row : JobRow) : Bool := decide (row.status = .pending ∨ row.status = .running)

/-- The `UPDATE` of `fail_orphaned_job`. -/
def JobRow.failOrphaned (row : JobRow) (now : Millis) : JobRow :=
  if row.orphaned then
    { row with
      status := .failed, failureReason := some "server_crash", completedAt := some now }
  else row

inductive InstanceCleanupPc
  /-- `LRANGE`. -/
  | list
  | each (todo : List Uuid) (cleanedRunning : ℕ)
  | failRow (id : Uuid) (todo : List Uuid) (cleanedRunning : ℕ)
  /-- `LREM`. -/
  | unlist (id : Uuid) (todo : List Uuid) (cleanedRunning : ℕ)
  | removeOwner (id : Uuid) (todo : List Uuid) (cleanedRunning : ℕ)
  /-- `fail_running_jobs_for_instance`. -/
  | failInstance (cleanedRunning : ℕ)
  | decrRunning (cleanedRunning : ℕ)
  | finished
  deriving DecidableEq

/-- `cleanup_instance`. -/
structure InstanceCleanup where
  inst : InstanceId
  pc : InstanceCleanupPc

/-- What one command of an agent does. -/
inductive AgentAccess
  | read
  | failOrphaned (id : Uuid)
  | unlist (id : Uuid)
  | removeOwner (id : Uuid)
  | decrRunning (n : ℕ)

structure AgentMoved where
  access : AgentAccess
  next : InstanceCleanup

namespace InstanceCleanup

def goto (c : InstanceCleanup) (pc : InstanceCleanupPc) : InstanceCleanup := { c with pc }

/-- Asks who owns the next entry. -/
def each (w : World) (c : InstanceCleanup) (cleanedRunning : ℕ) : List Uuid → InstanceCleanup
  | [] => c.goto (.failInstance cleanedRunning)
  | id :: todo =>
    c.goto (if w.owner id = some c.inst then .failRow id todo cleanedRunning
      else .each todo cleanedRunning)

def step (w : World) (processing : List Uuid) (c : InstanceCleanup) : Option AgentMoved :=
  match c.pc with
  | .list =>
    some { access := .read, next := c.goto (.each (processing.take PROCESSING_BATCH_MAX) 0) }
  | .each todo cleanedRunning => some { access := .read, next := c.each w cleanedRunning todo }
  | .failRow id todo cleanedRunning =>
    let updated := (w.rows id).any JobRow.orphaned
    some { access := .failOrphaned id
           next := c.goto (if updated then .unlist id todo (cleanedRunning + 1)
             else .each todo cleanedRunning) }
  | .unlist id todo cleanedRunning =>
    some { access := .unlist id, next := c.goto (.removeOwner id todo cleanedRunning) }
  | .removeOwner id todo cleanedRunning =>
    some { access := .removeOwner id, next := c.goto (.each todo cleanedRunning) }
  | .failInstance cleanedRunning =>
    -- no migration makes the column `instance_id`: the statement fails, and `db_cleaned` is 0
    some { access := .read, next := c.goto (.decrRunning cleanedRunning) }
  | .decrRunning cleanedRunning =>
    some { access := if 0 < cleanedRunning then .decrRunning cleanedRunning else .read
           next := c.goto .finished }
  | .finished => none

end InstanceCleanup

/-! ## Gateways and agents -/

structure Platform where
  gateways : Config
  /-- `veronex:queue:processing`. -/
  processing : List Uuid
  cleanups : List InstanceCleanup

inductive PlatformAction
  | gateway (a : Action)
  | cleanup (inst : InstanceId)
  /-- The next command of a cleanup. -/
  | agent (k : ℕ)

namespace Platform

def init (d : Deployment) : Platform :=
  { gateways := Config.init d, processing := [], cleanups := [] }

def onWorld (f : Platform) (w : World) : Platform :=
  { f with gateways := { f.gateways with world := w } }

def apply (f : Platform) : AgentAccess → Platform
  | .read => f
  | .failOrphaned id =>
    let w := f.gateways.world
    f.onWorld (w.updateRow id (·.failOrphaned w.now))
  | .unlist id => { f with processing := f.processing.erase id }
  | .removeOwner id => f.onWorld (f.gateways.world.apply (.removeOwner id))
  | .decrRunning n => f.onWorld (f.gateways.world.apply (.incrRunning (-n)))

/-- The next command of a cleanup of this platform. -/
def moved (f : Platform) (k : ℕ) : Option AgentMoved := do
  let c ← f.cleanups[k]?
  c.step f.gateways.world f.processing

def step (f : Platform) : PlatformAction → Option Platform
  | .gateway a => (f.gateways.step a).map fun gateways => { f with gateways }
  | .cleanup inst => some { f with cleanups := f.cleanups ++ [{ inst, pc := .list }] }
  | .agent k =>
    (f.moved k).map fun m => { f.apply m.access with cleanups := f.cleanups.set k m.next }

/-- The instance dies. -/
def crashed (f : Platform) (inst : InstanceId) : Platform :=
  { f with gateways := f.gateways.restarted inst }

end Platform

/-! ## What a cleanup finds -/

/-- A cleanup that has found nothing. -/
def InstanceCleanup.Idle (c : InstanceCleanup) : Prop :=
  match c.pc with
  | .list | .finished => True
  | .each todo cleanedRunning => todo = [] ∧ cleanedRunning = 0
  | .failInstance cleanedRunning | .decrRunning cleanedRunning => cleanedRunning = 0
  | .failRow _ _ _ | .unlist _ _ _ | .removeOwner _ _ _ => False

/-- No job is listed as processing, and no cleanup has found one. -/
structure Platform.Idle (f : Platform) : Prop where
  processing : f.processing = []
  cleanups : ∀ c ∈ f.cleanups, c.Idle

namespace Platform

theorem idle_init (d : Deployment) : (init d).Idle where
  processing := rfl
  cleanups := List.forall_mem_nil _

theorem Idle.moved {f : Platform} {k : ℕ} {m : AgentMoved} (hf : f.Idle) (h : f.moved k = some m) :
    m.access = .read ∧ m.next.Idle := by
  obtain ⟨c, hk, hstep⟩ := Option.bind_eq_some_iff.mp h
  have hc := hf.cleanups c (List.mem_of_getElem? hk)
  obtain ⟨inst, pc⟩ := c
  cases pc with
  | list =>
    obtain rfl := Option.some.inj hstep
    refine ⟨rfl, ?_, rfl⟩
    rw [hf.processing, List.take_nil]
  | each todo cleanedRunning =>
    obtain ⟨rfl, rfl⟩ := hc
    obtain rfl := Option.some.inj hstep
    exact ⟨rfl, rfl⟩
  | failInstance cleanedRunning =>
    obtain rfl := Option.some.inj hstep
    exact ⟨rfl, hc⟩
  | decrRunning cleanedRunning =>
    obtain rfl : cleanedRunning = 0 := hc
    obtain rfl := Option.some.inj hstep
    exact ⟨rfl, trivial⟩
  | finished => cases hstep
  | _ => exact hc.elim

/-- A step of the platform is one of the gateways, or leaves them as they are. -/
theorem Idle.step {f f' : Platform} {a : PlatformAction} (hf : f.Idle) (h : f.step a = some f') :
    f'.Idle ∧ ((∃ b, a = .gateway b ∧ f.gateways.step b = some f'.gateways) ∨
      (∀ b, a ≠ .gateway b) ∧ f'.gateways = f.gateways) := by
  cases a with
  | gateway b =>
    obtain ⟨c, hc, rfl⟩ := Option.map_eq_some_iff.mp h
    exact ⟨⟨hf.processing, hf.cleanups⟩, .inl ⟨b, rfl, hc⟩⟩
  | cleanup inst =>
    obtain rfl := Option.some.inj h
    refine ⟨⟨hf.processing, fun c hc => ?_⟩, .inr ⟨fun b hb => (by cases hb), rfl⟩⟩
    rcases List.mem_append.mp hc with hold | hnew
    · exact hf.cleanups c hold
    · obtain rfl := List.mem_singleton.mp hnew
      trivial
  | agent k =>
    obtain ⟨m, hm, rfl⟩ := Option.map_eq_some_iff.mp h
    obtain ⟨hread, hnext⟩ := hf.moved hm
    rw [hread]
    refine ⟨⟨hf.processing, fun c hc => ?_⟩, .inr ⟨fun b hb => (by cases hb), rfl⟩⟩
    rcases List.mem_or_eq_of_mem_set hc with hold | rfl
    · exact hf.cleanups c hold
    · exact hnext

/-- Along every run no cleanup finds a job, and the gateways run as without agents. -/
theorem idle_reachable {d : Deployment} {f : Platform}
    (h : Run step (fun _ _ => True) (init d) f) :
    f.Idle ∧ Run Config.step (fun _ _ => True) (Config.init d) f.gateways := by
  refine h.invariant (I := fun f => f.Idle ∧
    Run Config.step (fun _ _ => True) (Config.init d) f.gateways) ⟨idle_init d, .refl _⟩ ?_
  intro f f' a _ ⟨hf, hrun⟩ _ hstep
  obtain ⟨hf', ⟨b, -, hb⟩ | ⟨-, hsame⟩⟩ := hf.step hstep
  · exact ⟨hf', hrun.snoc trivial hb⟩
  · exact ⟨hf', hsame ▸ hrun⟩

end Platform

end Veronex
