import Veronex.Inference.Invariants

/-! # The running counter

One execution of `run_job` is followed through all its steps while everything else about the shared
state is arbitrary: before each step any world may be there, so a cancel, another instance or the
passing of time can come in between any two of them. What a worker has done to the running counter
is a function of its control point (`WorkerPc.runningWrites`).
-/
namespace Veronex
open Concurrency
set_option autoImplicit false

/-! ## The writes of an access and of a control point -/

/-- The deltas an access adds to the running counter. -/
def Access.runningWrites : Access → List ℤ
  | .incrRunning delta => [delta]
  | _ => []

/-- The deltas a worker has added when it is here. -/
def WorkerPc.runningWrites : WorkerPc → List ℤ
  | .spawned | .setup | .earlyDecr | .counters | .counterRunning => []
  | .counterPending | .lifecycle | .boundary | .lifecycleRow _ | .lifecycleEntry _
  | .lifecycleDecr | .capture | .select | .received _ | .refreshOwner | .signalFlag | .signalDecr
  | .statusDecr | .errorFlag _ | .errorEntry _ | .errorRow _ | .errorDecr | .persist _ _
  | .notify _ _ | .finalEntry | .final _ .decrRunning | .panicked => [1]
  | .errorTpm | .final _ _ => [1, -1]
  | .block exit _ | .returned exit => if exit = .cancelledBeforeStart then [] else [1, -1]

theorem tpmAccess_runningWrites (v : Worker) (w : World) (tokens : ℕ) :
    (v.tpmAccess w tokens).runningWrites = [] := by
  unfold Worker.tpmAccess
  split
  · rfl
  · dsimp only
    split <;> rfl

section Step
variable {w : World} {v : Worker}

theorem persistStep_runningWrites (site : PersistSite) (pc : PersistPc) :
    (v.persistStep w site pc).next.pc.runningWrites =
      [1] ++ (v.persistStep w site pc).access.runningWrites := by
  have hafter : (Worker.afterPersist site).runningWrites = [1] := by cases site <;> rfl
  cases pc with
  | compareExchange flag =>
    simp only [Worker.persistStep]
    split
    · exact hafter
    · split
      · exact hafter
      · rfl
  | get => rfl
  | put turns => exact hafter

theorem finalStep_runningWrites (completedAt : Millis) (pc : FinalPc) :
    (v.finalStep w completedAt pc).next.pc.runningWrites =
      (WorkerPc.final completedAt pc).runningWrites ++
        (v.finalStep w completedAt pc).access.runningWrites := by
  cases pc with
  | readOwner =>
    simp only [Worker.finalStep]
    split <;> split <;> rfl
  | readFlag =>
    simp only [Worker.finalStep]
    split
    · rfl
    · split <;> rfl
  | compareExchange flag =>
    simp only [Worker.finalStep]
    split
    · rfl
    · split <;> rfl
  | counters =>
    simp only [Worker.finalStep]
    split
    · split <;> rfl
    · rfl
  | recordTpm =>
    simp only [Worker.finalStep, tpmAccess_runningWrites]
    rfl
  | _ => rfl

theorem blockStep_runningWrites (exit : Exit) (pc : BlockPc) :
    (v.blockStep exit pc).next.pc.runningWrites =
      (WorkerPc.block exit pc).runningWrites ++ (v.blockStep exit pc).access.runningWrites := by
  cases pc <;> simp [Worker.blockStep, Worker.goto, WorkerPc.runningWrites, Access.runningWrites]

/-- A step appends the writes of its access to those of the control point. -/
theorem step_runningWrites {choice : Choice} {m : Moved Worker} (h : v.step w choice = some m) :
    m.next.pc.runningWrites = v.pc.runningWrites ++ m.access.runningWrites := by
  obtain ⟨args, job, stop, apiKeyId, tpmMinute, startedAt, cancelNotify, ts, log, pc⟩ := v
  cases pc
  case persist site pc =>
    obtain rfl := Option.some.inj h
    exact persistStep_runningWrites site pc
  case final completedAt pc =>
    obtain rfl := Option.some.inj h
    exact finalStep_runningWrites completedAt pc
  case block exit pc =>
    obtain rfl := Option.some.inj h
    exact blockStep_runningWrites exit pc
  case notify cell site =>
    obtain rfl := Option.some.inj h
    cases site <;> rfl
  case errorTpm =>
    obtain rfl := Option.some.inj h
    simp only [tpmAccess_runningWrites]
    rfl
  all_goals simp only [Worker.step, Worker.receiveStep] at h
  all_goals repeat' (split at h)
  all_goals first
    | (obtain rfl := Option.some.inj h; rfl)
    | cases h

end Step

/-! ## Executions -/

/-- A worker with the accesses it has made so far. -/
abbrev Traced := List Access × Worker

/-- A step of the worker in the world that is there now. -/
def Worker.traceStep (s : Traced) (a : World × Choice) : Option Traced :=
  (s.2.step a.1 a.2).map fun m => (s.1 ++ [m.access], m.next)

/-- The executions of the block that the dispatcher spawns with these arguments. -/
def Executes (args : RunArgs) : Traced → Prop :=
  Run Worker.traceStep (fun _ _ => True) ([], Worker.start args)

theorem Executes.step {args : RunArgs} {as : List Access} {v : Worker} {w : World}
    {choice : Choice} {m : Moved Worker} (h : Executes args (as, v))
    (hm : v.step w choice = some m) : Executes args (as ++ [m.access], m.next) :=
  h.snoc (a := (w, choice)) trivial (Option.map_eq_some_iff.mpr ⟨m, hm, rfl⟩)

theorem Executes.runningWrites {args : RunArgs} {s : Traced} (h : Executes args s) :
    s.1.flatMap Access.runningWrites = s.2.pc.runningWrites := by
  refine Run.invariant (I := fun s : Traced => s.1.flatMap Access.runningWrites =
    s.2.pc.runningWrites) h rfl ?_
  intro x y a _ hx _ hs
  obtain ⟨m, hm, rfl⟩ := Option.map_eq_some_iff.mp hs
  rw [step_runningWrites hm, ← hx, List.flatMap_append, List.flatMap_singleton]

/-- A worker that has neither returned nor panicked can take a step in every world. -/
theorem worker_not_stuck (w : World) (v : Worker) (h : (Task.run v).ended = false) :
    ∃ choice m, v.step w choice = some m := by
  obtain ⟨args, job, stop, apiKeyId, tpmMinute, startedAt, cancelNotify, ts, log, pc⟩ := v
  cases pc
  case returned exit => simp [Task.ended] at h
  case panicked => simp [Task.ended] at h
  case counters => exact ⟨.pendingFirst, _, rfl⟩
  case lifecycle =>
    refine ⟨.ready (.ok ()), ?_⟩
    simp only [Worker.step]
    split <;> exact ⟨_, rfl⟩
  case select =>
    refine ⟨.item none, ?_⟩
    simp only [Worker.step]
    split <;> exact ⟨_, rfl⟩
  all_goals
    refine ⟨.go, ?_⟩
    simp only [Worker.step]
    repeat' split
    all_goals exact ⟨_, rfl⟩

/-! ## In the cluster -/

/-- Every worker of the pool is at the end of one of its executions. -/
def Config.Executed (c : Config) : Prop :=
  ∀ t ∈ c.tasks, ∀ v, t = .run v → ∃ as, Executes v.args (as, v)

theorem executed_reachable {d : Deployment} {c : Config}
    (h : Run Config.step (fun _ _ => True) (Config.init d) c) : c.Executed := by
  refine h.invariant (by intro t ht; cases ht) ?_
  intro c c' a _ hc _ hs
  -- a worker is new or makes one more step of its execution
  have hspawn : ∀ s : Spawn, ∀ v, s.task = .run v → ∃ as, Executes v.args (as, v) := by
    intro s v hv
    cases s with
    | run args =>
      obtain rfl := Task.run.inj hv
      exact ⟨[], .refl _⟩
    | _ => cases hv
  cases Config.step_moved hs with
  | @start s hstart =>
    intro t ht v hv
    rcases List.mem_append.mp ht with ht | ht
    · exact hc t ht v hv
    · obtain rfl := List.mem_singleton.mp ht
      cases s <;> cases hv
  | run ht hm hreplaced _ =>
    refine hreplaced.forall_mem (fun t ht => hc t (hreplaced.other_mem_before ht)) ?_ ?_
    · intro v hv
      cases Task.step_moved hm with
      | run hstep =>
        obtain rfl := Task.run.inj hv
        obtain ⟨as, has⟩ := hc _ hreplaced.task_mem _ rfl
        rw [step_args hstep]
        exact ⟨_, has.step hstep⟩
      | _ => cases hv
    · intro t ht v hv
      obtain ⟨s, -, rfl⟩ := List.mem_map.mp ht
      exact hspawn s v hv
  | tick => exact hc
  | restart inst =>
    intro t ht v hv
    obtain ⟨u, hu, rfl⟩ := List.mem_map.mp ht
    split at hv
    · cases hv
    · exact hc u hu v hv
  | owner => exact hc
  | heartbeat => exact hc

end Veronex
