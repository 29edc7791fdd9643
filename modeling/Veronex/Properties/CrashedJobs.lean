import Veronex.Agent.Cleanup
import Veronex.Inference.Made
import Veronex.Properties.PendingCounter
import Veronex.Properties.QueuedJobs
import Veronex.Properties.Recovery
import Veronex.Properties.RunningCounter

/-! # The jobs of an instance that crashed

After a crash the jobs of the instance are for the agents' cleanup, which looks for them in
`queue:processing`, and for the lease reaper, which looks in `queue:active`. The dispatcher only
writes the second, so the cleanup finds none of them, and the reaper never writes the running
counter: what the crashed instance added to it stays (`nothing_decremented`). The reaper fails a job
or queues it again, unless it cannot read the row back (`lost_of_unkept`).
-/
namespace Veronex
open Concurrency
set_option autoImplicit false

/-! ## What a crash leaves behind -/

/-- A live worker of the instance executes the job, which was claimed and whose owner key is set. -/
structure Config.Executing (c : Config) (inst : InstanceId) (j : Uuid) : Prop where
  worker : c.anyWorker (fun v =>
    !(Task.run v).ended && decide (v.inst = inst ∧ v.uuid = j)) = true
  claimed : j ∈ c.world.active
  owner : c.world.owner j = some inst

instance (c : Config) (inst : InstanceId) (j : Uuid) : Decidable (c.Executing inst j) :=
  decidable_of_iff (_ ∧ _ ∧ _) ⟨fun ⟨h, h', h''⟩ => ⟨h, h', h''⟩, fun ⟨h, h', h''⟩ => ⟨h, h', h''⟩⟩

/-- Such a worker has incremented the running counter and not yet decremented it. -/
def Config.Counted (c : Config) (inst : InstanceId) (j : Uuid) : Prop :=
  c.anyWorker (fun v => !(Task.run v).ended &&
    decide (v.inst = inst ∧ v.uuid = j ∧ v.pc.runningWrites = [1])) = true

instance (c : Config) (inst : InstanceId) : DecidablePred (c.Counted inst) :=
  fun _ => inferInstanceAs (Decidable (_ = true))

/-- The platform has come to where `dead` executes the jobs `J`. -/
structure Platform.Executes (f : Platform) (d : Deployment) (dead : InstanceId) (J : Finset Uuid) :
    Prop where
  reachable : Run Platform.step (fun _ _ => True) (Platform.init d) f
  executing : ∀ j ∈ J, f.gateways.Executing dead j

/-- The step of a task that an action takes. -/
def Config.ran (c : Config) : Action → Option (Task × Moved Task)
  | .run k choice => do
    let t ← c.tasks[k]?
    let m ← t.step c.world choice
    return (t, m)
  | _ => none

/-- The job a reaper is busy with. -/
def Task.inHand : Task → Option Uuid
  | .reap r => match r.pc with
    | .giveUpRow id _ | .giveUpLease id _ | .giveUpAttempts id _ | .takeOut id _ _
    | .setAttempts id _ _ | .getJob id _ | .enqueue id _ _ _ | .leaseAgain id _ => some id
    | .list | .each _ | .finished => none
  | _ => none

namespace Platform

/-- The jobs an action queues. -/
def requeues (f : Platform) : PlatformAction → List Uuid
  | .gateway a => (f.gateways.ran a).elim [] fun r => f.gateways.world.accepts r.2.access
  | _ => []

/-- The jobs a reaper is done with. -/
def reaps (f : Platform) : PlatformAction → List Uuid
  | .gateway a => (f.gateways.ran a).elim [] fun r =>
    if r.2.next.inHand = r.1.inHand then [] else r.1.inHand.toList
  | _ => []

/-- What a cleanup of the dead instance or a reaper takes off the running counter. -/
def decrements (dead : InstanceId) (f : Platform) : PlatformAction → ℤ
  | .gateway a => (f.gateways.ran a).elim 0 fun r =>
    match r.1 with
    | .reap _ => -r.2.access.runningWrites.sum
    | _ => 0
  | .cleanup _ => 0
  | .agent k => (f.moved k).elim 0 fun m =>
    match m.access with
    | .decrRunning n => if m.next.inst = dead then n else 0
    | _ => 0

end Platform

/-- A platform after a crash, with what happened since: the jobs that were queued, the jobs that
reapers are done with, and what was taken off the running counter. -/
structure Aftermath where
  platform : Platform
  requeued : List Uuid
  reaped : List Uuid
  decremented : ℤ

namespace Aftermath

def start (platform : Platform) : Aftermath :=
  { platform, requeued := [], reaped := [], decremented := 0 }

def world (r : Aftermath) : World := r.platform.gateways.world

def step (dead : InstanceId) (r : Aftermath) (a : PlatformAction) : Option Aftermath :=
  (r.platform.step a).map fun platform =>
    { platform
      requeued := r.platform.requeues a ++ r.requeued
      reaped := r.platform.reaps a ++ r.reaped
      decremented := r.decremented + r.platform.decrements dead a }

/-- An agent has cleaned up the instance, and the reapers are done with its jobs. -/
structure Processed (r : Aftermath) (dead : InstanceId) (J : Finset Uuid) : Prop where
  cleaned : ∃ c ∈ r.platform.cleanups, c.inst = dead ∧ c.pc = .finished
  reaped : ∀ j ∈ J, j ∈ r.reaped

/-- Every job has ended or was queued again, and the running counter went down by what the jobs had
added to it. -/
def Recovered (r : Aftermath) (J : Finset Uuid) (counted : ℕ) : Prop :=
  (∀ j ∈ J, r.world.RowEnded j ∨ j ∈ r.requeued) ∧ r.decremented = counted

end Aftermath

instance (w : World) : DecidablePred w.RowEnded := fun j =>
  decidable_of_iff ((w.rows j).any (fun row => row.status.isTerminal) = true) (by
    simp [World.RowEnded, Option.any_eq_true])

/-- The reaper does not leave out a job of `J` whose row has not ended: it could read the row back,
and the queue takes the job. -/
def Reap.Keeps (w : World) (J : Finset Uuid) (r : Reap) : Prop :=
  match r.pc with
  | .leaseAgain id _ => id ∈ J → w.RowEnded id
  | .enqueue id _ model _ => id ∈ J → w.RowEnded id ∨ w.queue.Accepts model U64_MAX U64_MAX
  | _ => True

instance (w : World) (J : Finset Uuid) : DecidablePred (Reap.Keeps w J) := fun r => by
  unfold Reap.Keeps
  split <;> exact inferInstance

def JobsKept (J : Finset Uuid) (r : Aftermath) : PlatformAction → Prop
  | .gateway (.run k _) => match r.platform.gateways.tasks[k]? with
    | some (.reap p) => p.Keeps r.world J
    | _ => True
  | _ => True

instance (J : Finset Uuid) (r : Aftermath) : DecidablePred (JobsKept J r) := fun a => by
  unfold JobsKept
  split
  · split <;> exact inferInstance
  · exact inferInstance

/-! ## Queued and leased jobs have rows -/

/-- The job a reaper has failed and still has in hand. -/
def ReapPc.failed : ReapPc → Option Uuid
  | .giveUpLease id _ | .giveUpAttempts id _ => some id
  | _ => none

/-- The jobs a task is to enqueue have rows, and the row of a job that a reaper has failed ended. -/
def Task.Rowed (w : World) : Task → Prop
  | .submit s => s.pc.Known w
  | .recover r => ∀ job ∈ r.pc.jobs, w.rows job.id ≠ none
  | .reap r => (∀ j ∈ r.pc.jobs, w.rows j ≠ none) ∧ ∀ j, r.pc.failed = some j → w.RowEnded j
  | _ => True

structure World.Rowed (w : World) : Prop where
  zset : ∀ j ∈ w.queue.zset, w.rows j ≠ none
  active : ∀ j ∈ w.active, w.rows j ≠ none

/-- Ids are those of submissions, and no row is running. -/
def Config.Regular (c : Config) : Prop :=
  c.world.Made ∧ c.world.NotRunning ∧ ∀ t ∈ c.tasks, t.NotRunning

section Rows
variable {w w' : World} {choice : Choice}

theorem Task.Rowed.mono {t : Task} (h : t.Rowed w)
    (hrows : ∀ j, w.rows j ≠ none → w'.rows j ≠ none)
    (hended : ∀ j, w.RowEnded j → w'.RowEnded j) : t.Rowed w' := by
  cases t with
  | submit s =>
    have hknown : (FaultyTask.task (.submit s)).Known w := h
    exact hknown.mono hrows
  | recover r => exact fun job hjob => hrows _ (h job hjob)
  | reap r => exact ⟨fun j hj => hrows j (h.1 j hj), fun j hj => hended j (h.2 j hj)⟩
  | _ => trivial

theorem World.Rowed.apply {a : Access} (hw : w.Rowed)
    (henqueues : ∀ j, a.enqueues = some j → w.rows j ≠ none) : (w.apply a).Rowed where
  zset j hj := by
    refine rows_ne_none a ?_
    rcases mem_zset_before hj with hold | ⟨score, model, now, maxSize, maxPerModel, rfl⟩
    · exact hw.zset j hold
    · exact henqueues j rfl
  active j hj := by
    refine rows_ne_none a ?_
    rcases mem_active_before hj with hold | ⟨hqueued, -⟩
    · exact hw.active j hold
    · exact hw.zset j hqueued

theorem recover_rowed {r : Recover} {m : Moved Recover} (hmade : w.Made)
    (hr : (Task.recover r).Rowed w) (h : r.step w = some m) :
    (Task.recover m.next).Rowed (w.apply m.access) ∧
      ∀ j, m.access.enqueues = some j → w.rows j ≠ none := by
  constructor
  · intro job hjob
    refine rows_ne_none _ ?_
    rcases recover_lists h hjob with ⟨job₀, hold, hid⟩ | ⟨jobs, hjobs, hmem⟩
    · rw [← hid]
      exact hr job₀ hold
    · obtain ⟨j, row, hrow, hparse⟩ := listPending_mem hjobs hmem
      have hid : job.id = j := (rowToJob_id hparse).trans (hmade.rows j row hrow).1
      rw [hid, hrow]
      exact Option.some_ne_none row
  · intro j hj
    by_cases hkind : m.access.kind = .enqueue
    swap
    · exact absurd hj (enqueues_of_kind hkind j)
    obtain ⟨inst, pc⟩ := r
    cases pc with
    | enqueue job todo =>
      obtain rfl := Option.some.inj h
      obtain rfl := Option.some.inj hj
      exact hr job List.mem_cons_self
    | list | readOwner job todo =>
      simp only [Recover.step] at h
      split at h <;> (obtain rfl := Option.some.inj h; cases hkind)
    | finished => cases h
    | _ => obtain rfl := Option.some.inj h; cases hkind

theorem reap_rowed {r : Reap} {m : Moved Reap} (hw : w.Rowed) (hr : (Task.reap r).Rowed w)
    (h : r.step w = some m) :
    (Task.reap m.next).Rowed (w.apply m.access) ∧
      ∀ j, m.access.enqueues = some j → w.rows j ≠ none := by
  refine ⟨⟨fun j hj => rows_ne_none _ ?_, fun j hj => ?_⟩, fun j hj => ?_⟩
  · rcases reap_jobs h hj with hold | hleased
    · exact hr.1 j hold
    · exact hw.active j hleased
  · obtain ⟨inst, pc⟩ := r
    cases pc with
    | giveUpRow id todo =>
      obtain rfl := Option.some.inj h
      obtain rfl := Option.some.inj hj
      exact rowEnded_of_endRow rfl rfl (hr.1 id List.mem_cons_self)
    | giveUpLease id todo =>
      obtain rfl := Option.some.inj h
      exact (hr.2 j hj).apply (fun hkind => by cases hkind)
    | each todo =>
      obtain rfl := Option.some.inj h
      cases todo with
      | nil => cases hj
      | cons id todo =>
        simp only [Reap.each, Reap.goto] at hj
        split at hj <;> cases hj
    | getJob id todo =>
      simp only [Reap.step] at h
      split at h <;> (obtain rfl := Option.some.inj h; cases hj)
    | finished => cases h
    | _ => obtain rfl := Option.some.inj h; cases hj
  · by_cases hkind : m.access.kind = .enqueue
    swap
    · exact absurd hj (enqueues_of_kind hkind j)
    obtain ⟨inst, pc⟩ := r
    cases pc with
    | enqueue id score model todo =>
      obtain rfl := Option.some.inj h
      obtain rfl := Option.some.inj hj
      exact hr.1 id List.mem_cons_self
    | _ => exact absurd hkind (reap_ne_enqueue h (fun hrequeues => hrequeues))

/-- No task of a regular configuration resets a row. -/
theorem ne_resetRow {c : Config} {t : Task} {m : Moved Task} (hc : c.Regular) (ht : t ∈ c.tasks)
    (h : t.step c.world choice = some m) : m.access.kind ≠ .resetRow := by
  cases Task.step_moved h with
  | recover hs => exact (recover_notRunning hc.2.1 (hc.2.2 _ ht) hs).2.1
  | _ => exact ne_of_mayAccess (task_mayAccess h) rfl

end Rows

theorem regular_reachable {ok : Config → Action → Prop} {d : Deployment} {c : Config}
    (h : Run Config.step ok (Config.init d) c) : c.Regular :=
  ⟨(ids_made h).1, no_row_running h⟩

/-- A queued or leased job has a row, and a job that a reaper has failed has ended. -/
theorem rowed_reachable {d : Deployment} {c : Config}
    (h : Run Config.step (fun _ _ => True) (Config.init d) c) :
    c.world.Rowed ∧ ∀ t ∈ c.tasks, t.Rowed c.world := by
  refine local_invariant (W := World.Rowed) (T := fun w t => t.Rowed w)
    ⟨fun j hj => absurd hj (AList.notMem_empty j), fun j hj => absurd hj (AList.notMem_empty j)⟩
    (fun c s => ?_) (fun _ => trivial) (fun w w' henv hw => ?_) ?_
    (h.along fun x hx => regular_reachable hx)
  · cases s with
    | recover inst => exact List.forall_mem_nil _
    | reap inst => exact ⟨List.forall_mem_nil _, fun j hj => by cases hj⟩
    | _ => trivial
  · cases henv <;> exact ⟨⟨hw.zset, hw.active⟩, fun t ht => ht.mono (fun _ h => h) fun _ h => h⟩
  · intro c k choice t m hw ht hregular hk hm
    have hreset := ne_resetRow hregular (List.mem_of_getElem? hk) hm
    have hrows : ∀ j, c.world.rows j ≠ none → (c.world.apply m.access).rows j ≠ none :=
      fun j hj => rows_ne_none _ hj
    have hothers : ∀ u : Task, u.Rowed c.world → u.Rowed (c.world.apply m.access) :=
      fun u hu => hu.mono hrows fun j hj => hj.apply hreset
    have hspawned : ∀ s ∈ m.spawned, s.task.Rowed (c.world.apply m.access) := by
      intro s _
      cases s <;> trivial
    have hquiet : t.mayAccess .enqueue = false → (c.world.apply m.access).Rowed := fun hkind =>
      hw.apply fun j hj =>
        absurd hj (enqueues_of_kind (ne_of_mayAccess (task_mayAccess hm) hkind) j)
    cases Task.step_moved hm with
    | submit hs =>
      obtain ⟨hnext, hallows⟩ := submit_known hs ht
      exact ⟨hw.apply hallows.enqueue, hnext, hspawned, hothers⟩
    | recover hs =>
      obtain ⟨hnext, henqueues⟩ := recover_rowed hregular.1 ht hs
      exact ⟨hw.apply henqueues, hnext, hspawned, hothers⟩
    | reap hs =>
      obtain ⟨hnext, henqueues⟩ := reap_rowed hw ht hs
      exact ⟨hw.apply henqueues, hnext, hspawned, hothers⟩
    | _ => exact ⟨hquiet rfl, trivial, hspawned, hothers⟩

/-! ## The reaper -/

section Reapers
variable {w : World} {J : Finset Uuid} {r : Reap} {m : Moved Reap} {j : Uuid}

theorem reap_runningWrites (h : r.step w = some m) : m.access.runningWrites = [] := by
  obtain ⟨inst, pc⟩ := r
  cases pc with
  | getJob id todo =>
    simp only [Reap.step] at h
    split at h <;> (obtain rfl := Option.some.inj h; rfl)
  | finished => cases h
  | _ => obtain rfl := Option.some.inj h; rfl

/-- When a reaper is done with a job, the job has ended or is queued. -/
theorem reap_settles (hr : (Task.reap r).Rowed w) (hkeeps : r.Keeps w J) (h : r.step w = some m)
    (hj : j ∈ J) (hbefore : (Task.reap r).inHand = some j)
    (hafter : (Task.reap m.next).inHand ≠ (Task.reap r).inHand) :
    (w.apply m.access).RowEnded j ∨ j ∈ w.accepts m.access := by
  obtain ⟨inst, pc⟩ := r
  cases pc with
  | giveUpAttempts id todo =>
    obtain rfl := Option.some.inj h
    exact .inl ((hr.2 j hbefore).apply (fun hkind => by cases hkind))
  | leaseAgain id todo =>
    obtain rfl := Option.some.inj h
    obtain rfl := Option.some.inj hbefore
    exact .inl ((hkeeps hj).apply (fun hkind => by cases hkind))
  | enqueue id score model todo =>
    obtain rfl := Option.some.inj h
    obtain rfl := Option.some.inj hbefore
    rcases hkeeps hj with hended | haccepts
    · exact .inl (hended.apply (fun hkind => by cases hkind))
    · right
      simp only [World.accepts, Queue.zsetEnqueue_eq, if_pos haccepts, if_true]
      exact List.mem_singleton_self id
  | getJob id todo =>
    simp only [Reap.step] at h
    split at h <;> (obtain rfl := Option.some.inj h; exact absurd rfl hafter)
  | finished => cases h
  | list => cases hbefore
  | each todo => cases hbefore
  | _ => obtain rfl := Option.some.inj h; exact absurd rfl hafter

end Reapers

/-! ## Runs after a crash -/

section Runs
variable {d : Deployment} {f : Platform} {dead : InstanceId} {J : Finset Uuid} {r : Aftermath}

theorem ran_run {c : Config} {k : ℕ} {choice : Choice} {t : Task} {m : Moved Task}
    (hk : c.tasks[k]? = some t) (hm : t.step c.world choice = some m) :
    c.ran (.run k choice) = some (t, m) := by
  simp [Config.ran, hk, hm]

theorem run_world {c c' : Config} {k : ℕ} {choice : Choice} {t : Task} {m : Moved Task}
    (hk : c.tasks[k]? = some t) (hm : t.step c.world choice = some m)
    (h : c.step (.run k choice) = some c') : c'.world = c.world.apply m.access := by
  obtain ⟨t', hk', hrest⟩ := Option.bind_eq_some_iff.mp h
  obtain rfl := Option.some.inj (hk.symm.trans hk')
  obtain ⟨m', hm', hrest⟩ := Option.bind_eq_some_iff.mp hrest
  obtain rfl := Option.some.inj (hm.symm.trans hm')
  obtain rfl := Option.some.inj hrest
  rfl

theorem mem_of_ran {c : Config} {a : Action} {t : Task} {m : Moved Task}
    (h : c.ran a = some (t, m)) :
    ∃ k choice, a = .run k choice ∧ c.tasks[k]? = some t ∧ t.step c.world choice = some m := by
  cases a with
  | run k choice =>
    obtain ⟨t', hk, hrest⟩ := Option.bind_eq_some_iff.mp h
    obtain ⟨m', hm, heq⟩ := Option.bind_eq_some_iff.mp hrest
    obtain ⟨rfl, rfl⟩ := Prod.mk.inj (Option.some.inj heq)
    exact ⟨k, choice, rfl, hk, hm⟩
  | _ => cases h

theorem rowEnded_step {c c' : Config} {a : Action} {j : Uuid} (hc : c.Regular)
    (h : c.step a = some c') (hj : c.world.RowEnded j) : c'.world.RowEnded j := by
  cases Config.step_moved h with
  | run ht hm hreplaced _ => exact hj.apply (ne_resetRow hc hreplaced.task_mem hm)
  | _ => exact hj

theorem decrements_eq_zero (hf : f.Idle) (a : PlatformAction) : f.decrements dead a = 0 := by
  cases a with
  | gateway a =>
    simp only [Platform.decrements]
    cases hran : f.gateways.ran a with
    | none => rfl
    | some ran =>
      obtain ⟨t, m⟩ := ran
      obtain ⟨k, choice, rfl, -, hm⟩ := mem_of_ran hran
      cases Task.step_moved hm with
      | @reap p n hs =>
        have hwrites : (n.map Task.reap).access.runningWrites = [] := reap_runningWrites hs
        simp [hwrites]
      | _ => rfl
  | cleanup inst => rfl
  | agent k =>
    simp only [Platform.decrements]
    cases hm : f.moved k with
    | none => rfl
    | some m =>
      rw [Option.elim_some, (hf.moved hm).1]

/-- The platform runs on after the crash as before. -/
theorem aftermath_reachable {ok : Aftermath → PlatformAction → Prop}
    (h : Run Platform.step (fun _ _ => True) (Platform.init d) f)
    (hafter : Run (Aftermath.step dead) ok (Aftermath.start (f.crashed dead)) r) :
    Run Platform.step (fun _ _ => True) (Platform.init d) r.platform := by
  have hcrash : f.step (.gateway (.restart dead)) = some (f.crashed dead) := rfl
  refine hafter.invariant
    (I := fun r => Run Platform.step (fun _ _ => True) (Platform.init d) r.platform)
    (h.snoc trivial hcrash) ?_
  intro r r' a _ hrun _ hstep
  obtain ⟨f', hf', rfl⟩ := Option.map_eq_some_iff.mp hstep
  exact hrun.snoc trivial hf'

/-- Whatever happens after the crash, nothing is taken off the running counter. -/
theorem nothing_decremented {ok : Aftermath → PlatformAction → Prop}
    (h : Run Platform.step (fun _ _ => True) (Platform.init d) f)
    (hafter : Run (Aftermath.step dead) ok (Aftermath.start (f.crashed dead)) r) :
    r.decremented = 0 := by
  refine hafter.invariant (I := fun r => r.decremented = 0) rfl ?_
  intro r r' a hrun hzero _ hstep
  obtain ⟨f', -, rfl⟩ := Option.map_eq_some_iff.mp hstep
  have hidle := (Platform.idle_reachable (aftermath_reachable h hrun)).1
  show r.decremented + r.platform.decrements dead a = 0
  rw [hzero, decrements_eq_zero hidle, add_zero]

/-- The jobs of `J` that the reapers are done with have ended or were queued. -/
def Aftermath.Settled (r : Aftermath) (J : Finset Uuid) : Prop :=
  ∀ j ∈ J, j ∈ r.reaped → r.world.RowEnded j ∨ j ∈ r.requeued

theorem settled_step {r' : Aftermath} {a : PlatformAction}
    (h : Run Platform.step (fun _ _ => True) (Platform.init d) r.platform) (hr : r.Settled J)
    (hkept : JobsKept J r a) (hstep : r.step dead a = some r') : r'.Settled J := by
  obtain ⟨f', hf', rfl⟩ := Option.map_eq_some_iff.mp hstep
  obtain ⟨hidle, hgateways⟩ := Platform.idle_reachable h
  have hregular := regular_reachable hgateways
  have hended : ∀ j, r.world.RowEnded j → f'.gateways.world.RowEnded j := by
    intro j hj
    rcases (hidle.step hf').2 with ⟨b, -, hb⟩ | ⟨-, hsame⟩
    · exact rowEnded_step hregular hb hj
    · rw [hsame]
      exact hj
  intro j hj hreaped
  rcases List.mem_append.mp hreaped with hnew | hold
  · cases a with
    | gateway b =>
      obtain ⟨c', hb, rfl⟩ := Option.map_eq_some_iff.mp hf'
      simp only [Platform.reaps] at hnew
      cases hran : r.platform.gateways.ran b with
      | none =>
        rw [hran] at hnew
        cases hnew
      | some ran =>
        obtain ⟨t, m⟩ := ran
        rw [hran, Option.elim_some] at hnew
        obtain ⟨k, choice, rfl, hk, hm⟩ := mem_of_ran hran
        have hrowed := (rowed_reachable hgateways).2 t (List.mem_of_getElem? hk)
        have hc' : c'.world = r.world.apply m.access := run_world hk hm hb
        have hrequeues : r.platform.requeues (.gateway (.run k choice)) =
            r.world.accepts m.access := by
          simp only [Platform.requeues, hran]
          rfl
        split at hnew
        · cases hnew
        · next hafter =>
          have hbefore : t.inHand = some j := Option.mem_toList.mp hnew
          cases Task.step_moved hm with
          | @reap p n hs =>
            have hkeeps : p.Keeps r.world J := by
              simpa only [JobsKept, hk] using hkept
            rcases reap_settles hrowed hkeeps hs hj hbefore hafter with hrow | hqueued
            · left
              show c'.world.RowEnded j
              rw [hc']
              exact hrow
            · right
              refine List.mem_append_left _ ?_
              rw [hrequeues]
              exact hqueued
          | _ => cases hbefore
    | cleanup inst => cases hnew
    | agent k => cases hnew
  · rcases hr j hj hold with hrow | hqueued
    · exact .inl (hended j hrow)
    · exact .inr (List.mem_append_right _ hqueued)

/-- A job whose row could not be read back, or that the queue refuses, is lost with the next step of
the reaper. -/
theorem lost_of_unkept {r' : Aftermath} {k : ℕ} {choice : Choice} {p : Reap} {j : Uuid}
    (hk : r.platform.gateways.tasks[k]? = some (.reap p)) (hkeeps : ¬ p.Keeps r.world {j})
    (hqueued : j ∉ r.requeued) (hstep : r.step dead (.gateway (.run k choice)) = some r') :
    j ∈ r'.reaped ∧ ¬ r'.world.RowEnded j ∧ j ∉ r'.requeued := by
  obtain ⟨f', hf', rfl⟩ := Option.map_eq_some_iff.mp hstep
  obtain ⟨c', hc', rfl⟩ := Option.map_eq_some_iff.mp hf'
  have hlost : ∀ m, p.step r.world = some m → (Task.reap p).inHand = some j →
      (Task.reap m.next).inHand = none → ¬ (r.world.apply m.access).RowEnded j →
      r.world.accepts m.access = [] →
      j ∈ r.platform.reaps (.gateway (.run k choice)) ++ r.reaped ∧ ¬ c'.world.RowEnded j ∧
        j ∉ r.platform.requeues (.gateway (.run k choice)) ++ r.requeued := by
    intro m hm hbefore hafter hended haccepts
    have hmoved : (Task.reap p).step r.world choice = some (m.map .reap) := by
      simp only [Task.step, hm, Option.map_some]
    have hran : r.platform.gateways.ran (.run k choice) = some (.reap p, m.map .reap) :=
      ran_run hk hmoved
    refine ⟨List.mem_append_left _ ?_, ?_, fun hmem => ?_⟩
    · have hne : (m.map Task.reap).next.inHand ≠ (Task.reap p).inHand := by
        show (Task.reap m.next).inHand ≠ _
        rw [hafter, hbefore]
        exact (Option.some_ne_none j).symm
      simp only [Platform.reaps, hran, Option.elim_some, if_neg hne]
      rw [hbefore]
      exact List.mem_singleton_self j
    · rw [run_world hk hmoved hc']
      exact hended
    · rcases List.mem_append.mp hmem with hnew | hold
      · have hnone : r.platform.requeues (.gateway (.run k choice)) = [] := by
          simp only [Platform.requeues, hran, Option.elim_some]
          exact haccepts
        rw [hnone] at hnew
        cases hnew
      · exact hqueued hold
  obtain ⟨inst, pc⟩ := p
  cases pc with
  | leaseAgain id todo =>
    obtain ⟨hid, hended⟩ := Classical.not_imp.mp hkeeps
    obtain rfl := Finset.mem_singleton.mp hid
    exact hlost _ rfl rfl rfl hended rfl
  | enqueue id score model todo =>
    obtain ⟨hid, hnot⟩ := Classical.not_imp.mp hkeeps
    obtain ⟨hended, hrefused⟩ := not_or.mp hnot
    obtain rfl := Finset.mem_singleton.mp hid
    refine hlost _ rfl rfl rfl hended ?_
    simp [World.accepts, Queue.zsetEnqueue_eq, hrefused]
  | _ => exact absurd trivial hkeeps

end Runs

/-- While no reaper leaves out a job of the crashed instance whose row has not ended, its jobs are
recovered exactly if none of them had incremented the running counter. -/
theorem crashed_jobs_recovered_iff {d : Deployment} {f : Platform} {dead : InstanceId}
    {J : Finset Uuid} {r : Aftermath} (h : f.Executes d dead J)
    (hafter : Run (Aftermath.step dead) (JobsKept J) (Aftermath.start (f.crashed dead)) r)
    (hdone : r.Processed dead J) :
    r.Recovered J (J.filter (f.gateways.Counted dead)).card ↔
      ∀ j ∈ J, ¬ f.gateways.Counted dead j := by
  have hsettled : r.Settled J := by
    refine hafter.invariant (I := fun r => r.Settled J) (fun j _ hj => by cases hj) ?_
    intro r r' a hrun hr hkept hstep
    exact settled_step (aftermath_reachable h.reachable hrun) hr hkept hstep
  have hzero := nothing_decremented h.reachable hafter
  rw [← Finset.filter_eq_empty_iff, ← Finset.card_eq_zero]
  constructor
  · rintro ⟨-, hcard⟩
    rw [hzero] at hcard
    exact_mod_cast hcard.symm
  · intro hcard
    refine ⟨fun j hj => hsettled j hj (hdone.reaped j hj), ?_⟩
    rw [hzero, hcard]
    rfl

/-- A job that is submitted at instance 0 and claimed there; `worked` are steps of its worker. -/
def claimedAtZero (worked : List Choice) : List PlatformAction :=
  (submitThenDispatch (plainRequest "hi") 0 2 ++
    worked.map fun choice => Action.run 2 choice).map .gateway

/-- An agent cleans up instance 0, then instance 1 reaps the expired leases in task `k`. -/
def cleanedAndReaped (k : ℕ) : List PlatformAction :=
  .flatten [[.cleanup 0], .replicate 4 (.agent 0),
    (.tick LEASE_TTL_MS :: .start (.reap 1) :: List.replicate 7 (.run k .go)).map .gateway]

theorem forall_mem_zero {P : Uuid → Prop} (h : P 0) : ∀ j ∈ ({0} : Finset Uuid), P j := by
  intro j hj
  obtain rfl := Finset.mem_singleton.mp hj
  exact h

/-- What a computed run shows of an aftermath. -/
def Aftermath.processedZero (r : Aftermath) : Bool :=
  decide (0 ∈ r.reaped) && r.platform.cleanups.any fun c => decide (c.inst = 0 ∧ c.pc = .finished)

theorem Aftermath.processed_of_processedZero {r : Aftermath} (h : r.processedZero = true) :
    r.Processed 0 {0} := by
  obtain ⟨hreaped, hcleaned⟩ := (Bool.and_eq_true _ _).mp h
  obtain ⟨c, hc, hfinished⟩ := List.any_eq_true.mp hcleaned
  exact ⟨⟨c, hc, of_decide_eq_true hfinished⟩, forall_mem_zero (of_decide_eq_true hreaped)⟩

/-- The instance crashes before the worker of the job has taken a step. -/
theorem claimed_job_recovered : ∃ (f : Platform) (r : Aftermath), f.Executes twoInstances 0 {0} ∧
    r.Processed 0 {0} ∧ r.Recovered {0} (Finset.filter (f.gateways.Counted 0) {0}).card := by
  have hexec : (exec Platform.step (fun _ _ => true) (Platform.init twoInstances)
      (claimedAtZero [])).any (fun f =>
        decide (f.gateways.Executing 0 0 ∧ ¬ f.gateways.Counted 0 0) &&
          (exec (Aftermath.step 0) (fun r a => decide (JobsKept {0} r a))
            (Aftermath.start (f.crashed 0)) (cleanedAndReaped 3)).any
              Aftermath.processedZero) = true := by
    decide +kernel
  obtain ⟨f, hrun, hf⟩ :=
    @Run.exists_of_exec _ _ _ _ (fun _ _ => True) (fun _ _ _ => trivial) _ _ _ hexec
  obtain ⟨hfacts, hafter⟩ := (Bool.and_eq_true _ _).mp hf
  obtain ⟨hexecuting, hcounted⟩ := of_decide_eq_true hfacts
  obtain ⟨r, hafter, hr⟩ := Run.exists_of_exec (fun _ _ h => of_decide_eq_true h) hafter
  have hexecutes : f.Executes twoInstances 0 {0} := ⟨hrun, forall_mem_zero hexecuting⟩
  have hdone := Aftermath.processed_of_processedZero hr
  exact ⟨f, r, hexecutes, hdone,
    (crashed_jobs_recovered_iff hexecutes hafter hdone).mpr (forall_mem_zero hcounted)⟩

/-- The instance crashes after the worker has incremented the running counter. -/
theorem crashed_job_stays_counted :
    ¬ ∀ (d : Deployment) (f : Platform) (dead : InstanceId) (J : Finset Uuid) (r : Aftermath),
      f.Executes d dead J →
      Run (Aftermath.step dead) (fun _ _ => True) (Aftermath.start (f.crashed dead)) r →
      r.Processed dead J → r.Recovered J (J.filter (f.gateways.Counted dead)).card := by
  intro hall
  have hexec : (exec Platform.step (fun _ _ => true) (Platform.init twoInstances)
      (claimedAtZero [.go, .go, .runningFirst])).any (fun f =>
        decide (f.gateways.Executing 0 0 ∧ f.gateways.Counted 0 0) &&
          (exec (Aftermath.step 0) (fun _ _ => true) (Aftermath.start (f.crashed 0))
            (cleanedAndReaped 4)).any fun r =>
              decide (r.decremented = 0) && r.processedZero) = true := by
    decide +kernel
  obtain ⟨f, hrun, hf⟩ :=
    @Run.exists_of_exec _ _ _ _ (fun _ _ => True) (fun _ _ _ => trivial) _ _ _ hexec
  obtain ⟨hfacts, hafter⟩ := (Bool.and_eq_true _ _).mp hf
  obtain ⟨hexecuting, hcounted⟩ := of_decide_eq_true hfacts
  obtain ⟨r, hafter, hr⟩ :=
    @Run.exists_of_exec _ _ _ _ (fun _ _ => True) (fun _ _ _ => trivial) _ _ _ hafter
  obtain ⟨hzero, hprocessed⟩ := (Bool.and_eq_true _ _).mp hr
  have hrecovered := hall twoInstances f 0 {0} r ⟨hrun, forall_mem_zero hexecuting⟩ hafter
    (Aftermath.processed_of_processedZero hprocessed)
  have hcard := hrecovered.2
  rw [of_decide_eq_true hzero, Finset.filter_true_of_mem (forall_mem_zero hcounted)] at hcard
  exact absurd hcard (by decide)

end Veronex
