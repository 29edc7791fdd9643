import Veronex.Inference.Invariants

/-! # The place of a job

While nothing puts a job back into the queue (`NoRequeue`), a job is in one place at a time: with the
submission that makes it, in the queue, with the dispatcher that claimed it or the wait-cancel that
removed it, or with its one worker (`Config.Placed`). A job that has left the queue stays out of it
(`Config.Off`).
-/
namespace Veronex
open Concurrency
set_option autoImplicit false

/-- A reaper that is about to put a job back. -/
def Reap.Requeues (r : Reap) : Prop :=
  match r.pc with
  | .enqueue _ _ _ _ => True
  | _ => False

/-- Nobody starts a recovery and no reaper puts a job back into the queue. -/
def NoRequeue (c : Config) : Action → Prop
  | .start (.recover _) => False
  | .run k _ => ∀ r, c.tasks[k]? = some (.reap r) → ¬ r.Requeues
  | _ => True

/-- The job a submission has made and not enqueued yet. -/
def SubmitPc.submitting : SubmitPc → Option Uuid
  | .save job | .insertNotifier job | .insertEntry job _ | .incrPending job | .enqueue job =>
    some job.id
  | _ => none

/-- The job a submission has made and neither enqueued nor given up. -/
def SubmitPc.held : SubmitPc → Option Uuid
  | .save job | .insertNotifier job | .insertEntry job _ | .incrPending job | .enqueue job
  | .rejectDecr job | .rejectEntry job | .rejectNotifier job | .rejectRow job => some job.id
  | _ => none

/-- The job a dispatcher has claimed and neither handed over nor failed. -/
def DispatchPc.held : DispatchPc → Option Uuid
  | .failJob c _ _ | .assign c _ | .setOwner c _ => some c.uuid
  | _ => none

/-- The job a wait-cancel has removed from the queue and not failed yet. -/
def WaitCancelPc.held : WaitCancelPc → Option Uuid
  | .failRow id _ => some id
  | _ => none

/-- The job a task has. A worker keeps it when it has ended. -/
def Task.held : Task → Option Uuid
  | .submit s => s.pc.held
  | .dispatch d => d.pc.held
  | .run v => some v.uuid
  | .waitCancel q => q.pc.held
  | _ => none

def Task.submitting : Task → Option Uuid
  | .submit s => s.pc.submitting
  | _ => none

theorem held_of_submitting {t : Task} {j : Uuid} (h : t.submitting = some j) : t.held = some j := by
  cases t with
  | submit s =>
    obtain ⟨inst, req, pc⟩ := s
    cases pc <;> first | exact h | cases h
  | _ => cases h

/-- How often a task has the job. -/
def Task.has (j : Uuid) (t : Task) : ℕ := if t.held = some j then 1 else 0

def World.inQueue (w : World) (j : Uuid) : ℕ := if j ∈ w.queue.zset then 1 else 0

theorem World.inQueue_eq_zero {w : World} {j : Uuid} : w.inQueue j = 0 ↔ j ∉ w.queue.zset := by
  simp [World.inQueue]

structure Config.Placed (c : Config) : Prop where
  noRecovery : ∀ r, .recover r ∉ c.tasks
  once : ∀ j, c.world.inQueue j + weight (Task.has j) c.tasks ≤
    if j < c.world.nextJob then 1 else 0

/-- The job was made, and it is neither queued nor about to be. -/
structure Config.Off (c : Config) (j : Uuid) : Prop where
  made : j < c.world.nextJob
  queue : j ∉ c.world.queue.zset
  submitted : ∀ t ∈ c.tasks, t.submitting ≠ some j

/-! ## Accesses -/

section Accesses
variable {w : World} {a : Access} {j : Uuid}

theorem inQueue_mono {w' : World} (h : j ∈ w'.queue.zset → j ∈ w.queue.zset) :
    w'.inQueue j ≤ w.inQueue j := by
  unfold World.inQueue
  split_ifs <;> first | omega | tauto

/-- Only an enqueue of the job puts it into the queue. -/
theorem mem_zset_before (h : j ∈ (w.apply a).queue.zset) :
    j ∈ w.queue.zset ∨ ∃ score model now maxSize maxPerModel,
      a = .zsetEnqueue j score model now maxSize maxPerModel := by
  cases a with
  | zsetEnqueue id score model now maxSize maxPerModel =>
    by_cases hid : j = id
    · subst hid
      exact .inr ⟨score, model, now, maxSize, maxPerModel, rfl⟩
    · simp only [World.apply, Queue.zsetEnqueue_eq] at h
      split at h
      · exact .inl (((w.queue.mem_zset_enqueued id score model now).mp h).resolve_left hid)
      · exact .inl h
  | zsetClaim id model now =>
    simp only [World.apply, Queue.zsetClaim_eq] at h
    split at h
    · exact .inl ((w.queue.mem_zset_dequeue id model).mp h).2
    · exact .inl h
  | zsetCancel id model =>
    simp only [World.apply, Queue.zsetCancel_eq] at h
    split at h
    · exact .inl ((w.queue.mem_zset_dequeue id model).mp h).2
    · exact .inl h
  | _ => exact .inl h

theorem mem_zset_of_kind (ha : a.kind ≠ .enqueue) (h : j ∈ (w.apply a).queue.zset) :
    j ∈ w.queue.zset := by
  rcases mem_zset_before h with h | ⟨_, _, _, _, _, rfl⟩
  · exact h
  · exact absurd rfl ha

theorem inQueue_le_one (w : World) (j : Uuid) : w.inQueue j ≤ 1 := by
  unfold World.inQueue
  split_ifs <;> omega

theorem inQueue_le (ha : a.kind ≠ .enqueue) : (w.apply a).inQueue j ≤ w.inQueue j :=
  inQueue_mono (mem_zset_of_kind ha)

/-- A claim or a cancel of the job takes it out of the queue. -/
theorem inQueue_claim (model : String) (now : Millis) :
    (w.apply (.zsetClaim j model now)).inQueue j = 0 := by
  rw [World.inQueue_eq_zero]
  simp only [World.apply, Queue.zsetClaim_eq]
  split
  · exact fun h => ((w.queue.mem_zset_dequeue j model).mp h).1 rfl
  · next h => exact h

theorem inQueue_cancel (model : String) : (w.apply (.zsetCancel j model)).inQueue j = 0 := by
  rw [World.inQueue_eq_zero]
  simp only [World.apply, Queue.zsetCancel_eq]
  split
  · exact fun h => ((w.queue.mem_zset_dequeue j model).mp h).1 rfl
  · next h => exact h

end Accesses

/-! ## What a step does to the places -/

/-- A job changes hands: it is made by a submission, enqueued, taken out of the queue, given to a
worker or failed by the task that has it, or every task keeps what it has. -/
inductive Handover (w : World) (t : Task) (m : Moved Task) : Prop
  | keeps (hheld : m.next.held = t.held) (hplain : m.Plain)
      (hqueue : ∀ j, j ∈ (w.apply m.access).queue.zset → j ∈ w.queue.zset)
  | makes (ht : t.held = none) (hheld : m.next.held = some w.nextJob) (hplain : m.Plain)
      (hkind : m.access.kind = .request)
  | enqueues (id : Uuid) (score : ℕ) (model : String) (now : Millis) (ht : t.submitting = some id)
      (hheld : m.next.held = none) (hplain : m.Plain) (hkind : m.access.kind = .enqueue)
      (hacc : w.queue.Accepts model MAX_QUEUE_SIZE MAX_QUEUE_PER_MODEL)
      (hqueue : (w.apply m.access).queue = w.queue.enqueued id score model now)
  | takes (id : Uuid) (model : String) (ht : t.held = none) (hheld : m.next.held = some id)
      (hplain : m.Plain) (hid : id ∈ w.queue.zset)
      (ha : m.access = .zsetClaim id model w.now ∨ m.access = .zsetCancel id model)
  | gives (args : RunArgs) (ht : t.held = some args.uuid) (hheld : m.next.held = none)
      (hspawned : m.spawned = [.run args]) (hkind : m.access.kind = .owner)
  | fails (id : Uuid) (reason : String) (error : Option String) (ht : t.held = some id)
      (hheld : m.next.held = none) (hplain : m.Plain) (ha : m.access = .failRow id reason error)

section Steps
variable {w : World} {choice : Choice} {j : Uuid}

theorem submit_handover {s : Submit} {m : Moved Submit} (h : s.step w = some m) :
    Handover w (.submit s) (m.map .submit) := by
  have hplain : (m.map Task.submit).Plain := plain_of_nil (submit_spawned h)
  obtain ⟨inst, req, pc⟩ := s
  cases pc with
  | create =>
    simp only [Submit.step] at h
    split at h
    · obtain rfl := Option.some.inj h
      exact .keeps rfl hplain fun j hj => hj
    · next job hjob =>
      obtain rfl := Option.some.inj h
      obtain ⟨prompt, modelName, -, -, rfl⟩ := buildJob_ok hjob
      exact .makes rfl rfl hplain rfl
  | enqueue job =>
    obtain rfl := Option.some.inj h
    have hqueue := w.queue.zsetEnqueue_eq job.id (w.now - tierBonus req.source req.keyTier)
      req.modelName w.now MAX_QUEUE_SIZE MAX_QUEUE_PER_MODEL
    by_cases hacc : w.queue.Accepts req.modelName MAX_QUEUE_SIZE MAX_QUEUE_PER_MODEL
    · rw [if_pos hacc] at hqueue
      refine .enqueues job.id _ _ _ rfl ?_ hplain rfl hacc (congrArg Prod.fst hqueue)
      simp only [Moved.map, hqueue]
      rfl
    · rw [if_neg hacc] at hqueue
      refine .keeps ?_ hplain fun j hj => ?_
      · simp only [Moved.map, hqueue]
        rfl
      · have hsame : (w.apply (.zsetEnqueue job.id (w.now - tierBonus req.source req.keyTier)
            req.modelName w.now MAX_QUEUE_SIZE MAX_QUEUE_PER_MODEL)).queue = w.queue :=
          congrArg Prod.fst hqueue
        rwa [Moved.map, hsame] at hj
  | rejectRow job =>
    obtain rfl := Option.some.inj h
    exact .fails job.id _ _ rfl rfl hplain rfl
  | returned result => cases h
  | _ =>
    obtain rfl := Option.some.inj h
    exact .keeps rfl hplain fun j hj => hj

theorem dispatch_handover {d : Dispatch} {m : Moved Dispatch} (h : d.step w choice = some m) :
    Handover w (.dispatch d) (m.map .dispatch) := by
  have hqueue : ∀ j, j ∈ (w.apply m.access).queue.zset → j ∈ w.queue.zset := fun j =>
    mem_zset_of_kind (ne_of_mayAccess (dispatch_mayAccess h) rfl)
  have hkeeps : m.next.pc.held = d.pc.held → m.spawned = [] →
      Handover w (.dispatch d) (m.map .dispatch) := fun hheld hspawned =>
    .keeps hheld (plain_of_nil hspawned) hqueue
  obtain ⟨inst, pc⟩ := d
  cases pc
  case claim c provider rest =>
    obtain rfl := Option.some.inj h
    by_cases hc : c.uuid ∈ w.queue.zset
    · refine .takes c.uuid _ rfl ?_ (plain_of_nil rfl) hc (.inl rfl)
      simp only [Moved.map, Task.held, Dispatch.goto, Queue.zsetClaim_eq, if_pos hc, if_true]
      rfl
    · refine hkeeps ?_ rfl
      simp only [Dispatch.goto, Queue.zsetClaim_eq, if_neg hc]
      rfl
  case claimToFail c rest =>
    obtain rfl := Option.some.inj h
    by_cases hc : c.uuid ∈ w.queue.zset
    · refine .takes c.uuid _ rfl ?_ (plain_of_nil rfl) hc (.inl rfl)
      simp only [Moved.map, Task.held, Dispatch.goto, Queue.zsetClaim_eq, if_pos hc, if_true]
      rfl
    · refine hkeeps ?_ rfl
      simp only [Dispatch.goto, Queue.zsetClaim_eq, if_neg hc]
      rfl
  case setOwner c provider =>
    obtain rfl := Option.some.inj h
    exact .gives (Dispatch.runArgs ⟨inst, .setOwner c provider⟩ c provider) rfl rfl rfl rfl
  case failJob c rest pc =>
    obtain rfl := Option.some.inj h
    cases pc with
    | row => exact .fails c.uuid _ _ rfl rfl (plain_of_cleanup rfl) rfl
    | entry =>
      simp only [Dispatch.failStep] at hkeeps ⊢
      split at hkeeps <;> exact hkeeps rfl rfl
    | _ => exact hkeeps rfl rfl
  case load now todo scored =>
    obtain rfl := Option.some.inj h
    cases todo with
    | nil =>
      refine hkeeps ?_ rfl
      simp only [Dispatch.loadStep, Dispatch.goto]
      split <;> rfl
    | cons entry todo =>
      simp only [Dispatch.loadStep] at hkeeps ⊢
      split at hkeeps <;> exact hkeeps rfl rfl
  case attempt rest =>
    cases rest with
    | nil => obtain rfl := Option.some.inj h; exact hkeeps rfl rfl
    | cons c rest =>
      simp only [Dispatch.step, Dispatch.attemptStep] at h
      split at h <;> first
        | (obtain rfl := Option.some.inj h; exact hkeeps rfl rfl)
        | cases h
  case peek k =>
    obtain rfl := Option.some.inj h
    refine hkeeps ?_ rfl
    simp only [Dispatch.goto]
    split <;> rfl
  case countMiss c rest =>
    obtain rfl := Option.some.inj h
    refine hkeeps ?_ rfl
    simp only [Dispatch.goto]
    split <;> rfl
  case resetMisses c provider rest =>
    obtain rfl := Option.some.inj h
    refine hkeeps ?_ rfl
    cases provider <;> rfl
  all_goals simp only [Dispatch.step] at h
  all_goals repeat' (split at h)
  all_goals first
    | (obtain rfl := Option.some.inj h; exact hkeeps rfl rfl)
    | cases h

theorem waitCancel_handover {q : WaitCancel} {m : Moved WaitCancel}
    (h : q.step w choice = some m) : Handover w (.waitCancel q) (m.map .waitCancel) := by
  have hplain : (m.map Task.waitCancel).Plain := plain_of_nil (waitCancel_spawned h)
  have hqueue : ∀ j, j ∈ (w.apply m.access).queue.zset → j ∈ w.queue.zset := fun j =>
    mem_zset_of_kind (ne_of_mayAccess (waitCancel_mayAccess h) rfl)
  have hkeeps : m.next.pc.held = q.pc.held → Handover w (.waitCancel q) (m.map .waitCancel) :=
    fun hheld => .keeps hheld hplain hqueue
  obtain ⟨inst, pc⟩ := q
  cases pc with
  | collect =>
    simp only [WaitCancel.step] at h
    split at h <;> first
      | (obtain rfl := Option.some.inj h; exact hkeeps rfl)
      | cases h
  | scan now keys expired =>
    obtain rfl := Option.some.inj h
    refine hkeeps ?_
    cases keys with
    | nil =>
      simp only [WaitCancel.scan, WaitCancel.goto]
      split <;> rfl
    | cons id keys =>
      simp only [WaitCancel.scan, WaitCancel.goto]
      split <;> rfl
  | models expired => obtain rfl := Option.some.inj h; exact hkeeps rfl
  | cancel todo =>
    obtain rfl := Option.some.inj h
    cases todo with
    | nil => exact hkeeps rfl
    | cons entry todo =>
      obtain ⟨id, model⟩ := entry
      simp only [WaitCancel.cancel, Queue.zsetCancel_eq] at hplain hkeeps ⊢
      by_cases hid : id ∈ w.queue.zset
      · simp only [if_pos hid] at hplain ⊢
        exact .takes id model rfl rfl hplain hid (.inr rfl)
      · simp only [if_neg hid] at hkeeps ⊢
        exact hkeeps rfl
  | failRow id todo =>
    obtain rfl := Option.some.inj h
    exact .fails id _ _ rfl rfl hplain rfl
  | decrPending todo => obtain rfl := Option.some.inj h; exact hkeeps rfl
  | finished => cases h

theorem reap_ne_enqueue {r : Reap} {m : Moved Reap} (h : r.step w = some m) (hr : ¬ r.Requeues) :
    m.access.kind ≠ .enqueue := by
  obtain ⟨inst, pc⟩ := r
  cases pc
  case enqueue id score model todo => exact absurd trivial hr
  all_goals simp only [Reap.step] at h
  all_goals repeat' (split at h)
  all_goals first
    | (obtain rfl := Option.some.inj h; rintro ⟨⟩)
    | cases h

theorem task_handover {t : Task} {m : Moved Task} (h : t.step w choice = some m)
    (hrecover : ∀ r, t ≠ .recover r) (hreap : ∀ r, t = .reap r → ¬ r.Requeues) :
    Handover w t m := by
  have hqueue : t.mayAccess .enqueue = false →
      ∀ j, j ∈ (w.apply m.access).queue.zset → j ∈ w.queue.zset := fun hkind j =>
    mem_zset_of_kind (ne_of_mayAccess (task_mayAccess h) hkind)
  cases Task.step_moved h with
  | submit hs => exact submit_handover hs
  | dispatch hs => exact dispatch_handover hs
  | waitCancel hs => exact waitCancel_handover hs
  | run hs =>
    refine .keeps ?_ (worker_plain hs) (hqueue rfl)
    simp only [Moved.map, Task.held, Worker.uuid, step_args hs]
  | reap hs =>
    exact .keeps rfl (plain_of_nil (reap_spawned hs)) fun j =>
      mem_zset_of_kind (reap_ne_enqueue hs (hreap _ rfl))
  | recover hs => exact absurd rfl (hrecover _)
  | _ => exact .keeps rfl (task_plain h rfl) (hqueue rfl)

theorem plain_has {M : Type} {m : Moved M} (h : m.Plain) :
    weight (Task.has j) (m.spawned.map Spawn.task) = 0 := by
  rw [weight_eq_zero]
  intro u hu
  obtain ⟨s, hs, rfl⟩ := List.mem_map.mp hu
  cases s with
  | run args => exact absurd rfl (h _ hs args)
  | _ => rfl

theorem has_of_held {t : Task} {o : Option Uuid} (h : t.held = o) :
    t.has j = if o = some j then 1 else 0 := by
  rw [Task.has, h]

/-- No handover makes a second place of a job out of one. -/
theorem Handover.has_le {t : Task} {m : Moved Task} (h : Handover w t m) :
    (w.apply m.access).inQueue j +
        (m.next.has j + weight (Task.has j) (m.spawned.map Spawn.task)) ≤
      w.inQueue j + t.has j + if m.access.kind = .request ∧ j = w.nextJob then 1 else 0 := by
  cases h with
  | keeps hheld hplain hqueue =>
    have hle := inQueue_mono (hqueue j)
    rw [plain_has hplain, has_of_held hheld, Task.has]
    omega
  | makes ht hheld hplain hkind =>
    have hle : (w.apply m.access).inQueue j ≤ w.inQueue j := inQueue_le (by rw [hkind]; rintro ⟨⟩)
    rw [plain_has hplain, has_of_held hheld, has_of_held ht]
    simp only [hkind, true_and, reduceCtorEq, if_false, Option.some.injEq, eq_comm (a := j)]
    omega
  | enqueues id score model now ht hheld hplain hkind hacc hqueue =>
    rw [plain_has hplain, has_of_held hheld, has_of_held (held_of_submitting ht)]
    by_cases hj : id = j
    · have hone := inQueue_le_one (w.apply m.access) j
      rw [if_pos (congrArg some hj)]
      simp only [reduceCtorEq, if_false]
      omega
    · have hle : (w.apply m.access).inQueue j ≤ w.inQueue j := by
        refine inQueue_mono fun hz => ?_
        rw [hqueue, Queue.mem_zset_enqueued] at hz
        exact hz.resolve_left (Ne.symm hj)
      simp only [reduceCtorEq, if_false]
      omega
  | takes id model ht hheld hplain hid ha =>
    rw [plain_has hplain, has_of_held hheld, has_of_held ht]
    by_cases hj : id = j
    · subst hj
      have hone : w.inQueue id = 1 := if_pos hid
      have hzero : (w.apply m.access).inQueue id = 0 := by
        rcases ha with ha | ha
        · rw [ha, inQueue_claim]
        · rw [ha, inQueue_cancel]
      rw [if_pos rfl, hzero]
      simp only [reduceCtorEq, if_false]
      omega
    · have hle : (w.apply m.access).inQueue j ≤ w.inQueue j := by
        refine inQueue_le ?_
        rcases ha with ha | ha <;> rw [ha] <;> rintro ⟨⟩
      have hne : ¬ some id = some j := fun h => hj (Option.some.inj h)
      rw [if_neg hne]
      omega
  | gives args ht hheld hspawned hkind =>
    have hle : (w.apply m.access).inQueue j ≤ w.inQueue j := inQueue_le (by rw [hkind]; rintro ⟨⟩)
    have hrun : weight (Task.has j) (m.spawned.map Spawn.task) =
        if some args.uuid = some j then 1 else 0 := by
      rw [hspawned]
      simp [Task.has, Task.held, Spawn.task, Worker.start, Worker.uuid]
    rw [hrun, has_of_held hheld, has_of_held ht]
    simp only [reduceCtorEq, if_false]
    omega
  | fails id reason error ht hheld hplain ha =>
    have hle : (w.apply m.access).inQueue j ≤ w.inQueue j := inQueue_le (by rw [ha]; rintro ⟨⟩)
    rw [plain_has hplain, has_of_held hheld]
    simp only [reduceCtorEq, if_false]
    omega

end Steps

/-! ## Runs -/

theorem placed_step {c c' : Config} {a : Action} (hc : c.Placed) (hok : NoRequeue c a)
    (h : ConfigMoved c a c') : c'.Placed := by
  cases h with
  | @start s hcan =>
    refine ⟨fun r hr => ?_, fun j => ?_⟩
    · rcases List.mem_append.mp hr with hr | hr
      · exact hc.noRecovery r hr
      · have hnew := List.mem_singleton.mp hr
        cases s <;> cases hnew
        exact hok
    · have hzero : (Config.started c s).has j = 0 := by cases s <;> rfl
      have honce := hc.once j
      rw [weight_append, weight_cons, hzero]
      exact honce
  | @run k choice t m others tasks hk hm hreplaced _ =>
    have hrecover : ∀ r, t ≠ .recover r := by
      rintro r rfl
      exact hc.noRecovery r hreplaced.task_mem
    have hreap : ∀ r, t = .reap r → ¬ r.Requeues := by
      rintro r rfl
      exact hok r hk
    refine ⟨fun r hr => ?_, fun j => ?_⟩
    · rcases hreplaced.mem_after.mp hr with hnext | hother | hnew
      · cases Task.step_moved hm with
        | recover hs => exact hrecover _ rfl
        | _ => cases hnext
      · exact hc.noRecovery r (hreplaced.other_mem_before hother)
      · obtain ⟨s, -, hs⟩ := List.mem_map.mp hnew
        cases s <;> cases hs
    · have hstep := (task_handover hm hrecover hreap).has_le (j := j)
      have hbefore := hreplaced.weight_before (Task.has j)
      have hafter := hreplaced.weight_after (Task.has j)
      have honce := hc.once j
      by_cases hkind : m.access.kind = .request
      · have hnextJob := apply_nextJob_request c.world hkind
        dsimp only
        rw [hnextJob]
        simp only [hkind, true_and] at hstep
        rcases lt_trichotomy j c.world.nextJob with hj | hj | hj
        · rw [if_neg hj.ne] at hstep
          rw [if_pos hj] at honce
          rw [if_pos (Nat.lt_succ_of_lt hj)]
          omega
        · rw [if_pos hj] at hstep
          rw [if_neg hj.ge.not_gt] at honce
          rw [if_pos (Nat.lt_succ_of_le hj.le)]
          omega
        · rw [if_neg hj.ne'] at hstep
          rw [if_neg hj.not_gt] at honce
          rw [if_neg (Nat.not_lt.mpr hj)]
          omega
      · dsimp only
        rw [apply_nextJob c.world hkind]
        simp only [hkind, false_and, if_false] at hstep
        omega
  | restart inst =>
    refine ⟨fun r hr => ?_, fun j => ?_⟩
    · obtain ⟨u, hu, hur⟩ := List.mem_map.mp hr
      split at hur
      · cases hur
      · exact hc.noRecovery r (hur ▸ hu)
    · refine le_trans (Nat.add_le_add_left (weight_map_le _ fun t _ => ?_) _) (hc.once j)
      split
      · exact Nat.zero_le _
      · exact le_rfl
  | tick elapsed => exact ⟨hc.noRecovery, hc.once⟩
  | owner id i => exact ⟨hc.noRecovery, hc.once⟩
  | heartbeat i alive => exact ⟨hc.noRecovery, hc.once⟩

theorem placed_reachable {d : Deployment} {c : Config}
    (h : Run Config.step NoRequeue (Config.init d) c) : c.Placed := by
  refine h.invariant ⟨fun r hr => ?_, fun j => ?_⟩ fun c c' a _ hc hok hs =>
    placed_step hc hok (Config.step_moved hs)
  · cases hr
  · have hzero : (Config.init d).world.inQueue j + weight (Task.has j) (Config.init d).tasks = 0 :=
      rfl
    rw [hzero]
    exact Nat.zero_le _

/-! ## What the one place of a job excludes -/

section Placed
variable {c : Config} {j : Uuid}

theorem Config.Placed.has_le_one (hc : c.Placed) :
    c.world.inQueue j + weight (Task.has j) c.tasks ≤ 1 := by
  have honce := hc.once j
  split_ifs at honce <;> omega

theorem Config.Placed.made (hc : c.Placed) {t : Task} (ht : t ∈ c.tasks) (hheld : t.held = some j) :
    j < c.world.nextJob := by
  by_contra hj
  have honce := hc.once j
  have hle := le_weight_of_mem (Task.has j) ht
  rw [has_of_held hheld, if_pos rfl] at hle
  rw [if_neg hj] at honce
  omega

theorem Config.Placed.notMem_zset (hc : c.Placed) {t : Task} (ht : t ∈ c.tasks)
    (hheld : t.held = some j) : j ∉ c.world.queue.zset := by
  have honce := hc.has_le_one (j := j)
  have hle := le_weight_of_mem (Task.has j) ht
  rw [has_of_held hheld, if_pos rfl] at hle
  rw [← World.inQueue_eq_zero]
  omega

/-- Nobody has a job that is queued. -/
theorem Config.Placed.held_ne (hc : c.Placed) (h : j ∈ c.world.queue.zset) {t : Task}
    (ht : t ∈ c.tasks) : t.held ≠ some j :=
  fun hheld => hc.notMem_zset ht hheld h

/-- Two tasks that have the job are the same. -/
theorem Config.Placed.eq_of_held (hc : c.Placed) {t u : Task} (ht : t ∈ c.tasks) (hu : u ∈ c.tasks)
    (hheld : t.held = some j) (hheld' : u.held = some j) : t = u := by
  by_contra hne
  have honce := hc.has_le_one (j := j)
  have hle := add_le_weight_of_mem (Task.has j) ht hu hne
  rw [has_of_held hheld, has_of_held hheld', if_pos rfl] at hle
  omega

/-- A job that a task has, after its submission is over, is off the queue. -/
theorem Config.Placed.off (hc : c.Placed) {t : Task} (ht : t ∈ c.tasks) (hheld : t.held = some j)
    (hsub : t.submitting = none) : c.Off j := by
  refine ⟨hc.made ht hheld, hc.notMem_zset ht hheld, fun u hu hsub' => ?_⟩
  obtain rfl := hc.eq_of_held ht hu hheld (held_of_submitting hsub')
  rw [hsub] at hsub'
  cases hsub'

end Placed

section Off
variable {w : World} {choice : Choice} {j : Uuid}

/-- A submission comes to submit only the job it makes. -/
theorem submitting_before {t : Task} {m : Moved Task} (h : t.step w choice = some m)
    (hj : m.next.submitting = some j) : t.submitting = some j ∨ j = w.nextJob := by
  cases Task.step_moved h with
  | @submit s n hs =>
    obtain ⟨inst, req, pc⟩ := s
    cases pc with
    | create =>
      simp only [Submit.step] at hs
      split at hs
      · obtain rfl := Option.some.inj hs
        cases hj
      · next job hjob =>
        obtain rfl := Option.some.inj hs
        obtain ⟨prompt, modelName, -, -, rfl⟩ := buildJob_ok hjob
        exact .inr (Option.some.inj hj).symm
    | enqueue job =>
      obtain rfl := Option.some.inj hs
      simp only [Moved.map, Task.submitting, Submit.goto] at hj
      split at hj <;> cases hj
    | returned result => cases hs
    | _ => obtain rfl := Option.some.inj hs; exact .inl hj
  | _ => cases hj

theorem off_step {c c' : Config} {a : Action} (hc : c.Placed) (hok : NoRequeue c a)
    (h : ConfigMoved c a c') (hj : c.Off j) : c'.Off j := by
  cases h with
  | @start s hcan =>
    refine ⟨hj.made, hj.queue, fun t ht => ?_⟩
    rcases List.mem_append.mp ht with ht | ht
    · exact hj.submitted t ht
    · obtain rfl := List.mem_singleton.mp ht
      cases s <;> rintro ⟨⟩
  | @run k choice t m others tasks hk hm hreplaced _ =>
    have hhand : Handover c.world t m := task_handover hm
      (by rintro r rfl; exact hc.noRecovery r hreplaced.task_mem) (by rintro r rfl; exact hok r hk)
    refine ⟨hj.made.trans_le (nextJob_le_apply _ _), fun hz => ?_, ?_⟩
    · cases hhand with
      | keeps _ _ hqueue => exact hj.queue (hqueue j hz)
      | enqueues id score model now ht _ _ _ _ hqueue =>
        rw [hqueue, Queue.mem_zset_enqueued] at hz
        rcases hz with rfl | hz
        · exact hj.submitted t hreplaced.task_mem ht
        · exact hj.queue hz
      | makes _ _ _ hkind => exact hj.queue (mem_zset_of_kind (by rw [hkind]; rintro ⟨⟩) hz)
      | takes id model _ _ _ _ ha =>
        refine hj.queue (mem_zset_of_kind ?_ hz)
        rcases ha with ha | ha <;> (rw [ha]; rintro ⟨⟩)
      | gives _ _ _ _ hkind => exact hj.queue (mem_zset_of_kind (by rw [hkind]; rintro ⟨⟩) hz)
      | fails _ _ _ _ _ _ ha => exact hj.queue (mem_zset_of_kind (by rw [ha]; rintro ⟨⟩) hz)
    · refine hreplaced.forall_mem (fun u hu => hj.submitted u (hreplaced.other_mem_before hu))
        (fun hsub => ?_) fun u hu => ?_
      · rcases submitting_before hm hsub with hsub | rfl
        · exact hj.submitted t hreplaced.task_mem hsub
        · exact lt_irrefl _ hj.made
      · obtain ⟨s, -, rfl⟩ := List.mem_map.mp hu
        cases s <;> rintro ⟨⟩
  | restart inst =>
    refine ⟨hj.made, hj.queue, fun t ht => ?_⟩
    obtain ⟨u, hu, rfl⟩ := List.mem_map.mp ht
    split
    · rintro ⟨⟩
    · exact hj.submitted u hu
  | tick elapsed => exact ⟨hj.made, hj.queue, hj.submitted⟩
  | owner id i => exact ⟨hj.made, hj.queue, hj.submitted⟩
  | heartbeat i alive => exact ⟨hj.made, hj.queue, hj.submitted⟩

/-- A job that leaves the queue is off it. -/
theorem off_of_dequeued {c c' : Config} {a : Action} (hc : c.Placed) (hok : NoRequeue c a)
    (h : ConfigMoved c a c') (hj : j ∈ c.world.queue.zset) (hj' : j ∉ c'.world.queue.zset) :
    c'.Off j := by
  have hmade : j < c.world.nextJob := by
    by_contra hlt
    have honce := hc.once j
    rw [World.inQueue, if_pos hj, if_neg hlt] at honce
    omega
  cases h with
  | @run k choice t m others tasks hk hm hreplaced _ =>
    refine ⟨hmade.trans_le (nextJob_le_apply _ _), hj', hreplaced.forall_mem (fun u hu hsub => ?_)
      (fun hsub => ?_) fun u hu => ?_⟩
    · exact hc.held_ne hj (hreplaced.other_mem_before hu) (held_of_submitting hsub)
    · rcases submitting_before hm hsub with hsub | rfl
      · exact hc.held_ne hj hreplaced.task_mem (held_of_submitting hsub)
      · exact lt_irrefl _ hmade
    · obtain ⟨s, -, rfl⟩ := List.mem_map.mp hu
      cases s <;> rintro ⟨⟩
  | _ => exact absurd hj hj'

/-- A job that is or was in the queue is not enqueued a second time. -/
def Config.Past (c : Config) (j : Uuid) : Prop := j ∈ c.world.queue.zset ∨ c.Off j

theorem past_step {c c' : Config} {a : Action} (hc : c.Placed) (hok : NoRequeue c a)
    (h : ConfigMoved c a c') (hj : c.Past j) : c'.Past j := by
  rcases hj with hj | hj
  · by_cases hj' : j ∈ c'.world.queue.zset
    · exact .inl hj'
    · exact .inr (off_of_dequeued hc hok h hj hj')
  · exact .inr (off_step hc hok h hj)

end Off

/-! ## Who writes to the queue, the active set and the rows -/

section Writes
variable {w : World} {choice : Choice} {j : Uuid}

theorem enqueue_from {t : Task} {m : Moved Task} (h : t.step w choice = some m)
    (hrecover : ∀ r, t ≠ .recover r) (hreap : ∀ r, t = .reap r → ¬ r.Requeues)
    (ha : m.access.kind = .enqueue) :
    ∃ s job, t = .submit s ∧ s.pc = .enqueue job ∧
      m.access = .zsetEnqueue job.id (w.now - tierBonus s.req.source s.req.keyTier)
        s.req.modelName w.now MAX_QUEUE_SIZE MAX_QUEUE_PER_MODEL := by
  have hkind := task_mayAccess h
  rw [ha] at hkind
  cases Task.step_moved h with
  | @submit s n hs =>
    obtain ⟨inst, req, pc⟩ := s
    cases pc with
    | enqueue job =>
      obtain rfl := Option.some.inj hs
      exact ⟨_, job, rfl, rfl, rfl⟩
    | create =>
      simp only [Submit.step] at hs
      split at hs <;> (obtain rfl := Option.some.inj hs; cases ha)
    | returned result => cases hs
    | _ => obtain rfl := Option.some.inj hs; cases ha
  | reap hs => exact absurd ha (reap_ne_enqueue hs (hreap _ rfl))
  | recover hs => exact absurd rfl (hrecover _)
  | _ => cases hkind

/-- Only a claim or a cancel of the job takes it out of the queue. -/
theorem zset_lost {a : Access} (hz : j ∈ w.queue.zset) (hz' : j ∉ (w.apply a).queue.zset) :
    (∃ model now, a = .zsetClaim j model now) ∨ ∃ model, a = .zsetCancel j model := by
  cases a with
  | zsetEnqueue id score model now maxSize maxPerModel =>
    refine absurd ?_ hz'
    simp only [World.apply, Queue.zsetEnqueue_eq]
    split
    · exact (w.queue.mem_zset_enqueued id score model now).mpr (.inr hz)
    · exact hz
  | zsetClaim id model now =>
    by_cases hid : j = id
    · exact .inl ⟨model, now, by rw [hid]⟩
    · refine absurd ?_ hz'
      simp only [World.apply, Queue.zsetClaim_eq]
      split
      · exact (w.queue.mem_zset_dequeue id model).mpr ⟨hid, hz⟩
      · exact hz
  | zsetCancel id model =>
    by_cases hid : j = id
    · exact .inr ⟨model, by rw [hid]⟩
    · refine absurd ?_ hz'
      simp only [World.apply, Queue.zsetCancel_eq]
      split
      · exact (w.queue.mem_zset_dequeue id model).mpr ⟨hid, hz⟩
      · exact hz
  | _ => exact absurd hz hz'

/-- A lease that is there after an access was there before, or the job has just been claimed. -/
theorem mem_active_before {a : Access} (h : j ∈ (w.apply a).active) :
    j ∈ w.active ∨ j ∈ w.queue.zset ∧ j ∉ (w.apply a).queue.zset := by
  cases a with
  | zsetClaim id model now =>
    by_cases hid : j = id
    · subst hid
      by_cases hz : j ∈ w.queue.zset
      · exact .inr ⟨hz, World.inQueue_eq_zero.mp (inQueue_claim model now)⟩
      · simp only [World.apply, Queue.zsetClaim_eq, if_neg hz] at h
        exact .inl h
    · left
      simp only [World.apply, Queue.zsetClaim_eq] at h
      split at h
      · exact (AList.mem_insert _).mp h |>.resolve_left hid
      · exact h
  | leaseRenew id deadline =>
    left
    simp only [World.apply] at h
    split at h
    · next hid =>
      rcases (AList.mem_insert _).mp h with rfl | h
      · exact hid
      · exact h
    · exact h
  | leaseRemove id => exact .inl (AList.mem_erase.mp h).2
  | _ => exact .inl h

theorem worker_rowId {v : Worker} {m : Moved Worker} (h : v.step w choice = some m)
    (hj : m.access.rowId = some j) : v.uuid = j := by
  have htouches := worker_touches h
  generalize m.access = a at htouches hj
  cases htouches with
  | fails | finalizes => exact Option.some.inj hj
  | other hkind =>
    rw [rowId_of_kind (by rw [hkind]; rintro ⟨⟩) (by rw [hkind]; rintro ⟨⟩)
      (by rw [hkind]; rintro ⟨⟩)] at hj
    cases hj
  | _ => cases hj

/-- The row of a job is written by who has the job, by a cancel of it, or by a reaper that gives it
up. -/
theorem task_rowId {t : Task} {m : Moved Task} (h : t.step w choice = some m)
    (hrecover : ∀ r, t ≠ .recover r) (hj : m.access.rowId = some j) :
    t.held = some j ∨ (∃ x, t = .cancel x ∧ x.pc = .cancelRow ∧ x.uuid = j) ∨
      ∃ r todo, t = .reap r ∧ r.pc = .giveUpRow j todo := by
  cases Task.step_moved h with
  | @submit s n hs =>
    left
    obtain ⟨inst, req, pc⟩ := s
    cases pc with
    | create =>
      simp only [Submit.step] at hs
      split at hs <;> (obtain rfl := Option.some.inj hs; cases hj)
    | save job => obtain rfl := Option.some.inj hs; exact hj
    | rejectRow job => obtain rfl := Option.some.inj hs; exact hj
    | returned result => cases hs
    | _ => obtain rfl := Option.some.inj hs; cases hj
  | @cancel x n hs =>
    right; left
    obtain ⟨inst, uuid, isLocal, prev, pc⟩ := x
    cases pc with
    | cancelRow => obtain rfl := Option.some.inj hs; exact ⟨_, rfl, rfl, Option.some.inj hj⟩
    | mark =>
      simp only [Cancel.step] at hs
      repeat' (split at hs)
      all_goals (obtain rfl := Option.some.inj hs; cases hj)
    | returned => cases hs
    | _ => obtain rfl := Option.some.inj hs; cases hj
  | @dispatch d n hs =>
    left
    obtain ⟨inst, pc⟩ := d
    cases pc
    case failJob c rest pc =>
      obtain rfl := Option.some.inj hs
      cases pc with
      | row => exact hj
      | entry =>
        simp only [Moved.map, Dispatch.failStep] at hj
        split at hj <;> cases hj
      | _ => cases hj
    case load now todo scored =>
      obtain rfl := Option.some.inj hs
      cases todo with
      | nil => cases hj
      | cons entry todo =>
        simp only [Moved.map, Dispatch.loadStep] at hj
        split at hj <;> cases hj
    case attempt rest =>
      cases rest with
      | nil => obtain rfl := Option.some.inj hs; cases hj
      | cons c rest =>
        simp only [Dispatch.step, Dispatch.attemptStep] at hs
        split at hs <;> first
          | (obtain rfl := Option.some.inj hs; cases hj)
          | cases hs
    all_goals simp only [Dispatch.step] at hs
    all_goals repeat' (split at hs)
    all_goals first
      | (obtain rfl := Option.some.inj hs; cases hj)
      | cases hs
  | run hs => exact .inl (congrArg some (worker_rowId hs hj))
  | @waitCancel q n hs =>
    left
    obtain ⟨inst, pc⟩ := q
    cases pc with
    | failRow id todo => obtain rfl := Option.some.inj hs; exact hj
    | cancel todo =>
      obtain rfl := Option.some.inj hs
      cases todo <;> cases hj
    | collect =>
      simp only [WaitCancel.step] at hs
      split at hs <;> first
        | (obtain rfl := Option.some.inj hs; cases hj)
        | cases hs
    | finished => cases hs
    | _ => obtain rfl := Option.some.inj hs; cases hj
  | @reap r n hs =>
    right; right
    obtain ⟨inst, pc⟩ := r
    cases pc with
    | giveUpRow id todo =>
      obtain rfl := Option.some.inj hs
      obtain rfl := Option.some.inj hj
      exact ⟨_, todo, rfl, rfl⟩
    | getJob id todo =>
      simp only [Reap.step] at hs
      split at hs <;> (obtain rfl := Option.some.inj hs; cases hj)
    | finished => cases hs
    | _ => obtain rfl := Option.some.inj hs; cases hj
  | recover hs => exact absurd rfl (hrecover _)
  | _ =>
    rw [rowId_of_kind (ne_of_mayAccess (task_mayAccess h) rfl)
      (ne_of_mayAccess (task_mayAccess h) rfl) (ne_of_mayAccess (task_mayAccess h) rfl)] at hj
    cases hj

/-- A job leaves the queue to who takes it, by the dequeue of a cancel, or by the dispatcher that
finds no row of it. -/
theorem dequeued_from {t : Task} {m : Moved Task} (h : t.step w choice = some m)
    (hz : j ∈ w.queue.zset) (hz' : j ∉ (w.apply m.access).queue.zset) :
    m.next.held = some j ∨ (∃ x model, t = .cancel x ∧ x.pc = .dequeue model ∧ x.uuid = j) ∨
      ∃ d now todo scored, t = .dispatch d ∧ d.pc = .dropMissing now j todo scored := by
  have ha := zset_lost hz hz'
  have hkind : m.access.kind = .claim ∨ m.access.kind = .dequeue := by
    rcases ha with ⟨model, now, ha⟩ | ⟨model, ha⟩
    · exact .inl (by rw [ha]; rfl)
    · exact .inr (by rw [ha]; rfl)
  cases Task.step_moved h with
  | @cancel x n hs =>
    right; left
    obtain ⟨inst, uuid, isLocal, prev, pc⟩ := x
    cases pc with
    | dequeue model =>
      obtain rfl := Option.some.inj hs
      rcases ha with ⟨_, _, ha⟩ | ⟨_, ha⟩
      · cases ha
      · exact ⟨_, model, rfl, rfl, (Access.zsetCancel.inj ha).1⟩
    | mark =>
      simp only [Cancel.step] at hs
      repeat' (split at hs)
      all_goals (obtain rfl := Option.some.inj hs; rcases hkind with hkind | hkind <;> cases hkind)
    | returned => cases hs
    | _ => obtain rfl := Option.some.inj hs; rcases hkind with hkind | hkind <;> cases hkind
  | @waitCancel q n hs =>
    left
    obtain ⟨inst, pc⟩ := q
    cases pc with
    | cancel todo =>
      obtain rfl := Option.some.inj hs
      cases todo with
      | nil => rcases hkind with hkind | hkind <;> cases hkind
      | cons entry todo =>
        obtain ⟨id, model⟩ := entry
        have hid : id = j := by
          rcases ha with ⟨_, _, ha⟩ | ⟨_, ha⟩
          · cases ha
          · exact (Access.zsetCancel.inj ha).1
        subst hid
        simp only [Moved.map, WaitCancel.cancel, Queue.zsetCancel_eq, if_pos hz, if_true]
        rfl
    | collect =>
      simp only [WaitCancel.step] at hs
      split at hs <;> first
        | (obtain rfl := Option.some.inj hs; rcases hkind with hkind | hkind <;> cases hkind)
        | cases hs
    | finished => cases hs
    | _ => obtain rfl := Option.some.inj hs; rcases hkind with hkind | hkind <;> cases hkind
  | @dispatch d n hs =>
    have hclaim : ∀ c : Candidate, n.access = .zsetClaim c.uuid c.job.modelName.asStr w.now →
        c.uuid = j := by
      intro c hn
      rcases ha with ⟨_, _, ha⟩ | ⟨_, ha⟩
      · exact (Access.zsetClaim.inj (hn.symm.trans ha)).1
      · exact absurd (hn.symm.trans ha) (by rintro ⟨⟩)
    obtain ⟨inst, pc⟩ := d
    cases pc
    case claim c provider rest =>
      obtain rfl := Option.some.inj hs
      obtain rfl := hclaim c rfl
      left
      simp only [Moved.map, Dispatch.goto, Queue.zsetClaim_eq, if_pos hz, if_true]
      rfl
    case claimToFail c rest =>
      obtain rfl := Option.some.inj hs
      obtain rfl := hclaim c rfl
      left
      simp only [Moved.map, Dispatch.goto, Queue.zsetClaim_eq, if_pos hz, if_true]
      rfl
    case dropMissing now id todo scored =>
      obtain rfl := Option.some.inj hs
      rcases ha with ⟨_, _, ha⟩ | ⟨_, ha⟩
      · cases ha
      · obtain rfl := (Access.zsetCancel.inj ha).1
        exact .inr (.inr ⟨_, now, todo, scored, rfl, rfl⟩)
    case load now todo scored =>
      obtain rfl := Option.some.inj hs
      cases todo with
      | nil => rcases hkind with hkind | hkind <;> cases hkind
      | cons entry todo =>
        simp only [Moved.map, Dispatch.loadStep] at hkind
        split at hkind <;> rcases hkind with hkind | hkind <;> cases hkind
    case attempt rest =>
      cases rest with
      | nil => obtain rfl := Option.some.inj hs; rcases hkind with hkind | hkind <;> cases hkind
      | cons c rest =>
        simp only [Dispatch.step, Dispatch.attemptStep] at hs
        split at hs <;> first
          | (obtain rfl := Option.some.inj hs; rcases hkind with hkind | hkind <;> cases hkind)
          | cases hs
    case failJob c rest pc =>
      obtain rfl := Option.some.inj hs
      cases pc <;> simp only [Moved.map, Dispatch.failStep] at hkind <;> (try split at hkind) <;>
        rcases hkind with hkind | hkind <;> cases hkind
    all_goals simp only [Dispatch.step] at hs
    all_goals repeat' (split at hs)
    all_goals first
      | (obtain rfl := Option.some.inj hs; rcases hkind with hkind | hkind <;> cases hkind)
      | cases hs
  | _ =>
    have hmay := task_mayAccess h
    rcases hkind with hkind | hkind <;> (rw [hkind] at hmay; cases hmay)

end Writes

end Veronex
