import Veronex.Inference.Places

/-! # The balance of the pending counter

`veronex:stats:jobs:pending` is written in seven places. What it counts is the queue, less the jobs
in it for which a cancel has already decremented (`World.discounted`), and on top what the tasks in
flight owe it (`Task.owed`): a submission that has incremented and not enqueued, and whoever took a
job out of the queue and has not decremented. The balance breaks exactly where a cancel decrements
for a job that is not in the queue, or dequeues without a decrement, where a job is taken out of the
queue for which a cancel has decremented, where the queue gets a job whose row has ended, and where
the reaper puts a job back (`Task.KeepsCount`).
-/
namespace Veronex
open Concurrency
set_option autoImplicit false

/-! ## What the tasks owe the counter -/

/-- The job a cancel has decremented for and not yet tried to dequeue. -/
def Cancel.decremented (x : Cancel) : Option Uuid :=
  match x.pc with
  | .cancelRow | .readModel | .dequeue _ => if x.prev = some .pending then some x.uuid else none
  | _ => none

def Task.decremented : Task → Option Uuid
  | .cancel x => x.decremented
  | _ => none

def Config.decremented (c : Config) : List Uuid := c.tasks.filterMap Task.decremented

/-- How many of the jobs are in the queue. -/
def World.discounted (w : World) (ids : List Uuid) : ℕ := ids.countP (· ∈ w.queue.zset)

/-- The decrements a task has to make for a job that is not in the queue. -/
def Task.owed : Task → ℕ
  | .submit s => match s.pc with
    | .enqueue _ | .rejectDecr _ => 1
    | _ => 0
  | .dispatch d => match d.pc with
    | .failJob _ _ .lease | .failJob _ _ .misses | .failJob _ _ .decrPending | .assign _ _
    | .setOwner _ _ => 1
    | _ => 0
  | .run v => match v.pc with
    | .spawned | .setup | .earlyDecr | .counters | .counterPending => 1
    | _ => 0
  | .waitCancel q => match q.pc with
    | .failRow _ _ | .decrPending _ => 1
    | _ => 0
  | _ => 0

/-! ## When the steps keep the count -/

/-- The next step of the task keeps the count. -/
def Task.KeepsCount (c : Config) : Task → Prop
  | .submit s => match s.pc with
    -- a job whose row has ended is not waiting
    | .enqueue job => c.world.queue.Accepts s.req.modelName MAX_QUEUE_SIZE MAX_QUEUE_PER_MODEL →
        ¬ c.world.RowEnded job.id
    | _ => True
  | .cancel x => match x.pc with
    -- the job is still queued, and no other cancel has decremented for it
    | .decrPending => x.uuid ∈ c.world.queue.zset ∧ x.uuid ∉ c.decremented
    -- a job that is still queued leaves the queue with its decrement made
    | .dequeue _ => x.uuid ∈ c.world.queue.zset → x.uuid ∈ c.decremented
    | _ => True
  | .dispatch d => match d.pc with
    | .claim e _ _ | .claimToFail e _ => e.uuid ∈ c.world.queue.zset → e.uuid ∉ c.decremented
    | _ => True
  | .waitCancel q => match q.pc with
    | .cancel ((id, _) :: _) => id ∈ c.world.queue.zset → id ∉ c.decremented
    | _ => True
  | .reap r => ¬ r.Requeues
  | _ => True

/-- Every step keeps the count; recovery and restarts are left out. -/
def CountKept (c : Config) : Action → Prop
  | .start (.recover _) | .restart _ => False
  | .run k _ => ∀ t, c.tasks[k]? = some t → t.KeepsCount c
  | _ => True

theorem CountKept.noRequeue {c : Config} {a : Action} (h : CountKept c a) : NoRequeue c a := by
  cases a with
  | start s => cases s <;> exact h
  | run k choice => exact fun r hr => h _ hr
  | _ => trivial

/-! ## What the counter is to be -/

/-- The row of the job has not ended and no worker was started for it. -/
def Config.Waiting (c : Config) (j : Uuid) : Prop :=
  c.world.rows j ≠ none ∧ ¬ c.world.RowEnded j ∧ ∀ v, .run v ∈ c.tasks → v.uuid ≠ j

/-- An operation on the counter is under way. A worker that has made its counter writes is not one:
its job is running. -/
def Task.inProgress : Task → Bool
  | .run v => match v.pc with
    | .spawned | .setup | .earlyDecr | .counters | .counterPending | .counterRunning => true
    | _ => false
  | .submit s => !(Task.submit s).ended
  | .cancel x => !(Task.cancel x).ended
  | .dispatch d => !(Task.dispatch d).ended
  | .waitCancel q => !(Task.waitCancel q).ended
  | .reap r => !(Task.reap r).ended
  | _ => false

def Config.Quiescent (c : Config) : Prop := ∀ t ∈ c.tasks, t.inProgress = false

instance (c : Config) : Decidable c.Quiescent :=
  inferInstanceAs (Decidable (∀ t ∈ c.tasks, t.inProgress = false))

/-! ## Jobs in the queue -/

section Discounted
variable {w w' : World} {id : Uuid} {ids : List Uuid}

theorem discounted_congr (h : w'.queue = w.queue) : w'.discounted ids = w.discounted ids := by
  rw [World.discounted, World.discounted, h]

theorem discounted_cons_of_mem (h : id ∈ w.queue.zset) :
    w.discounted (id :: ids) = w.discounted ids + 1 := by
  simp [World.discounted, h]

theorem discounted_cons_of_notMem (h : id ∉ w.queue.zset) :
    w.discounted (id :: ids) = w.discounted ids := by
  simp [World.discounted, h]

/-- A dequeue takes its job off the discount as often as it was there. -/
theorem discounted_dequeue {model : String} (ids : List Uuid) (h : w'.queue = w.queue.dequeue id model)
    (hid : id ∈ w.queue.zset) : w'.discounted ids + ids.count id = w.discounted ids := by
  induction ids with
  | nil => rfl
  | cons j ids ih =>
    have hmem : j ∈ w'.queue.zset ↔ j ≠ id ∧ j ∈ w.queue.zset := by
      rw [h, Queue.mem_zset_dequeue]
    by_cases hj : j = id
    · subst hj
      have hout : j ∉ w'.queue.zset := fun hz => (hmem.mp hz).1 rfl
      rw [discounted_cons_of_notMem hout, discounted_cons_of_mem hid, List.count_cons_self]
      omega
    · rw [List.count_cons_of_ne hj]
      by_cases hz : j ∈ w.queue.zset
      · rw [discounted_cons_of_mem hz, discounted_cons_of_mem (hmem.mpr ⟨hj, hz⟩)]
        omega
      · have hout : j ∉ w'.queue.zset := fun hz' => hz (hmem.mp hz').2
        rw [discounted_cons_of_notMem hz, discounted_cons_of_notMem hout, ih]

theorem discounted_enqueued {score : ℕ} {model : String} {now : Millis} (ids : List Uuid)
    (h : w'.queue = w.queue.enqueued id score model now) (hid : id ∉ ids) :
    w'.discounted ids = w.discounted ids := by
  refine List.countP_congr fun j hj => ?_
  have hne : j ≠ id := fun heq => hid (heq ▸ hj)
  simp [h, hne]

/-- Distinct jobs in the queue are no more than the queue. -/
theorem discounted_le_zcard (h : ids.Nodup) : w.discounted ids ≤ w.queue.zcard := by
  rw [World.discounted, List.countP_eq_length_filter]
  refine (List.subperm_of_subset (h.filter _) fun j hj => ?_).length_le
  have hz : j ∈ w.queue.zset := by simpa using (List.mem_filter.mp hj).2
  exact AList.mem_keys.mp hz

end Discounted

/-! ## The balance of one step -/

section Balance
variable {w : World} {choice : Choice} {others : List Uuid}

/-- The counter, the discount, the queue and what is owed add up the same before and after a step.
`others` are the jobs the cancels other than this task have decremented for. -/
def Balanced (w : World) (others : List Uuid) (t : Task) (m : Moved Task) : Prop :=
  (w.apply m.access).pending + (w.apply m.access).discounted (m.next.decremented.toList ++ others) +
      w.queue.zcard + t.owed =
    w.pending + w.discounted (t.decremented.toList ++ others) + (w.apply m.access).queue.zcard +
      m.next.owed + weight Task.owed (m.spawned.map Spawn.task)

/-- A step that leaves the queue alone pays what it adds to the counter. -/
theorem balanced_of_queue {t : Task} {m : Moved Task} (hqueue : (w.apply m.access).queue = w.queue)
    (hdec : m.next.decremented = t.decremented)
    (hpending : (w.apply m.access).pending + t.owed =
      w.pending + m.next.owed + weight Task.owed (m.spawned.map Spawn.task)) :
    Balanced w others t m := by
  rw [Balanced, hdec, discounted_congr hqueue, hqueue]
  omega

/-- A step that writes neither the counter nor the queue and owes the same. -/
theorem balanced_of_same {t : Task} {m : Moved Task}
    (hpending : (w.apply m.access).pending = w.pending)
    (hqueue : (w.apply m.access).queue = w.queue) (hdec : m.next.decremented = t.decremented)
    (howed : m.next.owed + weight Task.owed (m.spawned.map Spawn.task) = t.owed) :
    Balanced w others t m := by
  refine balanced_of_queue hqueue hdec ?_
  omega

/-- Who takes a job out of the queue owes a decrement, when no cancel has made it. -/
theorem balanced_of_taken {t : Task} {m : Moved Task} {id : Uuid} {model : String}
    (hid : id ∈ w.queue.zset) (hothers : id ∉ others)
    (hqueue : (w.apply m.access).queue = w.queue.dequeue id model)
    (hpending : (w.apply m.access).pending = w.pending) (hdec : t.decremented = none)
    (hdec' : m.next.decremented = none)
    (howed : m.next.owed + weight Task.owed (m.spawned.map Spawn.task) = t.owed + 1) :
    Balanced w others t m := by
  have hcount := discounted_dequeue others hqueue hid
  rw [List.count_eq_zero_of_not_mem hothers] at hcount
  have hcard := w.queue.zcard_dequeue_of_mem id model hid
  rw [Balanced, hdec, hdec', hqueue, hpending]
  simp only [Option.toList, List.nil_append]
  omega

theorem weight_owed_nil {m : Moved Task} (h : m.spawned = []) :
    weight Task.owed (m.spawned.map Spawn.task) = 0 := by
  rw [h]
  rfl

theorem plain_owed {M : Type} {m : Moved M} (h : m.Plain) :
    weight Task.owed (m.spawned.map Spawn.task) = 0 := by
  rw [weight_eq_zero]
  intro u hu
  obtain ⟨s, hs, rfl⟩ := List.mem_map.mp hu
  cases s with
  | run args => exact absurd rfl (h _ hs args)
  | _ => rfl

/-- A decrement pays one. -/
theorem decr_pays (n : ℤ) : n + -1 + ((1 : ℕ) : ℤ) = n + ((0 : ℕ) : ℤ) := by
  omega

theorem submit_balanced {s : Submit} {m : Moved Submit} (h : s.step w = some m)
    (hfresh : ∀ job, s.pc = .enqueue job → job.id ∉ w.queue.zset ∧ job.id ∉ others) :
    Balanced w others (.submit s) (m.map .submit) := by
  have hspawned := weight_owed_nil (m := m.map Task.submit) (submit_spawned h)
  obtain ⟨inst, req, pc⟩ := s
  cases pc with
  | create =>
    simp only [Submit.step] at h
    split at h <;> (obtain rfl := Option.some.inj h; exact balanced_of_same rfl rfl rfl rfl)
  | incrPending job =>
    obtain rfl := Option.some.inj h
    exact balanced_of_queue rfl rfl rfl
  | enqueue job =>
    obtain rfl := Option.some.inj h
    obtain ⟨hjob, hothers⟩ := hfresh job rfl
    have heq := w.queue.zsetEnqueue_eq job.id (w.now - tierBonus req.source req.keyTier)
      req.modelName w.now MAX_QUEUE_SIZE MAX_QUEUE_PER_MODEL
    by_cases hacc : w.queue.Accepts req.modelName MAX_QUEUE_SIZE MAX_QUEUE_PER_MODEL
    · rw [if_pos hacc] at heq
      have hqueue : (w.apply (.zsetEnqueue job.id (w.now - tierBonus req.source req.keyTier)
          req.modelName w.now MAX_QUEUE_SIZE MAX_QUEUE_PER_MODEL)).queue = _ :=
        congrArg Prod.fst heq
      have hcard := w.queue.zcard_enqueued_of_notMem job.id
        (w.now - tierBonus req.source req.keyTier) req.modelName w.now hjob
      have hdisc := discounted_enqueued others hqueue hothers
      rw [Balanced, hspawned]
      simp only [Moved.map, heq, if_true, Task.decremented, Option.toList, List.nil_append,
        Submit.goto, Task.owed]
      rw [hdisc, hqueue, hcard]
      simp only [World.apply]
      omega
    · rw [if_neg hacc] at heq
      have hqueue : (w.apply (.zsetEnqueue job.id (w.now - tierBonus req.source req.keyTier)
          req.modelName w.now MAX_QUEUE_SIZE MAX_QUEUE_PER_MODEL)).queue = w.queue :=
        congrArg Prod.fst heq
      refine balanced_of_same rfl hqueue rfl ?_
      simp only [Moved.map, heq, Submit.goto]
      rfl
  | rejectDecr job =>
    obtain rfl := Option.some.inj h
    refine balanced_of_queue rfl rfl ?_
    simp only [Moved.map, World.apply, Task.owed, Submit.goto, List.map_nil, weight_nil]
    omega
  | returned result => cases h
  | _ =>
    obtain rfl := Option.some.inj h
    exact balanced_of_same rfl rfl rfl rfl

/-- The accesses of the queue and of the counter of pending jobs. -/
def AccessKind.ofQueue : AccessKind → Bool
  | .enqueue | .claim | .dequeue | .pending => true
  | _ => false

theorem dispatch_balanced {d : Dispatch} {m : Moved Dispatch} (h : d.step w choice = some m)
    (hclaim : ∀ e, (∃ p rest, d.pc = .claim e p rest) ∨ (∃ rest, d.pc = .claimToFail e rest) →
      e.uuid ∈ w.queue.zset → e.uuid ∉ others)
    (hdrop : ∀ now id todo scored, d.pc ≠ .dropMissing now id todo scored) :
    Balanced w others (.dispatch d) (m.map .dispatch) := by
  have hsame : ∀ n : Moved Dispatch, n.access.kind.ofQueue = false → n.Plain →
      (Task.dispatch n.next).owed = (Task.dispatch d).owed →
      Balanced w others (.dispatch d) (n.map .dispatch) := by
    intro n hquiet hplain howed
    have hne : ∀ k : AccessKind, k.ofQueue = true → n.access.kind ≠ k := fun k hk =>
      (ne_of_mayAccess hk hquiet).symm
    refine balanced_of_same (apply_pending w (hne _ rfl))
      (apply_queue w (hne _ rfl) (hne _ rfl) (hne _ rfl)) rfl ?_
    rw [Moved.map, plain_owed hplain, howed, Nat.add_zero]
  obtain ⟨inst, pc⟩ := d
  cases pc
  case claim c provider rest =>
    obtain rfl := Option.some.inj h
    have heq := w.queue.zsetClaim_eq w.active c.uuid c.job.modelName.asStr w.now
    have hqueue : (w.apply (.zsetClaim c.uuid c.job.modelName.asStr w.now)).queue = _ :=
      congrArg Prod.fst heq
    by_cases hc : c.uuid ∈ w.queue.zset
    · rw [if_pos hc] at heq hqueue
      refine balanced_of_taken hc (hclaim c (.inl ⟨provider, rest, rfl⟩) hc) hqueue rfl rfl rfl ?_
      simp only [Moved.map, heq, if_true, Dispatch.goto]
      rfl
    · rw [if_neg hc] at heq hqueue
      refine balanced_of_same rfl hqueue rfl ?_
      simp only [Moved.map, heq, Dispatch.goto]
      rfl
  case claimToFail c rest =>
    obtain rfl := Option.some.inj h
    have heq := w.queue.zsetClaim_eq w.active c.uuid c.job.modelName.asStr w.now
    have hqueue : (w.apply (.zsetClaim c.uuid c.job.modelName.asStr w.now)).queue = _ :=
      congrArg Prod.fst heq
    by_cases hc : c.uuid ∈ w.queue.zset
    · rw [if_pos hc] at heq hqueue
      refine balanced_of_taken hc (hclaim c (.inr ⟨rest, rfl⟩) hc) hqueue rfl rfl rfl ?_
      simp only [Moved.map, heq, if_true, Dispatch.goto]
      rfl
    · rw [if_neg hc] at heq hqueue
      refine balanced_of_same rfl hqueue rfl ?_
      simp only [Moved.map, heq, Dispatch.goto]
      rfl
  case setOwner c provider =>
    obtain rfl := Option.some.inj h
    exact balanced_of_same rfl rfl rfl rfl
  case dropMissing now id todo scored => exact absurd rfl (hdrop now id todo scored)
  case failJob c rest pc =>
    obtain rfl := Option.some.inj h
    cases pc with
    | decrPending =>
      refine balanced_of_queue rfl rfl ?_
      simp only [Moved.map, Dispatch.failStep, World.apply, Task.owed, Dispatch.goto, List.map_nil,
        weight_nil]
      omega
    | row => exact hsame _ rfl (plain_of_cleanup rfl) rfl
    | entry =>
      simp only [Dispatch.failStep]
      split <;> exact hsame _ rfl (plain_of_nil rfl) rfl
    | _ => exact hsame _ rfl (plain_of_nil rfl) rfl
  case load now todo scored =>
    obtain rfl := Option.some.inj h
    cases todo with
    | nil =>
      refine hsame _ rfl (plain_of_nil rfl) ?_
      simp only [Dispatch.loadStep, Dispatch.goto]
      split <;> rfl
    | cons entry todo =>
      simp only [Dispatch.loadStep]
      split <;> exact hsame _ rfl (plain_of_nil rfl) rfl
  case attempt rest =>
    cases rest with
    | nil =>
      obtain rfl := Option.some.inj h
      exact hsame _ rfl (plain_of_nil rfl) rfl
    | cons c rest =>
      simp only [Dispatch.step, Dispatch.attemptStep] at h
      split at h <;> first
        | (obtain rfl := Option.some.inj h; exact hsame _ rfl (plain_of_nil rfl) rfl)
        | cases h
  case peek k =>
    obtain rfl := Option.some.inj h
    refine hsame _ rfl (plain_of_nil rfl) ?_
    simp only [Dispatch.goto]
    split <;> rfl
  case countMiss c rest =>
    obtain rfl := Option.some.inj h
    refine hsame _ rfl (plain_of_nil rfl) ?_
    simp only [Dispatch.goto]
    split <;> rfl
  case resetMisses c provider rest =>
    obtain rfl := Option.some.inj h
    refine hsame _ rfl (plain_of_nil rfl) ?_
    cases provider <;> rfl
  all_goals simp only [Dispatch.step] at h
  all_goals repeat' (split at h)
  all_goals first
    | (obtain rfl := Option.some.inj h; exact hsame _ rfl (plain_of_nil rfl) rfl)
    | cases h

theorem finalStep_pays (v : Worker) (completedAt : Millis) (pc : FinalPc) :
    (w.apply (v.finalStep w completedAt pc).access).pending = w.pending ∧
      (Task.run (v.finalStep w completedAt pc).next).owed = 0 := by
  cases pc with
  | recordTpm =>
    refine ⟨apply_pending w ?_, rfl⟩
    simp only [Worker.finalStep, tpmAccess_kind]
    rintro ⟨⟩
  | counters =>
    refine ⟨?_, rfl⟩
    simp only [Worker.finalStep]
    split
    · split <;> rfl
    · rfl
  | _ =>
    simp only [Worker.finalStep]
    repeat' split
    all_goals exact ⟨rfl, rfl⟩

theorem persistStep_pays (v : Worker) (site : PersistSite) (pc : PersistPc) :
    (w.apply (v.persistStep w site pc).access).pending = w.pending ∧
      (Task.run (v.persistStep w site pc).next).owed = 0 := by
  have hafter : (Task.run (v.goto (Worker.afterPersist site))).owed = 0 := by cases site <;> rfl
  cases pc with
  | compareExchange flag =>
    simp only [Worker.persistStep]
    split
    · exact ⟨rfl, hafter⟩
    · refine ⟨rfl, ?_⟩
      dsimp only
      split
      · exact hafter
      · rfl
  | get => exact ⟨rfl, rfl⟩
  | put turns => exact ⟨rfl, hafter⟩

/-- A worker pays what it owes by its decrement. -/
theorem worker_pays {v : Worker} {m : Moved Worker} (h : v.step w choice = some m) :
    (w.apply m.access).pending + (Task.run v).owed = w.pending + (Task.run m.next).owed := by
  obtain ⟨args, job, stop, apiKeyId, tpmMinute, startedAt, cancelNotify, ts, log, pc⟩ := v
  cases pc
  case persist site pc =>
    obtain rfl := Option.some.inj h
    obtain ⟨hpending, howed⟩ := persistStep_pays (w := w) ⟨args, job, stop, apiKeyId, tpmMinute,
      startedAt, cancelNotify, ts, log, .persist site pc⟩ site pc
    rw [hpending, howed]
    rfl
  case final completedAt pc =>
    obtain rfl := Option.some.inj h
    obtain ⟨hpending, howed⟩ := finalStep_pays (w := w) ⟨args, job, stop, apiKeyId, tpmMinute,
      startedAt, cancelNotify, ts, log, .final completedAt pc⟩ completedAt pc
    rw [hpending, howed]
    rfl
  case block exit pc =>
    obtain rfl := Option.some.inj h
    cases pc <;> rfl
  case errorTpm =>
    obtain rfl := Option.some.inj h
    dsimp only
    rw [apply_pending w (by rw [tpmAccess_kind]; rintro ⟨⟩)]
    rfl
  case notify cell site =>
    obtain rfl := Option.some.inj h
    cases site <;> rfl
  case counters =>
    cases choice <;> first
      | (obtain rfl := Option.some.inj h; exact decr_pays w.pending)
      | (obtain rfl := Option.some.inj h; rfl)
      | cases h
  case counterPending =>
    obtain rfl := Option.some.inj h
    exact decr_pays w.pending
  case earlyDecr =>
    obtain rfl := Option.some.inj h
    exact decr_pays w.pending
  all_goals simp only [Worker.step, Worker.receiveStep] at h
  all_goals repeat' (split at h)
  all_goals first
    | (obtain rfl := Option.some.inj h; rfl)
    | cases h

theorem worker_balanced {v : Worker} {m : Moved Worker} (h : v.step w choice = some m) :
    Balanced w others (.run v) (m.map .run) := by
  have hmay := worker_mayAccess h
  have hqueue : (w.apply m.access).queue = w.queue := apply_queue w
    (ne_of_mayAccess hmay rfl) (ne_of_mayAccess hmay rfl) (ne_of_mayAccess hmay rfl)
  refine balanced_of_queue hqueue rfl ?_
  rw [Moved.map, plain_owed (worker_plain h), Nat.cast_zero, add_zero]
  exact worker_pays h

theorem waitCancel_balanced {q : WaitCancel} {m : Moved WaitCancel} (h : q.step w choice = some m)
    (hcancel : ∀ id model todo, q.pc = .cancel ((id, model) :: todo) → id ∈ w.queue.zset →
      id ∉ others) :
    Balanced w others (.waitCancel q) (m.map .waitCancel) := by
  obtain ⟨inst, pc⟩ := q
  cases pc with
  | collect =>
    simp only [WaitCancel.step] at h
    split at h <;> first
      | (obtain rfl := Option.some.inj h; exact balanced_of_same rfl rfl rfl rfl)
      | cases h
  | scan now keys expired =>
    obtain rfl := Option.some.inj h
    refine balanced_of_same rfl rfl rfl ?_
    cases keys with
    | nil =>
      simp only [Moved.map, WaitCancel.scan, WaitCancel.goto]
      split <;> rfl
    | cons id keys =>
      simp only [Moved.map, WaitCancel.scan, WaitCancel.goto]
      split <;> rfl
  | models expired => obtain rfl := Option.some.inj h; exact balanced_of_same rfl rfl rfl rfl
  | cancel todo =>
    obtain rfl := Option.some.inj h
    cases todo with
    | nil => exact balanced_of_same rfl rfl rfl rfl
    | cons entry todo =>
      obtain ⟨id, model⟩ := entry
      have heq := w.queue.zsetCancel_eq id model
      have hqueue : (w.apply (.zsetCancel id model)).queue = _ := congrArg Prod.fst heq
      simp only [WaitCancel.cancel]
      by_cases hid : id ∈ w.queue.zset
      · rw [if_pos hid] at heq hqueue
        refine balanced_of_taken hid (hcancel id model todo rfl hid) hqueue rfl rfl rfl ?_
        simp only [Moved.map, heq, if_true, WaitCancel.goto]
        rfl
      · rw [if_neg hid] at heq hqueue
        refine balanced_of_same rfl hqueue rfl ?_
        simp only [Moved.map, heq, WaitCancel.goto]
        rfl
  | failRow id todo => obtain rfl := Option.some.inj h; exact balanced_of_same rfl rfl rfl rfl
  | decrPending todo =>
    obtain rfl := Option.some.inj h
    refine balanced_of_queue rfl rfl ?_
    rw [Moved.map, List.map_nil, weight_nil, Nat.cast_zero, add_zero]
    exact decr_pays w.pending
  | finished => cases h

theorem Cancel.leave_decremented (x : Cancel) (isFinal : Bool) :
    (x.leave isFinal).decremented = none := by
  obtain ⟨inst, uuid, isLocal, prev, pc⟩ := x
  cases isLocal <;> rfl

/-- A cancel decrements for a queued job and takes a job out of the queue that exactly one cancel
has decremented for. -/
theorem cancel_balanced {x : Cancel} {m : Moved Cancel} (h : x.step w = some m)
    (hmark : x.pc = .mark → x.prev = none)
    (hdecr : x.pc = .decrPending → x.prev = some .pending ∧ x.uuid ∈ w.queue.zset)
    (hdequeue : ∀ model, x.pc = .dequeue model → x.uuid ∈ w.queue.zset →
      (x.decremented.toList ++ others).count x.uuid = 1) :
    Balanced w others (.cancel x) (m.map .cancel) := by
  have hplain := plain_owed (cancel_plain h)
  obtain ⟨inst, uuid, isLocal, prev, pc⟩ := x
  cases pc with
  | mark =>
    simp only [Cancel.step] at h
    obtain rfl : prev = none := hmark rfl
    split at h
    · obtain rfl := Option.some.inj h
      exact balanced_of_same rfl rfl rfl rfl
    · split at h
      · obtain rfl := Option.some.inj h
        exact balanced_of_same rfl rfl (Cancel.leave_decremented _ true) rfl
      · obtain rfl := Option.some.inj h
        exact balanced_of_same rfl rfl rfl rfl
  | notifyWorker cn =>
    obtain rfl := Option.some.inj h
    refine balanced_of_same rfl rfl ?_ rfl
    by_cases hprev : prev = some .pending
    · simp [Moved.map, Task.decremented, Cancel.decremented, Cancel.goto, hprev]
    · simp [Moved.map, Task.decremented, Cancel.decremented, Cancel.goto, hprev]
  | decrPending =>
    obtain rfl := Option.some.inj h
    obtain ⟨hprev, hz⟩ := hdecr rfl
    obtain rfl : prev = some .pending := hprev
    have hdisc : (w.apply (.incrPending (-1))).discounted (uuid :: others) =
        w.discounted others + 1 := discounted_cons_of_mem hz
    change w.pending + -1 + ((w.apply (.incrPending (-1))).discounted (uuid :: others) : ℤ) +
      w.queue.zcard + (0 : ℕ) = w.pending + w.discounted others + w.queue.zcard + (0 : ℕ) + (0 : ℕ)
    rw [hdisc]
    omega
  | dequeue model =>
    obtain rfl := Option.some.inj h
    have hqueue : (w.apply (.zsetCancel uuid model)).queue = _ :=
      congrArg Prod.fst (w.queue.zsetCancel_eq uuid model)
    have hnone := Cancel.leave_decremented ⟨inst, uuid, isLocal, prev, .dequeue model⟩ false
    have hself : ∀ ids, uuid ∉ (w.apply (.zsetCancel uuid model)).queue.zset →
        (w.apply (.zsetCancel uuid model)).discounted ((Cancel.decremented
          ⟨inst, uuid, isLocal, prev, .dequeue model⟩).toList ++ ids) =
        (w.apply (.zsetCancel uuid model)).discounted ids := by
      intro ids hout
      simp only [Cancel.decremented]
      split
      · exact discounted_cons_of_notMem hout
      · rfl
    have hout := World.inQueue_eq_zero.mp (inQueue_cancel (w := w) (j := uuid) model)
    simp only [Balanced, Moved.map, Task.decremented, hnone, Option.toList_none, List.nil_append,
      List.map_nil, weight_nil]
    rw [← hself others hout, apply_pending w (by rintro ⟨⟩)]
    by_cases hz : uuid ∈ w.queue.zset
    · rw [if_pos hz] at hqueue
      have hdisc := discounted_dequeue ((Cancel.decremented
        ⟨inst, uuid, isLocal, prev, .dequeue model⟩).toList ++ others) hqueue hz
      have hcard := w.queue.zcard_dequeue_of_mem uuid model hz
      rw [hdequeue model rfl hz] at hdisc
      rw [hqueue, ← hdisc, ← hcard]
      simp only [Task.owed]
      omega
    · rw [if_neg hz] at hqueue
      rw [discounted_congr hqueue, hqueue]
      simp only [Task.owed]
      omega
  | publish isFinal =>
    obtain rfl := Option.some.inj h
    exact balanced_of_same rfl rfl rfl (by rw [Moved.map, hplain]; rfl)
  | removeNotifier isFinal =>
    obtain rfl := Option.some.inj h
    exact balanced_of_same rfl rfl rfl (by rw [Moved.map, hplain]; rfl)
  | returned => cases h
  | _ => obtain rfl := Option.some.inj h; exact balanced_of_same rfl rfl rfl rfl

end Balance

end Veronex
