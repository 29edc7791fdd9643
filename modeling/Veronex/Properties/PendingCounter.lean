import Veronex.Properties.PendingBalance
import Mathlib.Data.Set.Card

/-! # The pending counter and the waiting jobs

Along a run whose steps keep the count the balance of every step adds up (`Config.Ledger.balance`),
so the counter is never negative. Its other fields say which jobs the queue holds: rows that exist,
that have not ended unless a cancel is about to dequeue them, and, when nothing is in progress, all
rows that are waiting.
-/
namespace Veronex
open Concurrency
set_option autoImplicit false

/-! ## What a task knows about rows -/

/-- What a task found or wrote in the table before its next step. -/
def Task.KnowsRows (w : World) : Task → Prop
  | .submit s => match s.pc with
    | .insertNotifier job | .insertEntry job _ | .incrPending job | .enqueue job =>
      w.rows job.id ≠ none
    | _ => True
  | .cancel x => match x.pc with
    | .lookup | .mark => x.prev = none
    | .decrPending => x.prev = some .pending
    | .cancelRow => x.prev = some .pending → w.rows x.uuid ≠ none
    | .readModel | .dequeue _ => x.prev = some .pending → w.RowEnded x.uuid
    | _ => True
  | .dispatch d => match d.pc with
    | .load _ todo _ | .adopt _ _ _ _ todo _ => ∀ entry ∈ todo, w.rows entry.1 ≠ none
    | .fetch _ id _ todo _ => w.rows id ≠ none ∧ ∀ entry ∈ todo, w.rows entry.1 ≠ none
    | .dropMissing _ _ _ _ => False
    | _ => True
  | _ => True

section KnowsRows
variable {w : World} {choice : Choice}

theorem Task.KnowsRows.apply {a : Access} (ha : a.kind ≠ .resetRow) {t : Task}
    (h : t.KnowsRows w) : t.KnowsRows (w.apply a) := by
  have htodo : ∀ todo : List (Uuid × ℕ), (∀ entry ∈ todo, w.rows entry.1 ≠ none) →
      ∀ entry ∈ todo, (w.apply a).rows entry.1 ≠ none := fun todo hall entry hentry =>
    rows_ne_none a (hall entry hentry)
  cases t with
  | submit s =>
    obtain ⟨inst, req, pc⟩ := s
    cases pc <;> first
      | exact rows_ne_none a h
      | trivial
  | cancel x =>
    obtain ⟨inst, uuid, isLocal, prev, pc⟩ := x
    cases pc <;> first
      | exact h
      | exact fun hprev => rows_ne_none a (h hprev)
      | exact fun hprev => (h hprev).apply ha
  | dispatch d =>
    obtain ⟨inst, pc⟩ := d
    cases pc <;> first
      | exact htodo _ h
      | exact ⟨rows_ne_none a h.1, htodo _ h.2⟩
      | exact h
  | _ => trivial

theorem submit_knowsRows {s : Submit} {m : Moved Submit} (h : s.step w = some m)
    (hs : (Task.submit s).KnowsRows w) : (Task.submit m.next).KnowsRows (w.apply m.access) := by
  obtain ⟨inst, req, pc⟩ := s
  cases pc with
  | create =>
    simp only [Submit.step] at h
    split at h <;> (obtain rfl := Option.some.inj h; trivial)
  | save job =>
    obtain rfl := Option.some.inj h
    have hrow : (w.apply (.saveRow (.ofJob w.messageHashes (jobForDb job)))).rows job.id =
        (w.rows job.id).or (some (.ofJob w.messageHashes (jobForDb job))) :=
      Function.update_self ..
    show (w.apply _).rows job.id ≠ none
    rw [hrow]
    cases w.rows job.id <;> rintro ⟨⟩
  | enqueue job =>
    obtain rfl := Option.some.inj h
    simp only [Submit.goto]
    split <;> trivial
  | returned result => cases h
  | _ =>
    obtain rfl := Option.some.inj h
    first
      | exact rows_ne_none _ hs
      | trivial

theorem cancel_knowsRows {x : Cancel} {m : Moved Cancel} (h : x.step w = some m)
    (hx : (Task.cancel x).KnowsRows w) (hdecr : x.pc = .decrPending → w.rows x.uuid ≠ none) :
    (Task.cancel m.next).KnowsRows (w.apply m.access) := by
  obtain ⟨inst, uuid, isLocal, prev, pc⟩ := x
  have hleave : ∀ (x : Cancel) isFinal w', (Task.cancel (x.leave isFinal)).KnowsRows w' := by
    rintro ⟨inst, uuid, isLocal, prev, pc⟩ isFinal w'
    cases isLocal <;> trivial
  cases pc with
  | lookup => obtain rfl := Option.some.inj h; exact hx
  | mark =>
    obtain rfl : prev = none := hx
    simp only [Cancel.step] at h
    split at h
    · obtain rfl := Option.some.inj h
      intro hprev
      cases hprev
    · split at h
      · obtain rfl := Option.some.inj h
        exact hleave _ _ _
      · obtain rfl := Option.some.inj h
        trivial
  | notifyReader n cn => obtain rfl := Option.some.inj h; trivial
  | notifyWorker cn =>
    obtain rfl := Option.some.inj h
    by_cases hprev : prev = some .pending
    · subst hprev
      rfl
    · simp only [Cancel.goto, hprev, if_false]
      exact fun hp => absurd hp hprev
  | decrPending =>
    obtain rfl := Option.some.inj h
    exact fun _ => hdecr rfl
  | cancelRow =>
    obtain rfl := Option.some.inj h
    exact fun hprev => rowEnded_of_endRow rfl rfl (hx hprev)
  | readModel => obtain rfl := Option.some.inj h; exact hx
  | dequeue model => obtain rfl := Option.some.inj h; exact hleave _ _ _
  | publish isFinal => obtain rfl := Option.some.inj h; trivial
  | removeNotifier isFinal => obtain rfl := Option.some.inj h; trivial
  | returned => cases h

theorem dispatch_knowsRows {d : Dispatch} {m : Moved Dispatch} (h : d.step w choice = some m)
    (hd : (Task.dispatch d).KnowsRows w) (hqueued : ∀ j ∈ w.queue.zset, w.rows j ≠ none) :
    (Task.dispatch m.next).KnowsRows (w.apply m.access) := by
  obtain ⟨inst, pc⟩ := d
  cases pc
  case peek k =>
    obtain rfl := Option.some.inj h
    simp only [Dispatch.goto]
    split
    · trivial
    · exact fun entry hentry => hqueued _ (mem_zset_of_mem_zsetPeek hentry)
  case load now todo scored =>
    obtain rfl := Option.some.inj h
    cases todo with
    | nil =>
      simp only [Dispatch.loadStep, Dispatch.goto]
      split <;> trivial
    | cons entry todo =>
      have htodo : ∀ e ∈ todo, w.rows e.1 ≠ none := fun e he => hd e (List.mem_cons_of_mem _ he)
      simp only [Dispatch.loadStep]
      split
      · exact htodo
      · exact ⟨hd entry (List.mem_cons_self ..), htodo⟩
  case fetch now id score todo scored =>
    obtain ⟨hid, htodo⟩ := hd
    simp only [Dispatch.step] at h
    split at h
    · obtain rfl := Option.some.inj h
      exact htodo
    · next hnone =>
      obtain ⟨row, hrow⟩ := Option.ne_none_iff_exists'.mp hid
      simp only [World.getJob, hrow] at hnone
      cases hparse : rowToJob row <;> (rw [hparse] at hnone; cases hnone)
    · obtain rfl := Option.some.inj h
      exact htodo
  case dropMissing now id todo scored => exact hd.elim
  case adopt now id score job todo scored =>
    obtain rfl := Option.some.inj h
    exact fun entry hentry => rows_ne_none _ (hd entry hentry)
  case attempt rest =>
    cases rest with
    | nil => obtain rfl := Option.some.inj h; trivial
    | cons c rest =>
      simp only [Dispatch.step, Dispatch.attemptStep] at h
      split at h <;> first
        | (obtain rfl := Option.some.inj h; trivial)
        | cases h
  case failJob c rest pc =>
    obtain rfl := Option.some.inj h
    cases pc <;> simp only [Dispatch.failStep] <;> (try split) <;> trivial
  all_goals simp only [Dispatch.step] at h
  all_goals repeat' (split at h)
  all_goals first
    | (obtain rfl := Option.some.inj h
       simp only [Dispatch.goto]
       all_goals trivial)
    | cases h

end KnowsRows

/-! ## The ledger -/

/-- The jobs a reaper found expired, with the one it is busy with. -/
def ReapPc.jobs : ReapPc → List Uuid
  | .each todo => todo
  | .giveUpRow id todo | .giveUpLease id todo | .giveUpAttempts id todo | .takeOut id _ todo
  | .setAttempts id _ todo | .getJob id todo | .enqueue id _ _ todo | .leaseAgain id todo =>
    id :: todo
  | .list | .finished => []

/-- The cancel has ended the row of its job and not tried to dequeue it. -/
def Cancel.Dequeues (x : Cancel) : Prop :=
  match x.pc with
  | .readModel | .dequeue _ => True
  | _ => False

structure Config.Ledger (c : Config) : Prop where
  placed : c.Placed
  knows : ∀ t ∈ c.tasks, t.KnowsRows c.world
  balance : c.world.pending + c.world.discounted c.decremented =
    c.world.queue.zcard + weight Task.owed c.tasks
  nodup : c.decremented.Nodup
  past : ∀ j ∈ c.decremented, c.Past j
  leased : ∀ j ∈ c.world.active, c.Off j
  reaping : ∀ r, .reap r ∈ c.tasks → ∀ j ∈ r.pc.jobs, c.Off j
  rows : ∀ j ∈ c.world.queue.zset, c.world.rows j ≠ none
  ended : ∀ j ∈ c.world.queue.zset, c.world.RowEnded j →
    ∃ x, .cancel x ∈ c.tasks ∧ x.Dequeues ∧ x.uuid = j
  carried : ∀ j, c.world.rows j ≠ none → c.world.RowEnded j ∨ j ∈ c.world.queue.zset ∨
    (∃ t ∈ c.tasks, t.held = some j) ∨ j ∈ c.decremented

section Pools
variable {ts ts' new others : List Task} {t t' : Task}

theorem filterMap_cons_toList {α β : Type} (f : α → Option β) (x : α) (xs : List α) :
    (x :: xs).filterMap f = (f x).toList ++ xs.filterMap f := by
  cases hx : f x with
  | none => rw [List.filterMap_cons_none hx]; rfl
  | some y => rw [List.filterMap_cons_some hx]; rfl

theorem decremented_before (h : Replaced ts t t' new others ts') :
    (ts.filterMap Task.decremented).Perm
      (t.decremented.toList ++ others.filterMap Task.decremented) := by
  rw [← filterMap_cons_toList]
  exact h.1.filterMap _

theorem spawned_decremented (spawned : List Spawn) :
    (spawned.map Spawn.task).filterMap Task.decremented = [] := by
  rw [List.filterMap_eq_nil_iff]
  intro u hu
  obtain ⟨s, -, rfl⟩ := List.mem_map.mp hu
  cases s <;> rfl

theorem decremented_after {spawned : List Spawn}
    (h : Replaced ts t t' (spawned.map Spawn.task) others ts') :
    (ts'.filterMap Task.decremented).Perm
      (t'.decremented.toList ++ others.filterMap Task.decremented) := by
  have hperm := h.2.filterMap Task.decremented
  rwa [filterMap_cons_toList, List.filterMap_append, spawned_decremented, List.append_nil] at hperm

/-- A job comes onto the list by the decrement of a cancel. -/
theorem decremented_from {w : World} {choice : Choice} {m : Moved Task} {j : Uuid}
    (h : t.step w choice = some m) (hknows : t.KnowsRows w) (hj : m.next.decremented = some j) :
    t.decremented = some j ∨
      ∃ x, t = .cancel x ∧ x.pc = .decrPending ∧ x.uuid = j ∧ m.access = .incrPending (-1) := by
  cases Task.step_moved h with
  | @cancel x n hs =>
    obtain ⟨inst, uuid, isLocal, prev, pc⟩ := x
    cases pc with
    | lookup => obtain rfl := Option.some.inj hs; cases hj
    | mark =>
      obtain rfl : prev = none := hknows
      simp only [Cancel.step] at hs
      repeat' (split at hs)
      all_goals obtain rfl := Option.some.inj hs
      · cases hj
      · exact absurd (hj.symm.trans (Cancel.leave_decremented _ true)) (by rintro ⟨⟩)
      · cases hj
    | notifyReader n cn => obtain rfl := Option.some.inj hs; cases hj
    | notifyWorker cn =>
      obtain rfl := Option.some.inj hs
      by_cases hprev : prev = some .pending
      · simp [Moved.map, Task.decremented, Cancel.decremented, Cancel.goto, hprev] at hj
      · simp [Moved.map, Task.decremented, Cancel.decremented, Cancel.goto, hprev] at hj
    | decrPending =>
      obtain rfl := Option.some.inj hs
      obtain rfl : prev = some .pending := hknows
      exact .inr ⟨_, rfl, rfl, Option.some.inj hj, rfl⟩
    | cancelRow => obtain rfl := Option.some.inj hs; exact .inl hj
    | readModel => obtain rfl := Option.some.inj hs; exact .inl hj
    | dequeue model =>
      obtain rfl := Option.some.inj hs
      exact absurd (hj.symm.trans (Cancel.leave_decremented _ false)) (by rintro ⟨⟩)
    | publish isFinal => obtain rfl := Option.some.inj hs; cases hj
    | removeNotifier isFinal => obtain rfl := Option.some.inj hs; cases hj
    | returned => cases hs
  | _ => cases hj

end Pools

section Step
variable {c : Config} {k : ℕ} {choice : Choice} {t : Task} {m : Moved Task}
  {others tasks : List Task}

/-- A step of a task that touches neither counter nor queue and owes nothing. -/
theorem quiet_balanced {w : World} {ids : List Uuid} (h : t.step w choice = some m)
    (hplain : m.Plain) (howed : t.owed = 0 ∧ m.next.owed = 0)
    (hdec : t.decremented = none ∧ m.next.decremented = none) (henq : m.access.kind ≠ .enqueue)
    (hclaim : t.mayAccess .claim = false) (hdequeue : t.mayAccess .dequeue = false)
    (hpending : t.mayAccess .pending = false) : Balanced w ids t m := by
  have hmay := task_mayAccess h
  refine balanced_of_same (apply_pending w (ne_of_mayAccess hmay hpending))
    (apply_queue w henq (ne_of_mayAccess hmay hclaim) (ne_of_mayAccess hmay hdequeue))
    (by rw [hdec.1, hdec.2]) ?_
  rw [plain_owed hplain, howed.1, howed.2]

theorem ledger_balanced (hc : c.Ledger) (hk : c.tasks[k]? = some t) (hok : t.KeepsCount c)
    (hm : t.step c.world choice = some m)
    (hreplaced : Replaced c.tasks t m.next (m.spawned.map Spawn.task) others tasks) :
    Balanced c.world (others.filterMap Task.decremented) t m := by
  have ht := hreplaced.task_mem
  have hknows := hc.knows t ht
  have hperm : c.decremented.Perm _ := decremented_before hreplaced
  have hothers : ∀ j, j ∉ c.decremented → j ∉ others.filterMap Task.decremented := fun j hj hmem =>
    hj (hperm.mem_iff.mpr (List.mem_append_right _ hmem))
  cases Task.step_moved hm with
  | @submit s n hs =>
    refine submit_balanced hs fun job hpc => ?_
    have hsub : (Task.submit s).submitting = some job.id := by
      simp only [Task.submitting, hpc, SubmitPc.submitting]
    have hz := hc.placed.notMem_zset ht (held_of_submitting hsub)
    refine ⟨hz, hothers _ fun hdec => ?_⟩
    rcases hc.past _ hdec with hz' | hoff
    · exact hz hz'
    · exact hoff.submitted _ ht hsub
  | @cancel x n hs =>
    refine cancel_balanced hs (fun hpc => ?_) (fun hpc => ?_) fun model hpc hz => ?_
    · simpa only [Task.KnowsRows, hpc] using hknows
    · have hprev : x.prev = some .pending := by simpa only [Task.KnowsRows, hpc] using hknows
      have hkeeps : x.uuid ∈ c.world.queue.zset ∧ x.uuid ∉ c.decremented := by
        simpa only [Task.KeepsCount, hpc] using hok
      exact ⟨hprev, hkeeps.1⟩
    · have hkeeps : x.uuid ∈ c.world.queue.zset → x.uuid ∈ c.decremented := by
        simpa only [Task.KeepsCount, hpc] using hok
      have hone := List.count_eq_one_of_mem hc.nodup (hkeeps hz)
      rwa [hperm.count_eq] at hone
  | @dispatch d n hs =>
    refine dispatch_balanced hs (fun e hpc hz => hothers _ ?_) fun now id todo scored hpc => ?_
    · have hkeeps : e.uuid ∈ c.world.queue.zset → e.uuid ∉ c.decremented := by
        rcases hpc with ⟨p, rest, hpc⟩ | ⟨rest, hpc⟩
        · simpa only [Task.KeepsCount, hpc] using hok
        · simpa only [Task.KeepsCount, hpc] using hok
      exact hkeeps hz
    · simp only [Task.KnowsRows, hpc] at hknows
  | run hs => exact worker_balanced hs
  | @waitCancel q n hs =>
    refine waitCancel_balanced hs fun id model todo hpc hz => hothers _ ?_
    have hkeeps : id ∈ c.world.queue.zset → id ∉ c.decremented := by
      simpa only [Task.KeepsCount, hpc] using hok
    exact hkeeps hz
  | recover hs => exact absurd ht (hc.placed.noRecovery _)
  | reap hs =>
    exact quiet_balanced hm (plain_of_nil (reap_spawned hs)) ⟨rfl, rfl⟩ ⟨rfl, rfl⟩
      (reap_ne_enqueue hs hok) rfl rfl rfl
  | _ =>
    exact quiet_balanced hm (task_plain hm rfl) ⟨rfl, rfl⟩ ⟨rfl, rfl⟩
      (ne_of_mayAccess (task_mayAccess hm) rfl) rfl rfl rfl

theorem ledger_knows (hc : c.Ledger) (ht : t ∈ c.tasks) (hok : t.KeepsCount c)
    (hm : t.step c.world choice = some m) : m.next.KnowsRows (c.world.apply m.access) := by
  have hknows := hc.knows t ht
  cases Task.step_moved hm with
  | submit hs => exact submit_knowsRows hs hknows
  | @cancel x n hs =>
    refine cancel_knowsRows hs hknows fun hpc => hc.rows _ ?_
    have hkeeps : x.uuid ∈ c.world.queue.zset ∧ x.uuid ∉ c.decremented := by
      simpa only [Task.KeepsCount, hpc] using hok
    exact hkeeps.1
  | dispatch hs => exact dispatch_knowsRows hs hknows hc.rows
  | _ => trivial

/-- The jobs of a reaper are those it had before, or have a lease. -/
theorem reap_jobs {w : World} {r : Reap} {m : Moved Reap} (h : r.step w = some m) {j : Uuid}
    (hj : j ∈ m.next.pc.jobs) : j ∈ r.pc.jobs ∨ j ∈ w.active := by
  obtain ⟨inst, pc⟩ := r
  cases pc with
  | list =>
    obtain rfl := Option.some.inj h
    obtain ⟨deadline, hlookup, -⟩ := lookup_of_mem_leaseExpired hj
    refine .inr (AList.lookup_isSome.mp ?_)
    rw [hlookup]
    rfl
  | each todo =>
    obtain rfl := Option.some.inj h
    cases todo with
    | nil => cases hj
    | cons id todo =>
      simp only [Reap.each, Reap.goto] at hj
      split at hj <;> exact .inl hj
  | getJob id todo =>
    simp only [Reap.step] at h
    split at h <;> (obtain rfl := Option.some.inj h; exact .inl hj)
  | giveUpAttempts id todo => obtain rfl := Option.some.inj h; exact .inl (List.mem_cons_of_mem _ hj)
  | enqueue id score model todo =>
    obtain rfl := Option.some.inj h
    exact .inl (List.mem_cons_of_mem _ hj)
  | leaseAgain id todo => obtain rfl := Option.some.inj h; exact .inl (List.mem_cons_of_mem _ hj)
  | finished => cases h
  | _ => obtain rfl := Option.some.inj h; exact .inl hj

/-- A row that comes to end while its job is queued is ended by a cancel. -/
theorem rowEnded_from (hc : c.Ledger) (ht : t ∈ c.tasks) (hm : t.step c.world choice = some m)
    {j : Uuid} (hz : j ∈ c.world.queue.zset) (hended : (c.world.apply m.access).RowEnded j) :
    c.world.RowEnded j ∨
      ∃ x, t = .cancel x ∧ m.next = .cancel (x.goto .readModel) ∧ x.uuid = j := by
  by_cases hj : m.access.rowId = some j
  · rcases task_rowId hm (by rintro r rfl; exact hc.placed.noRecovery r ht) hj with
      hheld | ⟨x, rfl, hpc, huuid⟩ | ⟨r, todo, rfl, hpc⟩
    · exact absurd hheld (hc.placed.held_ne hz ht)
    · refine .inr ⟨x, rfl, ?_, huuid⟩
      obtain ⟨inst, uuid, isLocal, prev, pc⟩ := x
      obtain rfl : pc = .cancelRow := hpc
      obtain rfl := Option.some.inj hm
      rfl
    · have hoff := hc.reaping r ht j (by rw [hpc]; exact List.mem_cons_self ..)
      exact absurd hz hoff.queue
  · obtain ⟨row, hrow, hterminal⟩ := hended
    exact .inl ⟨row, by rwa [apply_rows_of_ne hj] at hrow, hterminal⟩

/-- A cancel that leaves the queue behind has taken its job out. -/
theorem dequeues_next {w : World} {x : Cancel} {n : Moved Cancel} (h : x.step w = some n)
    (hx : x.Dequeues) : x.uuid ∉ (w.apply n.access).queue.zset ∨
      n.next.Dequeues ∧ n.next.uuid = x.uuid := by
  obtain ⟨inst, uuid, isLocal, prev, pc⟩ := x
  cases pc with
  | readModel => obtain rfl := Option.some.inj h; exact .inr ⟨trivial, rfl⟩
  | dequeue model =>
    obtain rfl := Option.some.inj h
    exact .inl (World.inQueue_eq_zero.mp (inQueue_cancel model))
  | _ => cases hx

/-- Who has a job keeps it, enqueues it, gives it to a worker or fails its row. -/
theorem held_next {w : World} (h : Handover w t m) {j : Uuid} (hj : t.held = some j) :
    m.next.held = some j ∨ j ∈ (w.apply m.access).queue.zset ∨
      (∃ u ∈ m.spawned.map Spawn.task, u.held = some j) ∨
      ∃ reason error, m.access = .failRow j reason error := by
  cases h with
  | keeps hheld _ _ => exact .inl (hheld.trans hj)
  | makes ht _ _ _ => exact absurd (ht.symm.trans hj) (by rintro ⟨⟩)
  | enqueues id score model now ht _ _ _ _ hqueue =>
    obtain rfl : id = j := Option.some.inj ((held_of_submitting ht).symm.trans hj)
    refine .inr (.inl ?_)
    rw [hqueue, Queue.mem_zset_enqueued]
    exact .inl rfl
  | takes id model ht _ _ _ _ => exact absurd (ht.symm.trans hj) (by rintro ⟨⟩)
  | gives args ht _ hspawned _ =>
    refine .inr (.inr (.inl ⟨.run (.start args), ?_, ht.symm.trans hj⟩))
    rw [hspawned]
    exact List.mem_cons_self ..
  | fails id reason error ht _ _ ha =>
    obtain rfl : id = j := Option.some.inj (ht.symm.trans hj)
    exact .inr (.inr (.inr ⟨reason, error, ha⟩))

theorem decremented_next {w : World} (h : t.step w choice = some m) (hknows : t.KnowsRows w)
    {j : Uuid} (hj : t.decremented = some j) : m.next.decremented = some j ∨ w.RowEnded j := by
  cases Task.step_moved h with
  | @cancel x n hs =>
    obtain ⟨inst, uuid, isLocal, prev, pc⟩ := x
    cases pc with
    | cancelRow => obtain rfl := Option.some.inj hs; exact .inl hj
    | readModel => obtain rfl := Option.some.inj hs; exact .inl hj
    | dequeue model =>
      right
      simp only [Task.decremented, Cancel.decremented] at hj
      split at hj
      · next hprev =>
        obtain rfl := Option.some.inj hj
        exact hknows hprev
      · cases hj
    | _ => cases hj
  | _ => cases hj

theorem ledger_carried (hc : c.Ledger) (hok : t.KeepsCount c)
    (hm : t.step c.world choice = some m) (hhand : Handover c.world t m)
    (hreplaced : Replaced c.tasks t m.next (m.spawned.map Spawn.task) others tasks) {j : Uuid}
    (hj : (c.world.apply m.access).rows j ≠ none) :
    (c.world.apply m.access).RowEnded j ∨ j ∈ (c.world.apply m.access).queue.zset ∨
      (∃ u ∈ tasks, u.held = some j) ∨ j ∈ tasks.filterMap Task.decremented := by
  have ht := hreplaced.task_mem
  have hreset : m.access.kind ≠ .resetRow := by
    refine ne_of_mayAccess (task_mayAccess hm) ?_
    cases t with
    | recover r => exact absurd ht (hc.placed.noRecovery r)
    | _ => rfl
  have hheld : t.held = some j → (c.world.apply m.access).RowEnded j ∨
      j ∈ (c.world.apply m.access).queue.zset ∨ ∃ u ∈ tasks, u.held = some j := by
    intro hheld
    rcases held_next hhand hheld with hnext | hz | ⟨u, hu, hheld'⟩ | ⟨reason, error, ha⟩
    · exact .inr (.inr ⟨_, hreplaced.successor_mem, hnext⟩)
    · exact .inr (.inl hz)
    · exact .inr (.inr ⟨u, hreplaced.new_mem hu, hheld'⟩)
    · left
      by_cases hrow : c.world.rows j = none
      · rw [ha, World.apply, updateRow_self, hrow] at hj
        exact absurd rfl hj
      · rw [ha]
        exact rowEnded_of_endRow rfl rfl hrow
  have hdec : j ∈ others.filterMap Task.decremented → j ∈ tasks.filterMap Task.decremented :=
    fun hmem => (decremented_after hreplaced).mem_iff.mpr (List.mem_append_right _ hmem)
  have hdec' : j ∈ c.decremented → (c.world.apply m.access).RowEnded j ∨
      j ∈ tasks.filterMap Task.decremented := by
    intro hmem
    rcases List.mem_append.mp ((decremented_before hreplaced).mem_iff.mp hmem) with hself | hother
    · rcases decremented_next hm (hc.knows t ht) (Option.mem_toList.mp hself) with hnext | hended
      · exact .inr ((decremented_after hreplaced).mem_iff.mpr
          (List.mem_append_left _ (Option.mem_toList.mpr hnext)))
      · exact .inl (hended.apply hreset)
    · exact .inr (hdec hother)
  by_cases hrow : c.world.rows j = none
  · -- only the submission that has the job saves its row
    obtain ⟨row, hsaved⟩ := Option.ne_none_iff_exists'.mp hj
    rcases apply_rows hsaved with ⟨row₀, hrow₀, -⟩ | ⟨-, hid, ha⟩
    · rw [hrow] at hrow₀
      cases hrow₀
    · have hsave : t.mayAccess .saveRow = true := by
        have hmay := task_mayAccess hm
        rwa [ha] at hmay
      have hrowId : m.access.rowId = some j := by rw [ha, Access.rowId, hid]
      rcases task_rowId hm (by rintro r rfl; exact hc.placed.noRecovery r ht) hrowId with
        h | ⟨x, rfl, -, -⟩ | ⟨r, todo, rfl, -⟩
      · exact (hheld h).imp_right (Or.imp_right .inl)
      · cases hsave
      · cases hsave
  · rcases hc.carried j hrow with hended | hz | ⟨u, hu, hheld'⟩ | hmem
    · exact .inl (hended.apply hreset)
    · by_cases hz' : j ∈ (c.world.apply m.access).queue.zset
      · exact .inr (.inl hz')
      · rcases dequeued_from hm hz hz' with
          hnext | ⟨x, model, rfl, hpc, rfl⟩ | ⟨d, now, todo, scored, rfl, hpc⟩
        · exact .inr (.inr (.inl ⟨_, hreplaced.successor_mem, hnext⟩))
        · have hkeeps : x.uuid ∈ c.world.queue.zset → x.uuid ∈ c.decremented := by
            simpa only [Task.KeepsCount, hpc] using hok
          exact (hdec' (hkeeps hz)).imp_right (Or.inr ∘ Or.inr)
        · have hknows := hc.knows _ ht
          simp only [Task.KnowsRows, hpc] at hknows
    · rcases hreplaced.mem_before.mp hu with rfl | hother
      · exact (hheld hheld').imp_right (Or.imp_right .inl)
      · exact .inr (.inr (.inl ⟨u, hreplaced.other_mem hother, hheld'⟩))
    · exact (hdec' hmem).imp_right (Or.inr ∘ Or.inr)

theorem ledger_ended (hc : c.Ledger) (hok : t.KeepsCount c)
    (hm : t.step c.world choice = some m) (hreap : ∀ r, t = .reap r → ¬ r.Requeues)
    (hreplaced : Replaced c.tasks t m.next (m.spawned.map Spawn.task) others tasks) {j : Uuid}
    (hz : j ∈ (c.world.apply m.access).queue.zset) (hended : (c.world.apply m.access).RowEnded j) :
    ∃ x, .cancel x ∈ tasks ∧ x.Dequeues ∧ x.uuid = j := by
  have ht := hreplaced.task_mem
  by_cases hbefore : j ∈ c.world.queue.zset
  · rcases rowEnded_from hc ht hm hbefore hended with hended | ⟨x, -, hnext, rfl⟩
    · obtain ⟨x, hx, hdequeues, rfl⟩ := hc.ended j hbefore hended
      rcases hreplaced.mem_before.mp hx with rfl | hother
      · cases Task.step_moved hm with
        | cancel hs =>
          rcases dequeues_next hs hdequeues with hout | ⟨hdequeues', huuid⟩
          · exact absurd hz hout
          · exact ⟨_, hreplaced.successor_mem, hdequeues', huuid⟩
      · exact ⟨x, hreplaced.other_mem hother, hdequeues, rfl⟩
    · exact ⟨x.goto .readModel, hnext ▸ hreplaced.successor_mem, trivial, rfl⟩
  · -- a job is enqueued only while its row has not ended
    obtain ⟨score, model, now, maxSize, maxPerModel, ha⟩ := (mem_zset_before hz).resolve_left hbefore
    obtain ⟨s, job, rfl, hpc, ha'⟩ := enqueue_from hm
      (by rintro r rfl; exact hc.placed.noRecovery r ht) hreap (by rw [ha]; rfl)
    obtain rfl : j = job.id := (Access.zsetEnqueue.inj (ha.symm.trans ha')).1
    have hkeeps : c.world.queue.Accepts s.req.modelName MAX_QUEUE_SIZE MAX_QUEUE_PER_MODEL →
        ¬ c.world.RowEnded job.id := by simpa only [Task.KeepsCount, hpc] using hok
    by_cases hacc : c.world.queue.Accepts s.req.modelName MAX_QUEUE_SIZE MAX_QUEUE_PER_MODEL
    · rw [ha'] at hended
      exact absurd hended (hkeeps hacc)
    · rw [ha', World.apply, Queue.zsetEnqueue_eq, if_neg hacc] at hz
      exact absurd hz hbefore

theorem ledger_rows (hc : c.Ledger) (hm : t.step c.world choice = some m) (ht : t ∈ c.tasks)
    (hreap : ∀ r, t = .reap r → ¬ r.Requeues) {j : Uuid}
    (hz : j ∈ (c.world.apply m.access).queue.zset) : (c.world.apply m.access).rows j ≠ none := by
  refine rows_ne_none _ ?_
  rcases mem_zset_before hz with hz | ⟨score, model, now, maxSize, maxPerModel, ha⟩
  · exact hc.rows j hz
  · obtain ⟨s, job, rfl, hpc, ha'⟩ := enqueue_from hm
      (by rintro r rfl; exact hc.placed.noRecovery r ht) hreap (by rw [ha]; rfl)
    obtain rfl : j = job.id := (Access.zsetEnqueue.inj (ha.symm.trans ha')).1
    simpa only [Task.KnowsRows, hpc] using hc.knows _ ht

theorem discounted_perm {w : World} {xs ys : List Uuid} (h : xs.Perm ys) :
    w.discounted xs = w.discounted ys :=
  h.countP_eq _

theorem ledger_balance (hc : c.Ledger) (hk : c.tasks[k]? = some t) (hok : t.KeepsCount c)
    (hm : t.step c.world choice = some m)
    (hreplaced : Replaced c.tasks t m.next (m.spawned.map Spawn.task) others tasks) :
    (c.world.apply m.access).pending +
        (c.world.apply m.access).discounted (tasks.filterMap Task.decremented) =
      (c.world.apply m.access).queue.zcard + weight Task.owed tasks := by
  have hstep := ledger_balanced hc hk hok hm hreplaced
  have hbalance := hc.balance
  have hbefore : c.world.discounted c.decremented = _ :=
    discounted_perm (decremented_before hreplaced)
  rw [hbefore, hreplaced.weight_before] at hbalance
  rw [discounted_perm (decremented_after hreplaced), hreplaced.weight_after]
  rw [Balanced] at hstep
  push_cast at hstep hbalance ⊢
  omega

theorem ledger_step {c c' : Config} {a : Action} (hc : c.Ledger) (hok : CountKept c a)
    (h : ConfigMoved c a c') : c'.Ledger := by
  have hplaced : c'.Placed := placed_step hc.placed hok.noRequeue h
  have hoff : ∀ j, c.Off j → c'.Off j := fun j => off_step hc.placed hok.noRequeue h
  have hpast : ∀ j, c.Past j → c'.Past j := fun j => past_step hc.placed hok.noRequeue h
  have hdequeued : ∀ j, j ∈ c.world.queue.zset → j ∉ c'.world.queue.zset → c'.Off j := fun j =>
    off_of_dequeued hc.placed hok.noRequeue h
  cases h with
  | @start s hcan =>
    have hnew : (Config.started c s).decremented = none ∧ (Config.started c s).owed = 0 ∧
        (Config.started c s).KnowsRows c.world ∧
        ∀ r, Config.started c s = .reap r → r.pc.jobs = [] := by
      cases s <;> refine ⟨rfl, rfl, ?_, ?_⟩ <;> first
        | trivial
        | (intro r hr; cases hr; rfl)
        | (intro r hr; cases hr)
    obtain ⟨hdec, howed, hknows, hjobs⟩ := hnew
    have hlist : Config.decremented { c with tasks := c.tasks ++ [c.started s] } =
        c.decremented := by
      simp [Config.decremented, hdec]
    refine ⟨hplaced, fun t ht => ?_, ?_, hlist ▸ hc.nodup, fun j hj => hpast j (hc.past j (hlist ▸ hj)),
      fun j hj => hoff j (hc.leased j hj), fun r hr j hj => ?_, hc.rows, fun j hz hended => ?_,
      fun j hj => ?_⟩
    · rcases List.mem_append.mp ht with ht | ht
      · exact hc.knows t ht
      · exact List.mem_singleton.mp ht ▸ hknows
    · rw [hlist, weight_append, weight_cons, howed]
      exact hc.balance
    · rcases List.mem_append.mp hr with hr | hr
      · exact hoff j (hc.reaping r hr j hj)
      · rw [hjobs r (List.mem_singleton.mp hr).symm] at hj
        cases hj
    · obtain ⟨x, hx, hrest⟩ := hc.ended j hz hended
      exact ⟨x, List.mem_append_left _ hx, hrest⟩
    · rw [hlist]
      refine (hc.carried j hj).imp_right (Or.imp_right (Or.imp_left ?_))
      rintro ⟨t, ht, hheld⟩
      exact ⟨t, List.mem_append_left _ ht, hheld⟩
  | @run k choice t m others tasks hk hm hreplaced _ =>
    have ht := hreplaced.task_mem
    have hkeeps : t.KeepsCount c := hok t hk
    have hrecover : ∀ r, t ≠ .recover r := by
      rintro r rfl
      exact hc.placed.noRecovery r ht
    have hreap : ∀ r, t = .reap r → ¬ r.Requeues := by
      rintro r rfl
      exact hkeeps
    have hreset : m.access.kind ≠ .resetRow := by
      refine ne_of_mayAccess (task_mayAccess hm) ?_
      cases t with
      | recover r => exact absurd rfl (hrecover r)
      | _ => rfl
    have hafter := decremented_after hreplaced
    have hbefore : c.decremented.Perm _ := decremented_before hreplaced
    have hfrom : ∀ j, m.next.decremented = some j → t.decremented = some j ∨
        j ∈ c.world.queue.zset ∧ j ∉ c.decremented := by
      intro j hnext
      rcases decremented_from hm (hc.knows t ht) hnext with hself | ⟨x, rfl, hpc, rfl, -⟩
      · exact .inl hself
      · exact .inr (by simpa only [Task.KeepsCount, hpc] using hkeeps)
    refine ⟨hplaced, ?_, ledger_balance hc hk hkeeps hm hreplaced, ?_, fun j hj => ?_,
      fun j hj => ?_, fun r hr j hj => ?_, fun j hz => ledger_rows hc hm ht hreap hz,
      fun j hz hended => ledger_ended hc hkeeps hm hreap hreplaced hz hended,
      fun j hj => ledger_carried hc hkeeps hm (task_handover hm hrecover hreap) hreplaced hj⟩
    · refine hreplaced.forall_mem (fun u hu => ?_) (ledger_knows hc ht hkeeps hm) fun u hu => ?_
      · exact (hc.knows u (hreplaced.other_mem_before hu)).apply hreset
      · obtain ⟨s, -, rfl⟩ := List.mem_map.mp hu
        cases s <;> trivial
    · have hnodup := hbefore.nodup_iff.mp hc.nodup
      refine hafter.nodup_iff.mpr ?_
      cases hnext : m.next.decremented with
      | none => exact hnodup.of_append_right
      | some j =>
        rcases hfrom j hnext with hself | ⟨-, hfresh⟩
        · rwa [← hself]
        · have hother : j ∉ others.filterMap Task.decremented := fun hmem =>
            hfresh (hbefore.mem_iff.mpr (List.mem_append_right _ hmem))
          exact List.nodup_cons.mpr ⟨hother, hnodup.of_append_right⟩
    · rcases List.mem_append.mp (hafter.mem_iff.mp hj) with hnext | hother
      · rcases hfrom j (Option.mem_toList.mp hnext) with hself | ⟨hz, -⟩
        · exact hpast j (hc.past j (hbefore.mem_iff.mpr
            (List.mem_append_left _ (Option.mem_toList.mpr hself))))
        · exact hpast j (.inl hz)
      · exact hpast j (hc.past j (hbefore.mem_iff.mpr (List.mem_append_right _ hother)))
    · rcases mem_active_before hj with hactive | ⟨hz, hz'⟩
      · exact hoff j (hc.leased j hactive)
      · exact hdequeued j hz hz'
    · rcases hreplaced.mem_after.mp hr with hnext | hother | hnew
      · cases Task.step_moved hm with
        | @reap r₀ n hs =>
          obtain rfl := Task.reap.inj hnext
          rcases reap_jobs hs hj with hj | hactive
          · exact hoff j (hc.reaping r₀ ht j hj)
          · exact hoff j (hc.leased j hactive)
        | _ => cases hnext
      · exact hoff j (hc.reaping r (hreplaced.other_mem_before hother) j hj)
      · obtain ⟨s, -, hs⟩ := List.mem_map.mp hnew
        cases s <;> cases hs
  | tick elapsed =>
    exact ⟨hplaced, hc.knows, hc.balance, hc.nodup, fun j hj => hpast j (hc.past j hj),
      fun j hj => hoff j (hc.leased j hj), fun r hr j hj => hoff j (hc.reaping r hr j hj), hc.rows,
      hc.ended, hc.carried⟩
  | restart inst => exact hok.elim
  | owner id i =>
    exact ⟨hplaced, hc.knows, hc.balance, hc.nodup, fun j hj => hpast j (hc.past j hj),
      fun j hj => hoff j (hc.leased j hj), fun r hr j hj => hoff j (hc.reaping r hr j hj), hc.rows,
      hc.ended, hc.carried⟩
  | heartbeat i alive =>
    exact ⟨hplaced, hc.knows, hc.balance, hc.nodup, fun j hj => hpast j (hc.past j hj),
      fun j hj => hoff j (hc.leased j hj), fun r hr j hj => hoff j (hc.reaping r hr j hj), hc.rows,
      hc.ended, hc.carried⟩

end Step

theorem ledger_reachable {d : Deployment} {c : Config}
    (h : Run Config.step CountKept (Config.init d) c) : c.Ledger := by
  refine h.invariant ?_ fun c c' a _ hc hok hs => ledger_step hc hok (Config.step_moved hs)
  refine ⟨placed_reachable (.refl _), ?_, rfl, List.nodup_nil, ?_, ?_, ?_, ?_, ?_, ?_⟩
  · intro t ht
    cases ht
  · intro j hj
    cases hj
  · intro j hj
    cases hj
  · intro r hr
    cases hr
  · intro j hj
    cases hj
  · intro j hj
    cases hj
  · intro j hj
    exact absurd rfl hj

/-! ## The counter -/

section Quiescent
variable {c : Config}

theorem owed_of_quiescent (h : c.Quiescent) : weight Task.owed c.tasks = 0 := by
  rw [weight_eq_zero]
  intro t ht
  have hquiet := h t ht
  cases t with
  | submit s =>
    obtain ⟨inst, req, pc⟩ := s
    cases pc <;> first
      | rfl
      | cases hquiet
  | dispatch d =>
    obtain ⟨inst, pc⟩ := d
    cases pc <;> first
      | rfl
      | cases hquiet
  | run v =>
    obtain ⟨args, job, stop, apiKeyId, tpmMinute, startedAt, cancelNotify, ts, log, pc⟩ := v
    cases pc <;> first
      | rfl
      | cases hquiet
  | waitCancel q =>
    obtain ⟨inst, pc⟩ := q
    cases pc <;> first
      | rfl
      | cases hquiet
  | _ => rfl

theorem cancel_returned (h : c.Quiescent) {x : Cancel} (hx : .cancel x ∈ c.tasks) :
    x.pc = .returned := by
  have hended : (Task.cancel x).ended = true := by
    simpa [Task.inProgress] using h _ hx
  exact of_decide_eq_true hended

theorem decremented_of_quiescent (h : c.Quiescent) : c.decremented = [] := by
  rw [Config.decremented, List.filterMap_eq_nil_iff]
  intro t ht
  cases t with
  | cancel x =>
    have hpc := cancel_returned h ht
    simp only [Task.decremented, Cancel.decremented, hpc]
  | _ => rfl

/-- Between operations only workers have jobs. -/
theorem held_of_quiescent (h : c.Quiescent) {t : Task} (ht : t ∈ c.tasks) {j : Uuid}
    (hj : t.held = some j) : ∃ v, t = .run v ∧ v.uuid = j := by
  have hquiet := h t ht
  cases t with
  | submit s =>
    obtain ⟨inst, req, pc⟩ := s
    cases pc <;> first
      | (cases hquiet; done)
      | cases hj
  | dispatch d =>
    obtain ⟨inst, pc⟩ := d
    cases pc <;> first
      | (cases hquiet; done)
      | cases hj
  | run v => exact ⟨v, rfl, Option.some.inj hj⟩
  | waitCancel q =>
    obtain ⟨inst, pc⟩ := q
    cases pc <;> first
      | (cases hquiet; done)
      | cases hj
  | _ => cases hj

/-- Between operations the queue holds exactly the jobs that wait. -/
theorem mem_zset_iff_waiting (hc : c.Ledger) (h : c.Quiescent) (j : Uuid) :
    j ∈ c.world.queue.zset ↔ c.Waiting j := by
  constructor
  · intro hz
    refine ⟨hc.rows j hz, fun hended => ?_, fun v hv huuid => ?_⟩
    · obtain ⟨x, hx, hdequeues, -⟩ := hc.ended j hz hended
      simp only [Cancel.Dequeues, cancel_returned h hx] at hdequeues
    · exact hc.placed.held_ne hz hv (congrArg some huuid)
  · rintro ⟨hrow, hended, hworkers⟩
    rcases hc.carried j hrow with hj | hz | ⟨t, ht, hheld⟩ | hmem
    · exact absurd hj hended
    · exact hz
    · obtain ⟨v, rfl, huuid⟩ := held_of_quiescent h ht hheld
      exact absurd huuid (hworkers v ht)
    · rw [decremented_of_quiescent h] at hmem
      cases hmem

end Quiescent

/-- The counter is never negative, and between operations it is the number of waiting jobs. -/
theorem pending_counter_accurate {d : Deployment} {c : Config}
    (h : Run Config.step CountKept (Config.init d) c) :
    0 ≤ c.world.pending ∧ (c.Quiescent → c.world.pending = {j | c.Waiting j}.ncard) := by
  have hc := ledger_reachable h
  have hbalance := hc.balance
  refine ⟨?_, fun hquiet => ?_⟩
  · have hle : c.world.discounted c.decremented ≤ c.world.queue.zcard :=
      discounted_le_zcard hc.nodup
    omega
  · have hset : {j | c.Waiting j} = (c.world.queue.zset.keys.toFinset : Set Uuid) := by
      ext j
      show c.Waiting j ↔ _
      rw [← mem_zset_iff_waiting hc hquiet j, Finset.mem_coe, List.mem_toFinset, AList.mem_keys]
    have hcard : {j | c.Waiting j}.ncard = c.world.queue.zcard := by
      rw [hset, Set.ncard_coe_finset, List.toFinset_card_of_nodup c.world.queue.zset.keys_nodup]
      rfl
    rw [hcard]
    rw [owed_of_quiescent hquiet, decremented_of_quiescent hquiet] at hbalance
    simpa [World.discounted] using hbalance

/-- Whether the step is one of a submission or a cancel and keeps the count. -/
def countKeeper (c : Config) : Action → Bool
  | .start (.submit _ _) | .start (.cancel _ _) => true
  | .run k _ => match c.tasks[k]? with
    | some (.submit s) => match s.pc with
      | .enqueue job => (c.world.rows job.id).all fun row => !row.status.isTerminal
      | _ => true
    | some (.cancel x) => match x.pc with
      | .decrPending => x.uuid ∈ c.world.queue.zset ∧ x.uuid ∉ c.decremented
      | .dequeue _ => x.uuid ∈ c.world.queue.zset → x.uuid ∈ c.decremented
      | _ => true
    | _ => false
  | _ => false

theorem countKept_of_countKeeper (c : Config) (a : Action) (h : countKeeper c a = true) :
    CountKept c a := by
  cases a with
  | start s =>
    cases s with
    | recover inst => cases h
    | _ => trivial
  | restart inst => cases h
  | run k choice =>
    intro t hk
    simp only [countKeeper, hk] at h
    cases t with
    | submit s =>
      obtain ⟨inst, req, pc⟩ := s
      cases pc with
      | enqueue job =>
        rintro - ⟨row, hrow, hterminal⟩
        simp [hrow, hterminal] at h
      | _ => trivial
    | cancel x =>
      obtain ⟨inst, uuid, isLocal, prev, pc⟩ := x
      cases pc with
      | decrPending => simpa only [decide_eq_true_eq, Task.KeepsCount] using h
      | dequeue model => simpa only [decide_eq_true_eq, Task.KeepsCount] using h
      | _ => trivial
    | _ => cases h
  | _ => trivial

/-- Two submissions, and a cancel of the first job while it is queued. -/
theorem pending_counter_of_cancelled_job :
    ∃ c, Run Config.step CountKept (Config.init twoInstances) c ∧ c.world.pending = 1 ∧
      c.world.pending = {j | c.Waiting j}.ncard := by
  have hexec : (exec Config.step countKeeper (Config.init twoInstances)
      (.flatten [.start (.submit 0 (plainRequest "hi")) :: List.replicate 6 (.run 0 .go),
        .start (.submit 0 (plainRequest "ho")) :: List.replicate 6 (.run 1 .go),
        .start (.cancel 0 0) :: List.replicate 9 (.run 2 .go)])).any (fun c =>
          decide (c.Quiescent ∧ c.world.pending = 1)) = true := by decide +kernel
  obtain ⟨c, hrun, hc⟩ := Run.exists_of_exec countKept_of_countKeeper hexec
  obtain ⟨hquiet, hpending⟩ := of_decide_eq_true hc
  exact ⟨c, hrun, hpending, (pending_counter_accurate hrun).2 hquiet⟩

/-- Whether the step is neither a recovery nor a restart. -/
def withoutRecovery (_ : Config) : Action → Bool
  | .start (.recover _) | .restart _ => false
  | _ => true

/-- A cancel marks the entry between the claim of its job and the setup of its worker: it decrements,
and so does the worker. -/
theorem pending_counter_negative :
    ∃ c, Run Config.step (fun c a => withoutRecovery c a = true) (Config.init twoInstances) c ∧
      c.Quiescent ∧ c.world.pending = -1 := by
  have hexec : (exec Config.step withoutRecovery (Config.init twoInstances)
      (.flatten [.start (.submit 0 (plainRequest "hi")) :: List.replicate 6 (.run 0 .go),
        .start (.dispatch 0) :: List.replicate 4 (.run 1 .go),
        [.run 1 (.scores (fun _ => false) 1), .run 1 (.provider 1 false), .run 1 .go, .run 1 .go],
        .start (.cancel 0 0) :: List.replicate 9 (.run 2 .go), List.replicate 2 (.run 1 .go),
        List.replicate 7 (.run 4 .go)])).any (fun c =>
          decide (c.Quiescent ∧ c.world.pending = -1)) = true := by decide +kernel
  obtain ⟨c, hrun, hc⟩ := Run.exists_of_exec (fun _ _ h => h) hexec
  obtain ⟨hquiet, hpending⟩ := of_decide_eq_true hc
  exact ⟨c, hrun, hquiet, hpending⟩

end Veronex
