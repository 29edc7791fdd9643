import Veronex.Inference.Faults
import Veronex.Inference.Places

/-! # Queued jobs are found

A job is in the queue, then it has a lease, and in the end its row is final. `active_lease_remove`
takes the lease away before the reaper enqueues the job again, before the dispatcher fails it, and
after a run whether or not the row was written.

`queued_jobs_found`: while it is only called for jobs whose row is final, or that are in the queue,
every job that was enqueued is found, whatever fails and whoever crashes. Otherwise the job is lost
at once (`lost_of_leaseRemove`).
-/
namespace Veronex
open Concurrency
set_option autoImplicit false

/-- A dispatcher or a reaper finds every job that was enqueued and whose row is not final. -/
def FaultyConfig.Found (c : FaultyConfig) : Prop :=
  ∀ j ∈ c.enqueued, ∀ row, c.world.rows j = some row → row.status.isTerminal = false →
    j ∈ c.world.queue.zset ∨ j ∈ c.world.active

/-- The lease of a job is only taken away if its row is final, or it is in the queue. -/
def World.Spares (w : World) : Access → Prop
  | .leaseRemove j => (w.rows j).all (fun row => row.status.isTerminal) = true ∨ j ∈ w.queue.zset
  | _ => True

instance (w : World) (a : Access) : Decidable (w.Spares a) := by
  unfold World.Spares
  split <;> exact inferInstance

/-- No command takes away the lease of a job that has neither ended nor is in the queue. -/
def LeasesSpared (c : FaultyConfig) : FaultyAction → Prop
  | .run k choice outcome =>
    outcome.reached = true → ∀ m ∈ c.moved k choice outcome, c.world.Spares m.access
  | _ => True

instance (c : FaultyConfig) (a : FaultyAction) : Decidable (LeasesSpared c a) := by
  unfold LeasesSpared
  split <;> exact inferInstance

/-! ## What is kept -/

/-- Queued jobs have rows, and a job that was enqueued has ended or is in one of the two sets. -/
structure World.Queued (w : World) (enqueued : List Uuid) : Prop where
  rows : ∀ j ∈ w.queue.zset, w.rows j ≠ none
  known : ∀ j ∈ enqueued, w.rows j ≠ none
  kept : ∀ j ∈ enqueued, w.RowEnded j ∨ j ∈ w.queue.zset ∨ j ∈ w.active

def Access.enqueues : Access → Option Uuid
  | .zsetEnqueue id _ _ _ _ _ => some id
  | _ => none

/-- An access that resets no row, cancels no queued job and enqueues only a job with a row. -/
structure World.Allows (w : World) (a : Access) : Prop where
  reset : a.kind ≠ .resetRow
  dequeue : a.kind ≠ .dequeue
  enqueue : ∀ id, a.enqueues = some id → w.rows id ≠ none

section Accesses
variable {w : World} {a : Access} {j : Uuid} {enqueued : List Uuid}

theorem enqueues_of_kind (h : a.kind ≠ .enqueue) (j : Uuid) : a.enqueues ≠ some j := by
  cases a with
  | zsetEnqueue id score model now maxSize maxPerModel => exact absurd rfl h
  | _ => exact fun hj => by cases hj

theorem allows_of_kind (hreset : a.kind ≠ .resetRow) (hdequeue : a.kind ≠ .dequeue)
    (henqueue : a.kind ≠ .enqueue) : w.Allows a :=
  ⟨hreset, hdequeue, fun id hid => absurd hid (enqueues_of_kind henqueue id)⟩

theorem allows_read : w.Allows .read :=
  allows_of_kind (by rintro ⟨⟩) (by rintro ⟨⟩) (by rintro ⟨⟩)

/-- An access of a task that has no business with the queue or the status of rows. -/
theorem allows_of_mayAccess {f : AccessKind → Bool} (h : f a.kind = true)
    (hreset : f .resetRow = false) (hdequeue : f .dequeue = false)
    (henqueue : f .enqueue = false) : w.Allows a :=
  allows_of_kind (ne_of_mayAccess h hreset) (ne_of_mayAccess h hdequeue)
    (ne_of_mayAccess h henqueue)

/-- An access of a task that enqueues, but does not do so now. -/
theorem allows_of_enqueues {f : AccessKind → Bool} (h : f a.kind = true)
    (hreset : f .resetRow = false) (hdequeue : f .dequeue = false) (hnone : a.enqueues = none) :
    w.Allows a := by
  refine ⟨ne_of_mayAccess h hreset, ne_of_mayAccess h hdequeue, fun id hid => ?_⟩
  rw [hnone] at hid
  cases hid

/-- A queued job stays or is claimed. -/
theorem queued_apply (h : j ∈ w.queue.zset) (hdequeue : a.kind ≠ .dequeue) :
    j ∈ (w.apply a).queue.zset ∨ j ∈ (w.apply a).active := by
  cases a with
  | zsetEnqueue id score model now maxSize maxPerModel =>
    left
    simp only [World.apply, Queue.zsetEnqueue_eq]
    split
    · exact (w.queue.mem_zset_enqueued id score model now).mpr (.inr h)
    · exact h
  | zsetClaim id model now =>
    simp only [World.apply, Queue.zsetClaim_eq]
    split
    · by_cases hj : j = id
      · exact .inr ((AList.mem_insert _).mpr (.inl hj))
      · exact .inl ((w.queue.mem_zset_dequeue id model).mpr ⟨hj, h⟩)
    · exact .inl h
  | zsetCancel id model => exact absurd rfl hdequeue
  | _ => exact .inl h

/-- A lease stays unless it is removed. -/
theorem leased_apply (h : j ∈ w.active) (hremove : a ≠ .leaseRemove j) :
    j ∈ (w.apply a).active := by
  cases a with
  | zsetClaim id model now =>
    simp only [World.apply, Queue.zsetClaim_eq]
    split
    · exact (AList.mem_insert _).mpr (.inr h)
    · exact h
  | leaseRenew id deadline =>
    simp only [World.apply]
    split
    · exact (AList.mem_insert _).mpr (.inr h)
    · exact h
  | leaseRemove id =>
    have hne : j ≠ id := by
      rintro rfl
      exact hremove rfl
    exact AList.mem_erase.mpr ⟨hne, h⟩
  | _ => exact h

theorem mem_zset_of_accepts (h : j ∈ w.accepts a) :
    a.enqueues = some j ∧ j ∈ (w.apply a).queue.zset := by
  cases a with
  | zsetEnqueue id score model now maxSize maxPerModel =>
    simp only [World.accepts, Queue.zsetEnqueue_eq] at h
    by_cases haccepts : w.queue.Accepts model maxSize maxPerModel
    · rw [if_pos haccepts, if_pos rfl] at h
      obtain rfl := List.mem_singleton.mp h
      refine ⟨rfl, ?_⟩
      simp only [World.apply, Queue.zsetEnqueue_eq, if_pos haccepts]
      exact (w.queue.mem_zset_enqueued j score model now).mpr (.inl rfl)
    · rw [if_neg haccepts] at h
      cases h
  | _ => cases h

theorem World.Queued.apply (h : w.Queued enqueued) (hallows : w.Allows a)
    (hspares : w.Spares a) : (w.apply a).Queued (w.accepts a ++ enqueued) where
  rows j hj := by
    refine rows_ne_none a ?_
    rcases mem_zset_before hj with hold | ⟨score, model, now, maxSize, maxPerModel, rfl⟩
    · exact h.rows j hold
    · exact hallows.enqueue j rfl
  known j hj := by
    refine rows_ne_none a ?_
    rcases List.mem_append.mp hj with hnew | hold
    · exact hallows.enqueue j (mem_zset_of_accepts hnew).1
    · exact h.known j hold
  kept j hj := by
    rcases List.mem_append.mp hj with hnew | hold
    · exact .inr (.inl (mem_zset_of_accepts hnew).2)
    · rcases h.kept j hold with hended | hqueued | hleased
      · exact .inl (hended.apply hallows.reset)
      · exact .inr (queued_apply hqueued hallows.dequeue)
      · by_cases hremove : a = .leaseRemove j
        · subst hremove
          rcases hspares with hended | hqueued
          · left
            obtain ⟨row, hrow⟩ := Option.ne_none_iff_exists'.mp (h.known j hold)
            rw [hrow] at hended
            exact ⟨row, hrow, hended⟩
          · exact .inr (.inl hqueued)
        · exact .inr (.inr (leased_apply hleased hremove))

end Accesses

/-! ## Tasks -/

/-- The jobs a pass of the dispatcher has seen in the queue have rows. -/
def DispatchPc.Known (w : World) : DispatchPc → Prop
  | .load _ todo _ => ∀ e ∈ todo, w.rows e.1 ≠ none
  | .fetch _ id _ todo _ => w.rows id ≠ none ∧ ∀ e ∈ todo, w.rows e.1 ≠ none
  | .adopt _ _ _ _ todo _ => ∀ e ∈ todo, w.rows e.1 ≠ none
  | .dropMissing _ _ _ _ => False
  | _ => True

def SubmitPc.Known (w : World) : SubmitPc → Prop
  | .insertNotifier job | .insertEntry job _ | .incrPending job | .enqueue job =>
    w.rows job.id ≠ none
  | _ => True

def ReapPc.Known (w : World) : ReapPc → Prop
  | .enqueue id _ _ _ => w.rows id ≠ none
  | _ => True

/-- The tasks of a run, and that the jobs they are to look up or to enqueue have rows. -/
def FaultyTask.Known (w : World) : FaultyTask → Prop
  | .task (.submit s) => s.pc.Known w
  | .task (.dispatch d) => d.pc.Known w
  | .task (.reap r) => r.pc.Known w
  | .task (.run _) | .task (.keepalive _) | .task (.cleanup _) | .task (.cancelMessage _)
  | .task .killed | .direct _ | .failReaped _ _ _ => True
  | .task _ => False

theorem FaultyTask.Known.mono {w w' : World} {t : FaultyTask} (h : t.Known w)
    (hrows : ∀ j, w.rows j ≠ none → w'.rows j ≠ none) : t.Known w' := by
  cases t with
  | direct d => trivial
  | failReaped inst id todo => trivial
  | task t =>
    cases t with
    | submit s =>
      obtain ⟨inst, req, pc⟩ := s
      cases pc with
      | insertNotifier job | insertEntry job cell | incrPending job | enqueue job =>
        exact hrows _ h
      | _ => trivial
    | dispatch d =>
      obtain ⟨inst, pc⟩ := d
      cases pc with
      | load now todo scored => exact fun e he => hrows _ (h e he)
      | fetch now id score todo scored => exact ⟨hrows _ h.1, fun e he => hrows _ (h.2 e he)⟩
      | adopt now id score job todo scored => exact fun e he => hrows _ (h e he)
      | dropMissing now id todo scored => exact h
      | _ => trivial
    | reap r =>
      obtain ⟨inst, pc⟩ := r
      cases pc with
      | enqueue id score model todo => exact hrows _ h
      | _ => trivial
    | run v => trivial
    | keepalive k => trivial
    | cleanup c => trivial
    | cancelMessage m => trivial
    | killed => trivial
    | _ => exact h

theorem ofSpawn_known (w : World) (s : Spawn) : (FaultyTask.ofSpawn s).Known w := by
  cases s <;> trivial

section Steps
variable {w : World} {choice : Choice} {enqueued : List Uuid}

theorem mem_filter_isCommand {M : Type} {o : Option (Moved M)} {m : Moved M}
    (h : o.filter (·.access.isCommand) = some m) : o = some m ∧ m.access.isCommand = true := by
  obtain ⟨hm, hcommand⟩ := Option.filter_eq_some_iff.mp h
  exact ⟨hm, hcommand⟩

theorem submit_known {s : Submit} {m : Moved Submit} (h : s.step w = some m)
    (hs : s.pc.Known w) : m.next.pc.Known (w.apply m.access) ∧ w.Allows m.access := by
  have hkind := submit_mayAccess h
  have hallows : m.access.enqueues = none → w.Allows m.access :=
    allows_of_enqueues hkind rfl rfl
  obtain ⟨inst, req, pc⟩ := s
  cases pc with
  | create =>
    simp only [Submit.step] at h
    split at h <;> (obtain rfl := Option.some.inj h; exact ⟨trivial, hallows rfl⟩)
  | save job =>
    obtain rfl := Option.some.inj h
    refine ⟨?_, hallows rfl⟩
    simp [Submit.goto, SubmitPc.Known, World.apply, JobRow.ofJob, jobForDb]
  | insertNotifier job =>
    obtain rfl := Option.some.inj h
    exact ⟨rows_ne_none _ hs, hallows rfl⟩
  | insertEntry job cell =>
    obtain rfl := Option.some.inj h
    exact ⟨rows_ne_none _ hs, hallows rfl⟩
  | incrPending job =>
    obtain rfl := Option.some.inj h
    exact ⟨rows_ne_none _ hs, hallows rfl⟩
  | enqueue job =>
    obtain rfl := Option.some.inj h
    refine ⟨?_, ne_of_mayAccess hkind rfl, ne_of_mayAccess hkind rfl, fun id hid => ?_⟩
    · dsimp only [Submit.goto]
      split <;> trivial
    · obtain rfl := Option.some.inj hid
      exact hs
  | rejectDecr job | rejectEntry job | rejectNotifier job | rejectRow job =>
    obtain rfl := Option.some.inj h
    exact ⟨trivial, hallows rfl⟩
  | returned result => cases h

theorem submit_fail_known {s : Submit} {message : String} {m : Moved Submit}
    (h : s.fail w message = some m) (hs : s.pc.Known w) :
    m.next.pc.Known w ∧ w.Allows m.access := by
  obtain ⟨inst, req, pc⟩ := s
  cases pc with
  | save job =>
    obtain rfl := Option.some.inj h
    exact ⟨trivial, allows_of_kind (by rintro ⟨⟩) (by rintro ⟨⟩) (by rintro ⟨⟩)⟩
  | enqueue job =>
    simp only [Submit.fail] at h
    obtain ⟨n, hn, rfl⟩ := Option.map_eq_some_iff.mp h
    exact ⟨trivial, (submit_known hn hs).2⟩
  | incrPending job =>
    simp only [Submit.fail] at h
    obtain ⟨hstep, -⟩ := mem_filter_isCommand h
    obtain rfl := Option.some.inj hstep
    exact ⟨hs, (submit_known hstep hs).2⟩
  | create =>
    simp only [Submit.fail] at h
    obtain ⟨hstep, hcommand⟩ := mem_filter_isCommand h
    simp only [Submit.step] at hstep
    split at hstep <;> (obtain rfl := Option.some.inj hstep; cases hcommand)
  | insertNotifier job =>
    simp only [Submit.fail] at h
    obtain ⟨hstep, hcommand⟩ := mem_filter_isCommand h
    obtain rfl := Option.some.inj hstep
    cases hcommand
  | insertEntry job cell =>
    simp only [Submit.fail] at h
    obtain ⟨hstep, hcommand⟩ := mem_filter_isCommand h
    obtain rfl := Option.some.inj hstep
    cases hcommand
  | rejectDecr job | rejectEntry job | rejectNotifier job | rejectRow job =>
    simp only [Submit.fail] at h
    obtain ⟨hstep, -⟩ := mem_filter_isCommand h
    have hallows := (submit_known hstep hs).2
    obtain rfl := Option.some.inj hstep
    exact ⟨trivial, hallows⟩
  | returned result =>
    simp only [Submit.fail] at h
    obtain ⟨hstep, -⟩ := mem_filter_isCommand h
    cases hstep

theorem reap_known {r : Reap} {m : Moved Reap} (h : r.step w = some m) (hr : r.pc.Known w) :
    m.next.pc.Known (w.apply m.access) ∧ w.Allows m.access := by
  have hkind := reap_mayAccess h
  have hallows : m.access.enqueues = none → w.Allows m.access :=
    allows_of_enqueues hkind rfl rfl
  obtain ⟨inst, pc⟩ := r
  cases pc with
  | each todo =>
    obtain rfl := Option.some.inj h
    refine ⟨?_, hallows rfl⟩
    cases todo with
    | nil => trivial
    | cons id todo =>
      dsimp only [Reap.each, Reap.goto]
      split <;> trivial
  | getJob id todo =>
    simp only [Reap.step] at h
    split at h
    · next job hjob =>
      obtain rfl := Option.some.inj h
      refine ⟨fun hnone => ?_, hallows rfl⟩
      have hnone' : w.rows id = none := hnone
      rw [World.getJob, hnone'] at hjob
      cases hjob
    · obtain rfl := Option.some.inj h
      exact ⟨trivial, hallows rfl⟩
  | enqueue id score model todo =>
    obtain rfl := Option.some.inj h
    refine ⟨trivial, ne_of_mayAccess hkind rfl, ne_of_mayAccess hkind rfl, fun id' hid => ?_⟩
    obtain rfl := Option.some.inj hid
    exact hr
  | finished => cases h
  | _ =>
    obtain rfl := Option.some.inj h
    exact ⟨trivial, hallows rfl⟩

theorem reap_fail_known {r : Reap} {m : Moved Reap} (h : r.fail w = some m) (hr : r.pc.Known w) :
    m.next.pc.Known w ∧ w.Allows m.access := by
  obtain ⟨inst, pc⟩ := r
  cases pc with
  | list => obtain rfl := Option.some.inj h; exact ⟨trivial, allows_read⟩
  | getJob id todo => obtain rfl := Option.some.inj h; exact ⟨trivial, allows_read⟩
  | each todo =>
    cases todo with
    | nil =>
      simp only [Reap.fail] at h
      obtain ⟨hstep, hcommand⟩ := mem_filter_isCommand h
      obtain rfl := Option.some.inj hstep
      cases hcommand
    | cons id todo => obtain rfl := Option.some.inj h; exact ⟨trivial, allows_read⟩
  | finished =>
    simp only [Reap.fail] at h
    obtain ⟨hstep, -⟩ := mem_filter_isCommand h
    cases hstep
  | _ =>
    simp only [Reap.fail] at h
    obtain ⟨hstep, -⟩ := mem_filter_isCommand h
    have hallows := (reap_known hstep hr).2
    obtain rfl := Option.some.inj hstep
    exact ⟨trivial, hallows⟩

/-- A job that is looked up is in the queue or was, and has a row. -/
theorem dispatch_known {d : Dispatch} {m : Moved Dispatch} (hw : w.Queued enqueued)
    (h : d.step w choice = some m) (hd : d.pc.Known w) :
    m.next.pc.Known (w.apply m.access) ∧ w.Allows m.access := by
  have hkind := dispatch_mayAccess h
  have hallows : m.access.kind ≠ .dequeue → w.Allows m.access := fun hdequeue =>
    allows_of_kind (ne_of_mayAccess hkind rfl) hdequeue (ne_of_mayAccess hkind rfl)
  obtain ⟨inst, pc⟩ := d
  cases pc with
  | dropMissing now id todo scored => exact hd.elim
  | peek k =>
    obtain rfl := Option.some.inj h
    refine ⟨?_, hallows (by rintro ⟨⟩)⟩
    dsimp only [Dispatch.goto]
    split
    · trivial
    · exact fun e he => hw.rows _ (mem_zset_of_mem_zsetPeek he)
  | load now todo scored =>
    obtain rfl := Option.some.inj h
    cases todo with
    | nil =>
      refine ⟨?_, hallows (by rintro ⟨⟩)⟩
      dsimp only [Dispatch.loadStep, Dispatch.goto]
      split <;> trivial
    | cons entry todo =>
      obtain ⟨id, score⟩ := entry
      have hrest : ∀ e ∈ todo, w.rows e.1 ≠ none := fun e he => hd e (List.mem_cons_of_mem _ he)
      simp only [Dispatch.loadStep] at hallows ⊢
      split
      · exact ⟨hrest, allows_read⟩
      · exact ⟨⟨hd (id, score) List.mem_cons_self, hrest⟩, allows_read⟩
  | fetch now id score todo scored =>
    simp only [Dispatch.step] at h
    split at h
    · obtain rfl := Option.some.inj h
      exact ⟨hd.2, hallows (by rintro ⟨⟩)⟩
    · next hnone =>
      refine absurd ?_ hd.1
      unfold World.getJob at hnone
      split at hnone
      · next hrow => exact hrow
      · next row hrow =>
        cases hparse : rowToJob row with
        | ok job =>
          rw [hparse] at hnone
          cases hnone
        | error e =>
          rw [hparse] at hnone
          cases hnone
    · obtain rfl := Option.some.inj h
      exact ⟨hd.2, hallows (by rintro ⟨⟩)⟩
  | adopt now id score job todo scored =>
    obtain rfl := Option.some.inj h
    exact ⟨fun e he => rows_ne_none _ (hd e he), hallows (by rintro ⟨⟩)⟩
  | sort now scored =>
    simp only [Dispatch.step] at h
    split at h
    · obtain rfl := Option.some.inj h
      exact ⟨trivial, hallows (by rintro ⟨⟩)⟩
    · cases h
  | attempt rest =>
    cases rest with
    | nil => obtain rfl := Option.some.inj h; exact ⟨trivial, hallows (by rintro ⟨⟩)⟩
    | cons c rest =>
      simp only [Dispatch.step, Dispatch.attemptStep] at h
      split at h <;> first
        | (obtain rfl := Option.some.inj h; exact ⟨trivial, hallows (by rintro ⟨⟩)⟩)
        | cases h
  | countMiss c rest =>
    obtain rfl := Option.some.inj h
    refine ⟨?_, hallows (by rintro ⟨⟩)⟩
    dsimp only [Dispatch.goto]
    split <;> trivial
  | claimToFail c rest =>
    obtain rfl := Option.some.inj h
    refine ⟨?_, hallows (by rintro ⟨⟩)⟩
    dsimp only [Dispatch.goto]
    split <;> trivial
  | failJob c rest pc =>
    obtain rfl := Option.some.inj h
    cases pc with
    | entry =>
      simp only [Dispatch.failStep]
      split <;> exact ⟨trivial, allows_of_kind (by rintro ⟨⟩) (by rintro ⟨⟩) (by rintro ⟨⟩)⟩
    | _ => exact ⟨trivial, hallows (by rintro ⟨⟩)⟩
  | resetMisses c provider rest =>
    obtain rfl := Option.some.inj h
    refine ⟨?_, hallows (by rintro ⟨⟩)⟩
    dsimp only [Dispatch.goto]
    split <;> trivial
  | claim c provider rest =>
    obtain rfl := Option.some.inj h
    refine ⟨?_, hallows (by rintro ⟨⟩)⟩
    dsimp only [Dispatch.goto]
    split <;> trivial
  | finished => cases h
  | _ =>
    obtain rfl := Option.some.inj h
    exact ⟨trivial, hallows (by rintro ⟨⟩)⟩

theorem dispatch_fail_known {d : Dispatch} {m : Moved Dispatch} (hw : w.Queued enqueued)
    (h : d.fail w choice = some m) (hd : d.pc.Known w) :
    m.next.pc.Known w ∧ w.Allows m.access := by
  obtain ⟨inst, pc⟩ := d
  cases pc with
  | len | peek k =>
    obtain rfl := Option.some.inj h
    exact ⟨trivial, allows_read⟩
  | fetch now id score todo scored =>
    obtain rfl := Option.some.inj h
    exact ⟨hd.2, allows_read⟩
  | countMiss c rest | claimToFail c rest | claim c provider rest =>
    obtain rfl := Option.some.inj h
    exact ⟨trivial, allows_of_kind (by rintro ⟨⟩) (by rintro ⟨⟩) (by rintro ⟨⟩)⟩
  | dropMissing now id todo scored => exact hd.elim
  | failJob c rest pc =>
    simp only [Dispatch.fail] at h
    obtain ⟨hstep, -⟩ := mem_filter_isCommand h
    have hallows := (dispatch_known hw hstep hd).2
    obtain rfl := Option.some.inj hstep
    refine ⟨?_, hallows⟩
    cases pc with
    | entry =>
      simp only [Dispatch.failStep]
      split <;> trivial
    | _ => trivial
  | resetMisses c provider rest =>
    simp only [Dispatch.fail] at h
    obtain ⟨hstep, -⟩ := mem_filter_isCommand h
    have hallows := (dispatch_known hw hstep hd).2
    obtain rfl := Option.some.inj hstep
    refine ⟨?_, hallows⟩
    dsimp only [Dispatch.goto]
    split <;> trivial
  | setOwner c provider =>
    simp only [Dispatch.fail] at h
    obtain ⟨hstep, -⟩ := mem_filter_isCommand h
    have hallows := (dispatch_known hw hstep hd).2
    obtain rfl := Option.some.inj hstep
    exact ⟨trivial, hallows⟩
  | finished =>
    simp only [Dispatch.fail] at h
    obtain ⟨hstep, -⟩ := mem_filter_isCommand h
    cases hstep
  | load now todo scored =>
    simp only [Dispatch.fail] at h
    obtain ⟨hstep, hcommand⟩ := mem_filter_isCommand h
    obtain rfl := Option.some.inj hstep
    cases todo with
    | nil => cases hcommand
    | cons entry todo =>
      simp only [Dispatch.loadStep] at hcommand
      split at hcommand <;> cases hcommand
  | sort now scored =>
    simp only [Dispatch.fail, Dispatch.step] at h
    obtain ⟨hstep, hcommand⟩ := mem_filter_isCommand h
    split at hstep
    · obtain rfl := Option.some.inj hstep
      cases hcommand
    · cases hstep
  | attempt rest =>
    simp only [Dispatch.fail, Dispatch.step] at h
    obtain ⟨hstep, hcommand⟩ := mem_filter_isCommand h
    cases rest with
    | nil =>
      obtain rfl := Option.some.inj hstep
      cases hcommand
    | cons c rest =>
      simp only [Dispatch.attemptStep] at hstep
      split at hstep <;> first
        | (obtain rfl := Option.some.inj hstep; cases hcommand)
        | cases hstep
  | _ =>
    simp only [Dispatch.fail] at h
    obtain ⟨hstep, hcommand⟩ := mem_filter_isCommand h
    obtain rfl := Option.some.inj hstep
    cases hcommand

theorem worker_fail_mayAccess {v : Worker} {m : Moved Worker} (h : v.fail w choice = some m) :
    Worker.mayAccess m.access.kind = true := by
  unfold Worker.fail at h
  split at h
  · obtain rfl := Option.some.inj h
    rfl
  · obtain rfl := Option.some.inj h
    rfl
  · obtain rfl := Option.some.inj h
    rfl
  · exact worker_mayAccess (mem_filter_isCommand h).1

theorem keepalive_fail_mayAccess {k : Keepalive} {m : Moved Keepalive}
    (h : k.fail w = some m) : Keepalive.mayAccess m.access.kind = true := by
  unfold Keepalive.fail at h
  split at h
  · obtain rfl := Option.some.inj h
    rfl
  · exact keepalive_mayAccess (mem_filter_isCommand h).1

/-- A run off the queue makes the accesses of a worker. -/
theorem direct_mayAccess {d : Direct} {m : Moved Direct} (h : d.step w choice = some m) :
    Worker.mayAccess m.access.kind = true := by
  unfold Direct.step at h
  split at h
  · split at h <;> first
      | (obtain rfl := Option.some.inj h; rfl)
      | cases h
  · next reason pc _ =>
    obtain rfl := Option.some.inj h
    cases pc with
    | entry =>
      simp only [Direct.failStep]
      split <;> rfl
    | _ => rfl
  · obtain ⟨n, hn, rfl⟩ := Option.map_eq_some_iff.mp h
    exact worker_mayAccess hn
  · cases h

theorem direct_fail_mayAccess {d : Direct} {message : String} {m : Moved Direct}
    (h : d.fail w choice message = some m) : Worker.mayAccess m.access.kind = true := by
  unfold Direct.fail at h
  split at h
  · obtain rfl := Option.some.inj h
    rfl
  · obtain ⟨n, hn, rfl⟩ := Option.map_eq_some_iff.mp h
    exact worker_fail_mayAccess hn
  · exact direct_mayAccess (mem_filter_isCommand h).1

theorem allows_of_worker {a : Access} (h : Worker.mayAccess a.kind = true) : w.Allows a :=
  allows_of_mayAccess h rfl rfl rfl

/-! ## Runs -/

/-- What a step of a task keeps: it allows its access, and what is there afterwards is known. -/
structure FaultyMoved.Good (w w' : World) (m : FaultyMoved) : Prop where
  allows : w.Allows m.access
  next : m.next.Known w'
  spawned : ∀ t ∈ m.spawned, t.Known w'

theorem spawned_known {M : Type} {w' : World} {m : Moved M} {f : M → FaultyTask} :
    ∀ t ∈ (FaultyTask.moved f m).spawned, t.Known w' := by
  intro t ht
  obtain ⟨s, -, rfl⟩ := List.mem_map.mp ht
  exact ofSpawn_known w' s

theorem failReaped_good (w' : World) (inst : InstanceId) (id : Uuid) (todo : List Uuid) :
    (FaultyTask.failReapedStep inst id todo).Good w w' := by
  have hkind : (FaultyTask.failReapedStep inst id todo).access.kind = .endRow := rfl
  refine ⟨allows_of_kind ?_ ?_ ?_, trivial, List.forall_mem_nil _⟩ <;> (rw [hkind]; decide)

theorem step_good {t : FaultyTask} {m : FaultyMoved} (hw : w.Queued enqueued)
    (h : t.step w choice = some m) (ht : t.Known w) : m.Good w (w.apply m.access) := by
  cases t with
  | failReaped inst id todo =>
    obtain rfl := Option.some.inj h
    exact failReaped_good _ inst id todo
  | direct d =>
    obtain ⟨n, hn, rfl⟩ := Option.map_eq_some_iff.mp h
    exact ⟨allows_of_worker (direct_mayAccess hn), trivial, spawned_known⟩
  | task t =>
    obtain ⟨n, hn, rfl⟩ := Option.map_eq_some_iff.mp h
    refine ⟨?_, ?_, spawned_known⟩
    · cases Task.step_moved hn with
      | submit hs => exact (submit_known hs ht).2
      | dispatch hs => exact (dispatch_known hw hs ht).2
      | reap hs => exact (reap_known hs ht).2
      | run hs => exact allows_of_worker (worker_mayAccess hs)
      | keepalive hs => exact allows_of_mayAccess (keepalive_mayAccess hs) rfl rfl rfl
      | cleanup hs => exact allows_of_mayAccess (cleanup_mayAccess hs) rfl rfl rfl
      | cancelMessage hs => exact allows_of_mayAccess (cancelMessage_mayAccess hs) rfl rfl rfl
      | _ => exact ht.elim
    · cases Task.step_moved hn with
      | submit hs => exact (submit_known hs ht).1
      | dispatch hs => exact (dispatch_known hw hs ht).1
      | reap hs => exact (reap_known hs ht).1
      | run hs => trivial
      | keepalive hs => trivial
      | cleanup hs => trivial
      | cancelMessage hs => trivial
      | _ => exact ht.elim

theorem fail_good {t : FaultyTask} {message : String} {m : FaultyMoved} (hw : w.Queued enqueued)
    (h : t.fail w choice message = some m) (ht : t.Known w) : m.Good w w := by
  cases t with
  | failReaped inst id todo =>
    obtain rfl := Option.some.inj h
    exact failReaped_good _ inst id todo
  | direct d =>
    obtain ⟨n, hn, rfl⟩ := Option.map_eq_some_iff.mp h
    exact ⟨allows_of_worker (direct_fail_mayAccess hn), trivial, spawned_known⟩
  | task t =>
    cases t with
    | submit s =>
      obtain ⟨n, hn, rfl⟩ := Option.map_eq_some_iff.mp h
      obtain ⟨hnext, hallows⟩ := submit_fail_known hn ht
      refine ⟨hallows, hnext, fun u hu => ?_⟩
      simp only [FaultyTask.directs] at hu
      split at hu
      · obtain rfl := List.mem_singleton.mp hu
        trivial
      · cases hu
    | dispatch d =>
      obtain ⟨n, hn, rfl⟩ := Option.map_eq_some_iff.mp h
      obtain ⟨hnext, hallows⟩ := dispatch_fail_known hw hn ht
      exact ⟨hallows, hnext, spawned_known⟩
    | run v =>
      obtain ⟨n, hn, rfl⟩ := Option.map_eq_some_iff.mp h
      exact ⟨allows_of_worker (worker_fail_mayAccess hn), trivial, spawned_known⟩
    | keepalive k =>
      obtain ⟨n, hn, rfl⟩ := Option.map_eq_some_iff.mp h
      exact ⟨allows_of_mayAccess (keepalive_fail_mayAccess hn) rfl rfl rfl, trivial,
        spawned_known⟩
    | reap r =>
      simp only [FaultyTask.fail] at h
      split at h
      · next id score model todo hpc =>
        obtain rfl := Option.some.inj h
        have hrow : w.rows id ≠ none := by
          have hknown : r.pc.Known w := ht
          rwa [hpc] at hknown
        have hkind :
            (Access.zsetEnqueue id score model w.now U64_MAX U64_MAX).kind = .enqueue := rfl
        refine ⟨⟨?_, ?_, fun id' hid => ?_⟩, trivial, List.forall_mem_nil _⟩
        · rw [hkind]
          decide
        · rw [hkind]
          decide
        · obtain rfl := Option.some.inj hid
          exact hrow
      · obtain ⟨n, hn, rfl⟩ := Option.map_eq_some_iff.mp h
        obtain ⟨hnext, hallows⟩ := reap_fail_known hn ht
        exact ⟨hallows, hnext, spawned_known⟩
    | _ => cases h

end Steps

/-- The jobs of a configuration are found, and its tasks are known. -/
structure FaultyConfig.Sound (c : FaultyConfig) : Prop where
  queued : c.world.Queued c.enqueued
  tasks : ∀ t ∈ c.tasks, t.Known c.world

namespace FaultyConfig.Sound
variable {c c' : FaultyConfig} {a : FaultyAction}

/-- A change of the shared state that leaves the queue, the leases and the rows as they are. -/
theorem surroundings (h : c.Sound) {w' : World} {tasks : List FaultyTask}
    (hrows : w'.rows = c.world.rows) (hqueue : w'.queue = c.world.queue)
    (hactive : w'.active = c.world.active) (htasks : ∀ t ∈ tasks, t.Known c.world) :
    Sound { world := w', tasks, enqueued := c.enqueued } := by
  refine ⟨⟨fun j hj => ?_, fun j hj => ?_, fun j hj => ?_⟩, fun t ht => ?_⟩
  · rw [hrows]
    exact h.queued.rows j (by rwa [← hqueue])
  · rw [hrows]
    exact h.queued.known j hj
  · show (∃ row, w'.rows j = some row ∧ _) ∨ _
    rw [hrows, hqueue, hactive]
    exact h.queued.kept j hj
  · exact (htasks t ht).mono fun j hj => by rwa [hrows]

theorem crashed_known {inst : InstanceId} {w : World} {t : FaultyTask} (h : t.Known w) :
    (t.crashed inst).Known w := by
  cases t with
  | task t =>
    simp only [FaultyTask.crashed]
    split
    · trivial
    · exact h
  | direct d =>
    simp only [FaultyTask.crashed]
    split <;> trivial
  | failReaped inst' id todo =>
    simp only [FaultyTask.crashed]
    split <;> trivial

theorem run (h : c.Sound) {k : ℕ} {choice : Choice} {outcome : Outcome}
    (hspared : LeasesSpared c (.run k choice outcome))
    (hstep : c.step (.run k choice outcome) = some c') : c'.Sound := by
  obtain ⟨m, hm, hrest⟩ := Option.bind_eq_some_iff.mp hstep
  obtain ⟨t, hk, hmoved⟩ := Option.bind_eq_some_iff.mp hm
  have ht := h.tasks t (List.mem_of_getElem? hk)
  obtain ⟨others, hreplaced, -⟩ := advance_replaced hk m.next m.spawned
  have hknown : ∀ w', (∀ j, c.world.rows j ≠ none → w'.rows j ≠ none) → m.next.Known w' →
      (∀ t ∈ m.spawned, t.Known w') → ∀ t ∈ advance c.tasks k m.next m.spawned, t.Known w' :=
    fun w' hrows hnext hspawned => hreplaced.forall_mem
      (fun u hu => (h.tasks u (hreplaced.other_mem_before hu)).mono hrows) hnext hspawned
  have happly : ∀ j, c.world.rows j ≠ none → (c.world.apply m.access).rows j ≠ none :=
    fun j hj => rows_ne_none _ hj
  cases outcome with
  | done =>
    have hgood := step_good h.queued hmoved ht
    obtain rfl := Option.some.inj hrest
    exact ⟨h.queued.apply hgood.allows (hspared rfl m hm), hknown _ happly hgood.next hgood.spawned⟩
  | failed reached message =>
    have hgood := fail_good h.queued hmoved ht
    cases reached with
    | true =>
      obtain rfl := Option.some.inj hrest
      refine ⟨h.queued.apply hgood.allows (hspared rfl m hm), hknown _ happly ?_ fun t ht => ?_⟩
      · exact hgood.next.mono happly
      · exact (hgood.spawned t ht).mono happly
    | false =>
      obtain rfl := Option.some.inj hrest
      exact ⟨h.queued, hknown _ (fun _ hj => hj) hgood.next hgood.spawned⟩

theorem step (h : c.Sound) (hspared : LeasesSpared c a) (hstep : c.step a = some c') :
    c'.Sound := by
  have hstarted : ∀ t : FaultyTask, t.Known c.world →
      Sound { c with tasks := c.tasks ++ [t] } := by
    intro t ht
    refine ⟨h.queued, fun u hu => ?_⟩
    rcases List.mem_append.mp hu with hold | hnew
    · exact h.tasks u hold
    · rwa [List.mem_singleton.mp hnew]
  cases a with
  | submit inst req =>
    obtain rfl := Option.some.inj hstep
    exact hstarted _ trivial
  | dispatch inst =>
    simp only [FaultyConfig.step] at hstep
    split at hstep
    · cases hstep
    · obtain rfl := Option.some.inj hstep
      exact hstarted _ trivial
  | reap inst =>
    obtain rfl := Option.some.inj hstep
    exact hstarted _ trivial
  | run k choice outcome => exact h.run hspared hstep
  | tick elapsed =>
    obtain rfl := Option.some.inj hstep
    exact h.surroundings rfl rfl rfl h.tasks
  | crash inst =>
    obtain rfl := Option.some.inj hstep
    refine h.surroundings rfl rfl rfl fun t ht => ?_
    obtain ⟨u, hu, rfl⟩ := List.mem_map.mp ht
    exact crashed_known (h.tasks u hu)
  | owner id inst =>
    obtain rfl := Option.some.inj hstep
    exact h.surroundings rfl rfl rfl h.tasks

theorem init (d : Deployment) : (FaultyConfig.init d).Sound where
  queued :=
    { rows := fun _ hj => absurd hj (AList.notMem_empty _)
      known := List.forall_mem_nil _
      kept := List.forall_mem_nil _ }
  tasks := List.forall_mem_nil _

theorem found (h : c.Sound) : c.Found := by
  intro j hj row hrow hnot
  rcases h.queued.kept j hj with ⟨row', hrow', hended⟩ | hkept
  · rw [hrow] at hrow'
    rw [Option.some.inj hrow', hended] at hnot
    cases hnot
  · exact hkept

end FaultyConfig.Sound

/-- While no lease of a job that is neither ended nor in the queue is taken away, every job that was
enqueued and has not ended is found. -/
theorem queued_jobs_found {d : Deployment} {c : FaultyConfig}
    (h : Run FaultyConfig.step LeasesSpared (FaultyConfig.init d) c) : c.Found := by
  have hsound : c.Sound :=
    h.invariant (.init d) fun _ _ _ _ hs hspared hstep => hs.step hspared hstep
  exact hsound.found

/-- A job that was enqueued is lost as soon as its lease is taken away and it has neither ended nor
is in the queue. -/
theorem lost_of_leaseRemove {c c' : FaultyConfig} {k : ℕ} {choice : Choice} {outcome : Outcome}
    {m : FaultyMoved} {j : Uuid} (hm : c.moved k choice outcome = some m)
    (haccess : m.access = .leaseRemove j) (hj : j ∈ c.enqueued) (hreached : outcome.reached = true)
    (hspares : ¬ c.world.Spares m.access) (hrow : c.world.rows j ≠ none)
    (hstep : c.step (.run k choice outcome) = some c') : ¬ c'.Found := by
  obtain ⟨access, next, spawned⟩ := m
  obtain rfl : access = .leaseRemove j := haccess
  obtain ⟨hnot, hqueue⟩ := not_or.mp hspares
  simp only [FaultyConfig.step, hm, hreached, if_true] at hstep
  obtain rfl := Option.some.inj hstep
  obtain ⟨row, hrow⟩ := Option.ne_none_iff_exists'.mp hrow
  intro hfound
  have hstatus : row.status.isTerminal = false := by
    rw [hrow] at hnot
    simpa using hnot
  rcases hfound j (List.mem_append_right _ hj) row hrow hstatus with hmem | hmem
  · exact hqueue hmem
  · exact (AList.mem_erase.mp hmem).1 rfl

/-- A job that is submitted at instance 0 and claimed there. The pending counter and the owner key
are not written. -/
def claimedWithFailures : List FaultyAction :=
  .flatten [[.submit 0 (plainRequest "hi")], .replicate 4 (.run 0 .go .done),
    [.run 0 .go (.failed false "timeout"), .run 0 .go .done, .dispatch 0],
    .replicate 4 (.run 1 .go .done),
    [.run 1 (.scores (fun _ => false) 1) .done, .run 1 (.provider 1 false) .done],
    .replicate 3 (.run 1 .go .done), [.run 1 .go (.failed false "timeout")]]

/-- The instance that has claimed a job crashes. The job has a lease. -/
theorem claimed_job_found : ∃ c : FaultyConfig, c.Found ∧ c.enqueued = [0] ∧
    0 ∈ c.world.active ∧ 0 ∉ c.world.queue.zset := by
  have hexec : (exec FaultyConfig.step (fun c a => decide (LeasesSpared c a))
      (FaultyConfig.init twoInstances) (claimedWithFailures ++ [.crash 0])).any
      (fun c => decide (c.enqueued = [0] ∧ 0 ∈ c.world.active ∧ 0 ∉ c.world.queue.zset)) =
        true := by
    decide +kernel
  obtain ⟨c, hrun, hc⟩ := Run.exists_of_exec (fun _ _ h => of_decide_eq_true h) hexec
  exact ⟨c, queued_jobs_found hrun, of_decide_eq_true hc⟩

/-- Then a reaper takes the lease away and crashes before it enqueues the job again. -/
theorem reaped_job_lost : ∃ c : FaultyConfig,
    Run FaultyConfig.step (fun _ _ => True) (FaultyConfig.init twoInstances) c ∧ ¬ c.Found := by
  have hexec : (exec FaultyConfig.step (fun _ _ => true) (FaultyConfig.init twoInstances)
      (.flatten [claimedWithFailures, [.crash 0, .tick 90000, .reap 1],
        List.replicate 3 (.run 3 .go .done), [.crash 1]])).any
      (fun c => decide (0 ∈ c.enqueued ∧ 0 ∉ c.world.queue.zset ∧ 0 ∉ c.world.active ∧
        (c.world.rows 0).map (fun row => row.status) = some .pending)) = true := by
    decide +kernel
  obtain ⟨c, hrun, hc⟩ :=
    @Run.exists_of_exec _ _ _ _ (fun _ _ => True) (fun _ _ _ => trivial) _ _ _ hexec
  obtain ⟨henqueued, hqueue, hactive, hstatus⟩ := of_decide_eq_true hc
  obtain ⟨row, hrow, hpending⟩ := Option.map_eq_some_iff.mp hstatus
  refine ⟨c, hrun, fun hfound => ?_⟩
  rcases hfound 0 henqueued row hrow (by rw [hpending]; rfl) with hmem | hmem
  · exact hqueue hmem
  · exact hactive hmem

end Veronex
