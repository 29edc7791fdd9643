import Veronex.Inference.Readers

/-! # Rows that failed

When the row of a job is failed or cancelled, the entries of the job are to be gone, or terminal,
done and with no reader left to wait, on every instance.

`fail_job_no_provider`, a stream error of `run_job`, a full queue and a `cancel` that finds an entry
end it before they write the row (`Task.ending`). `queue_wait_cancel_pass`, the reaper that gives a
job up and a `cancel` without a local entry see the row only, and a lifecycle failure writes it
first. `Config.FailsCleanly` says what each step must find; `failed_rows_settled` is the property of
all runs of such steps.
-/
namespace Veronex
open Concurrency
set_option autoImplicit false

/-! ## The writers -/

/-- The row of the job is failed or cancelled. -/
def World.RowFailed (w : World) (j : Uuid) : Prop :=
  ∃ row, w.rows j = some row ∧ (row.status = .failed ∨ row.status = .cancelled)

/-- Somebody who ended the entry of a job on an instance and is about to fail or cancel its row.
`toNotify` is the cell of the readers before they are notified. -/
structure Ending where
  inst : InstanceId
  uuid : Uuid
  toNotify : Option Cell

def Task.ending : Task → Option Ending
  | .submit s => match s.pc with
    | .rejectNotifier job | .rejectRow job => some ⟨s.inst, job.id, none⟩
    | _ => none
  | .cancel x => match x.prev, x.pc with
    | some _, .notifyReader n _ => some ⟨x.inst, x.uuid, some n⟩
    | some _, .notifyWorker _ | some _, .decrPending | some _, .cancelRow =>
      some ⟨x.inst, x.uuid, none⟩
    | _, _ => none
  | .dispatch d => match d.pc with
    | .failJob c _ (.notify n) => some ⟨d.inst, c.uuid, some n⟩
    | .failJob c _ .row => some ⟨d.inst, c.uuid, none⟩
    | _ => none
  | .run v => match v.pc with
    | .notify n (.error _) => some ⟨v.inst, v.uuid, some n⟩
    | .errorRow _ => some ⟨v.inst, v.uuid, none⟩
    | _ => none
  | _ => none

/-- The job whose row the next step of a task fails or cancels. -/
def Task.failsRow : Task → Option Uuid
  | .submit s => match s.pc with
    | .rejectRow job => some job.id
    | _ => none
  | .cancel x => match x.pc with
    | .cancelRow => some x.uuid
    | _ => none
  | .dispatch d => match d.pc with
    | .failJob c _ .row => some c.uuid
    | _ => none
  | .run v => match v.pc with
    | .lifecycleRow _ | .errorRow _ => some v.uuid
    | _ => none
  | .waitCancel q => match q.pc with
    | .failRow id _ => some id
    | _ => none
  | .reap r => match r.pc with
    | .giveUpRow id _ => some id
    | _ => none
  | _ => none

/-- What the next step of a task must find. -/
structure Task.FailsCleanly (c : Config) (t : Task) : Prop where
  /-- Who fails a row finds no open entry of the job, but for the one it ended itself. -/
  row : ∀ j, t.failsRow = some j → ¬ c.world.RowEnded j →
    ∀ i, t.ending ≠ some ⟨i, j, none⟩ → c.Settled i j
  /-- Who notifies the readers of the entry it ended finds one of them at most. -/
  notify : ∀ i j n, t.ending = some ⟨i, j, some n⟩ → (c.world.jobs i j).isSome → c.readersAt n ≤ 1
  /-- Who opens an entry finds its job neither failed nor about to be. -/
  opens : ∀ i j, t.opens c.world = some (i, j) →
    ¬ c.world.RowFailed j ∧ ∀ u ∈ c.tasks, ∀ n, u.ending ≠ some ⟨i, j, n⟩

def Config.FailsCleanly (c : Config) : Action → Prop
  | .run k _ => ∀ t, c.tasks[k]? = some t → t.FailsCleanly c
  | _ => True

/-! ## Endings -/

section Endings
variable {w : World} {choice : Choice} {x : Ending}

/-- How a task comes to be about to fail a row. -/
inductive EndingMoved (w : World) (t : Task) (m : Moved Task) (x : Ending) : Prop
  | before (h : t.ending = some x)
  | notified {n : Cell} (h : t.ending = some ⟨x.inst, x.uuid, some n⟩) (hx : x.toNotify = none)
      (ha : m.access = .notifyOne n)
  | ended {e : JobEntry} {u : EntryUpdate} (hx : x.toNotify = some e.notify)
      (he : w.jobs x.inst x.uuid = some e) (ha : m.access = .updateEntry x.inst x.uuid u)
      (hu : (u.apply e).status.isTerminal = true ∧ (u.apply e).done = true)
  | absent (hx : x.toNotify = none) (h : (w.apply m.access).jobs x.inst x.uuid = none)

theorem submit_ending {s : Submit} {m : Moved Submit} (h : s.step w = some m)
    (hx : (Task.submit m.next).ending = some x) :
    EndingMoved w (.submit s) (m.map .submit) x := by
  obtain ⟨inst, req, pc⟩ := s
  cases pc
  case rejectEntry job =>
    obtain rfl := Option.some.inj h
    obtain rfl := Option.some.inj hx
    exact .absent rfl (update₂_self ..)
  case rejectNotifier job =>
    obtain rfl := Option.some.inj h
    exact .before hx
  case enqueue job =>
    obtain rfl := Option.some.inj h
    simp only [Submit.goto, Task.ending] at hx
    split at hx
    · next heq => split at heq <;> cases heq
    · next heq => split at heq <;> cases heq
    · cases hx
  all_goals simp only [Submit.step] at h
  all_goals repeat' (split at h)
  all_goals first
    | (obtain rfl := Option.some.inj h; cases hx)
    | cases h

theorem cancel_ending {y : Cancel} {m : Moved Cancel} (h : y.step w = some m)
    (hx : (Task.cancel m.next).ending = some x) :
    EndingMoved w (.cancel y) (m.map .cancel) x := by
  obtain ⟨inst, uuid, isLocal, prev, pc⟩ := y
  cases pc with
  | mark =>
    simp only [Cancel.step] at h
    split at h
    · next hnone =>
      obtain rfl := Option.some.inj h
      cases prev with
      | none => cases hx
      | some status =>
        obtain rfl := Option.some.inj hx
        exact .absent rfl hnone
    · next e he =>
      split at h
      · obtain rfl := Option.some.inj h
        cases prev <;> cases isLocal <;> cases hx
      · obtain rfl := Option.some.inj h
        obtain rfl := Option.some.inj hx
        exact .ended rfl he rfl ⟨rfl, rfl⟩
  | notifyReader n cn =>
    obtain rfl := Option.some.inj h
    cases prev with
    | none => cases hx
    | some status =>
      obtain rfl := Option.some.inj hx
      exact .notified rfl rfl rfl
  | notifyWorker cn =>
    obtain rfl := Option.some.inj h
    cases prev with
    | none => cases hx
    | some status => cases status <;> exact .before hx
  | decrPending =>
    obtain rfl := Option.some.inj h
    cases prev with
    | none => cases hx
    | some status => exact .before hx
  | dequeue model =>
    obtain rfl := Option.some.inj h
    cases prev <;> cases isLocal <;> cases hx
  | returned => cases h
  | _ =>
    obtain rfl := Option.some.inj h
    cases prev <;> cases hx

theorem dispatch_ending {d : Dispatch} {m : Moved Dispatch} (h : d.step w choice = some m)
    (hx : (Task.dispatch m.next).ending = some x) :
    EndingMoved w (.dispatch d) (m.map .dispatch) x := by
  obtain ⟨inst, pc⟩ := d
  cases pc
  case failJob c rest pc =>
    cases pc with
    | entry =>
      simp only [Dispatch.step, Dispatch.failStep] at h
      split at h
      · next hnone =>
        obtain rfl := Option.some.inj h
        obtain rfl := Option.some.inj hx
        exact .absent rfl hnone
      · next e he =>
        obtain rfl := Option.some.inj h
        obtain rfl := Option.some.inj hx
        exact .ended rfl he rfl ⟨rfl, rfl⟩
    | notify n =>
      obtain rfl := Option.some.inj h
      obtain rfl := Option.some.inj hx
      exact .notified rfl rfl rfl
    | _ =>
      obtain rfl := Option.some.inj h
      cases hx
  case load now todo scored =>
    obtain rfl := Option.some.inj h
    cases todo with
    | nil => cases scored <;> cases hx
    | cons entry todo =>
      simp only [Dispatch.loadStep] at hx
      split at hx <;> cases hx
  case attempt rest =>
    cases rest with
    | nil => obtain rfl := Option.some.inj h; cases hx
    | cons c rest =>
      simp only [Dispatch.step, Dispatch.attemptStep] at h
      split at h <;> first
        | (obtain rfl := Option.some.inj h; cases hx)
        | cases h
  case resetMisses c provider rest =>
    obtain rfl := Option.some.inj h
    cases provider <;> cases hx
  all_goals simp only [Dispatch.step] at h
  all_goals repeat' (split at h)
  all_goals first
    | (obtain rfl := Option.some.inj h; cases hx)
    | cases h

theorem persistStep_ending (v : Worker) (site : PersistSite) (pc : PersistPc) :
    (Task.run (v.persistStep w site pc).next).ending = none := by
  cases pc with
  | compareExchange flag =>
    simp only [Worker.persistStep]
    split
    · cases site <;> rfl
    · dsimp only
      split
      · cases site <;> rfl
      · rfl
  | get => rfl
  | put turns => cases site <;> rfl

theorem finalStep_ending (v : Worker) (completedAt : Millis) (pc : FinalPc) :
    (Task.run (v.finalStep w completedAt pc).next).ending = none := by
  cases pc
  all_goals simp only [Worker.finalStep]
  all_goals repeat' split
  all_goals rfl

theorem worker_ending {v : Worker} {m : Moved Worker} (h : v.step w choice = some m)
    (hx : (Task.run m.next).ending = some x) : EndingMoved w (.run v) (m.map .run) x := by
  obtain ⟨args, job, stop, apiKeyId, tpmMinute, startedAt, cancelNotify, ts, log, pc⟩ := v
  cases pc
  case errorEntry message =>
    simp only [Worker.step] at h
    split at h
    · next hnone =>
      obtain rfl := Option.some.inj h
      obtain rfl := Option.some.inj hx
      exact .absent rfl hnone
    · next e he =>
      obtain rfl := Option.some.inj h
      obtain rfl := Option.some.inj hx
      exact .ended rfl he rfl ⟨rfl, rfl⟩
  case notify cell site =>
    obtain rfl := Option.some.inj h
    cases site with
    | error message =>
      obtain rfl := Option.some.inj hx
      exact .notified rfl rfl rfl
    | _ => cases hx
  case persist site pc =>
    obtain rfl := Option.some.inj h
    rw [persistStep_ending] at hx
    cases hx
  case final completedAt pc =>
    obtain rfl := Option.some.inj h
    rw [finalStep_ending] at hx
    cases hx
  case block exit pc =>
    obtain rfl := Option.some.inj h
    cases pc <;> cases hx
  all_goals simp only [Worker.step, Worker.receiveStep] at h
  all_goals repeat' (split at h)
  all_goals first
    | (obtain rfl := Option.some.inj h; cases hx)
    | cases h

theorem task_ending {t : Task} {m : Moved Task} (h : t.step w choice = some m)
    (hx : m.next.ending = some x) : EndingMoved w t m x := by
  cases Task.step_moved h with
  | submit hs => exact submit_ending hs hx
  | cancel hs => exact cancel_ending hs hx
  | dispatch hs => exact dispatch_ending hs hx
  | run hs => exact worker_ending hs hx
  | _ => cases hx

theorem spawn_ending (s : Spawn) : s.task.ending = none := by
  cases s <;> rfl

theorem started_ending (c : Config) (s : Start) : (c.started s).ending = none := by
  cases s <;> rfl

end Endings

/-! ## Rows -/

/-- The row an access fails or cancels. -/
def Access.failsRow : Access → Option Uuid
  | .cancelRow id _ | .failRow id _ _ => some id
  | .saveRow row => if row.status = .pending then none else some row.id
  | .updateStatus id status => if status = .pending then none else some id
  | _ => none

/-- A submission saves its job as it made it. -/
def Task.SavesPending : Task → Prop
  | .submit s => match s.pc with
    | .save job => job.status = .pending
    | _ => True
  | _ => True

section Rows
variable {w : World} {a : Access} {choice : Choice} {j : Uuid}

theorem World.RowFailed.ended (h : w.RowFailed j) : w.RowEnded j := by
  obtain ⟨row, hrow, hstatus⟩ := h
  refine ⟨row, hrow, ?_⟩
  rcases hstatus with hstatus | hstatus <;> rw [hstatus] <;> rfl

/-- A row that failed had failed before, or was open before one of the updates that fail a row. -/
theorem rowFailed_apply (h : (w.apply a).RowFailed j) :
    w.RowFailed j ∨ a.failsRow = some j ∧ (a.kind = .endRow → ¬ w.RowEnded j) := by
  by_cases hfailed : w.RowFailed j
  · exact .inl hfailed
  right
  obtain ⟨row, hrow, hstatus⟩ := h
  by_cases hj : a.rowId = some j
  swap
  · rw [apply_rows_of_ne hj] at hrow
    exact absurd ⟨row, hrow, hstatus⟩ hfailed
  have hwas : ∀ f : JobRow → JobRow, (w.updateRow j f).rows j = some row →
      ∃ row₀, w.rows j = some row₀ ∧ f row₀ = row := by
    intro f hupdate
    rw [updateRow_self] at hupdate
    exact Option.map_eq_some_iff.mp hupdate
  -- an update that keeps the status of an ended row fails open rows only
  have hopen : ∀ f : JobRow → JobRow, (w.updateRow j f).rows j = some row →
      (∀ row₀ : JobRow, row₀.status.isTerminal = true → (f row₀).status = row₀.status) →
      ¬ w.RowEnded j := by
    intro f hupdate hsame hended
    obtain ⟨row₀, hrow₀, rfl⟩ := hwas f hupdate
    obtain ⟨row₁, hrow₁, hterminal⟩ := hended
    obtain rfl : row₀ = row₁ := Option.some.inj (hrow₀.symm.trans hrow₁)
    rw [hsame row₀ hterminal] at hstatus
    exact hfailed ⟨row₀, hrow₀, hstatus⟩
  cases a with
  | saveRow row' =>
    obtain rfl : row'.id = j := Option.some.inj hj
    have hor : (w.rows row'.id).or (some row') = some row := by simpa [World.apply] using hrow
    cases hbefore : w.rows row'.id with
    | some row₀ =>
      rw [hbefore] at hor
      obtain rfl := Option.some.inj hor
      exact absurd ⟨row₀, hbefore, hstatus⟩ hfailed
    | none =>
      rw [hbefore] at hor
      obtain rfl := Option.some.inj hor
      have hpending : row'.status ≠ .pending := by
        rcases hstatus with hstatus | hstatus <;> rw [hstatus] <;> decide
      exact ⟨if_neg hpending, by rintro ⟨⟩⟩
  | cancelRow id at' =>
    obtain rfl : id = j := Option.some.inj hj
    refine ⟨rfl, fun _ => hopen _ hrow fun row₀ hterminal => ?_⟩
    have hcancelled : ∀ s : JobStatus, s.isTerminal = true → ¬ (s = .completed ∨ s = .failed) →
        .cancelled = s := by
      intro s
      cases s <;> simp [JobStatus.isTerminal]
    unfold JobRow.cancel
    split
    · rfl
    · next hnot => exact hcancelled _ hterminal hnot
  | failRow id reason error =>
    obtain rfl : id = j := Option.some.inj hj
    refine ⟨rfl, fun _ => hopen _ hrow fun row₀ hterminal => ?_⟩
    rw [JobRow.failWithReason, if_pos hterminal]
  | finalizeRow id metrics =>
    obtain rfl : id = j := Option.some.inj hj
    obtain ⟨row₀, hrow₀, rfl⟩ := hwas _ hrow
    refine absurd ⟨row₀, hrow₀, ?_⟩ hfailed
    unfold JobRow.finalize at hstatus
    split at hstatus
    · exact hstatus
    · simp at hstatus
  | updateStatus id status =>
    obtain rfl : id = j := Option.some.inj hj
    obtain ⟨row₀, -, rfl⟩ := hwas _ hrow
    have hpending : status ≠ .pending := by
      rcases hstatus with hstatus | hstatus
      · obtain rfl : status = .failed := hstatus
        decide
      · obtain rfl : status = .cancelled := hstatus
        decide
    exact ⟨if_neg hpending, by rintro ⟨⟩⟩
  | _ => cases hj

theorem submit_failsRow {s : Submit} {m : Moved Submit} (hsaved : (Task.submit s).SavesPending)
    (h : s.step w = some m) (hj : m.access.failsRow = some j) :
    (Task.submit s).failsRow = some j ∧ m.access.kind = .endRow := by
  obtain ⟨inst, req, pc⟩ := s
  cases pc with
  | create =>
    simp only [Submit.step] at h
    split at h <;> (obtain rfl := Option.some.inj h; cases hj)
  | save job =>
    obtain rfl := Option.some.inj h
    have hpending : (JobRow.ofJob w.messageHashes (jobForDb job)).status = .pending := hsaved
    rw [Access.failsRow, if_pos hpending] at hj
    cases hj
  | rejectRow job =>
    obtain rfl := Option.some.inj h
    exact ⟨hj, rfl⟩
  | returned result => cases h
  | _ => obtain rfl := Option.some.inj h; cases hj

theorem cancel_failsRow {x : Cancel} {m : Moved Cancel} (h : x.step w = some m)
    (hj : m.access.failsRow = some j) :
    (Task.cancel x).failsRow = some j ∧ m.access.kind = .endRow := by
  obtain ⟨inst, uuid, isLocal, prev, pc⟩ := x
  cases pc with
  | cancelRow =>
    obtain rfl := Option.some.inj h
    exact ⟨hj, rfl⟩
  | mark =>
    simp only [Cancel.step] at h
    repeat' (split at h)
    all_goals (obtain rfl := Option.some.inj h; cases hj)
  | returned => cases h
  | _ => obtain rfl := Option.some.inj h; cases hj

theorem dispatch_failsRow {d : Dispatch} {m : Moved Dispatch} (h : d.step w choice = some m)
    (hj : m.access.failsRow = some j) :
    (Task.dispatch d).failsRow = some j ∧ m.access.kind = .endRow := by
  obtain ⟨inst, pc⟩ := d
  cases pc
  case failJob c rest pc =>
    obtain rfl := Option.some.inj h
    cases pc with
    | row => exact ⟨hj, rfl⟩
    | entry =>
      simp only [Dispatch.failStep] at hj
      split at hj <;> cases hj
    | _ => cases hj
  case load now todo scored =>
    obtain rfl := Option.some.inj h
    cases todo with
    | nil => cases hj
    | cons entry todo =>
      simp only [Dispatch.loadStep] at hj
      split at hj <;> cases hj
  all_goals simp only [Dispatch.step, Dispatch.attemptStep] at h
  all_goals repeat' (split at h)
  all_goals first
    | (obtain rfl := Option.some.inj h; cases hj)
    | cases h

theorem failsRow_of_kind (hsave : a.kind ≠ .saveRow) (hend : a.kind ≠ .endRow)
    (hreset : a.kind ≠ .resetRow) : a.failsRow = none := by
  cases a <;> first
    | rfl
    | exact absurd rfl hsave
    | exact absurd rfl hend
    | exact absurd rfl hreset

theorem worker_failsRow {v : Worker} {m : Moved Worker} (h : v.step w choice = some m)
    (hj : m.access.failsRow = some j) :
    (Task.run v).failsRow = some j ∧ m.access.kind = .endRow := by
  have htouches := worker_touches h
  generalize m.access = a at htouches hj ⊢
  cases htouches with
  | fails hpc =>
    refine ⟨?_, rfl⟩
    rcases hpc with hpc | hpc <;> (rw [Task.failsRow, hpc]; exact hj)
  | other hkind =>
    rw [failsRow_of_kind (by rw [hkind]; rintro ⟨⟩) (by rw [hkind]; rintro ⟨⟩)
      (by rw [hkind]; rintro ⟨⟩)] at hj
    cases hj
  | _ => cases hj

/-- Who fails a row makes no entry. -/
theorem opens_of_failsRow {t : Task} (h : t.failsRow = some j) : t.opens w = none := by
  cases t with
  | submit s =>
    obtain ⟨inst, req, pc⟩ := s
    cases pc <;> first
      | rfl
      | cases h
  | dispatch d =>
    obtain ⟨inst, pc⟩ := d
    cases pc <;> first
      | rfl
      | cases h
  | run v =>
    obtain ⟨args, job, stop, apiKeyId, tpmMinute, startedAt, cancelNotify, ts, log, pc⟩ := v
    cases pc <;> first
      | rfl
      | cases h
  | recover r => cases h
  | _ => rfl

/-- Only the steps that say so fail a row. -/
theorem task_failsRow {t : Task} {m : Moved Task} (hsaved : t.SavesPending)
    (h : t.step w choice = some m) (hj : m.access.failsRow = some j) :
    t.failsRow = some j ∧ m.access.kind = .endRow := by
  have hmay := task_mayAccess h
  cases Task.step_moved h with
  | submit hs => exact submit_failsRow hsaved hs hj
  | cancel hs => exact cancel_failsRow hs hj
  | dispatch hs => exact dispatch_failsRow hs hj
  | run hs => exact worker_failsRow hs hj
  | @waitCancel q n hs =>
    obtain ⟨inst, pc⟩ := q
    cases pc with
    | failRow id todo =>
      obtain rfl := Option.some.inj hs
      exact ⟨hj, rfl⟩
    | cancel todo =>
      obtain rfl := Option.some.inj hs
      cases todo <;> cases hj
    | collect =>
      simp only [WaitCancel.step] at hs
      split at hs <;> first
        | (obtain rfl := Option.some.inj hs; cases hj)
        | cases hs
    | finished => cases hs
    | _ => obtain rfl := Option.some.inj hs; cases hj
  | @reap r n hs =>
    obtain ⟨inst, pc⟩ := r
    cases pc with
    | giveUpRow id todo =>
      obtain rfl := Option.some.inj hs
      exact ⟨hj, rfl⟩
    | getJob id todo =>
      simp only [Reap.step] at hs
      split at hs <;> (obtain rfl := Option.some.inj hs; cases hj)
    | finished => cases hs
    | _ => obtain rfl := Option.some.inj hs; cases hj
  | @recover r n hs =>
    obtain ⟨inst, pc⟩ := r
    cases pc
    all_goals simp only [Recover.step] at hs
    all_goals repeat' (split at hs)
    all_goals first
      | (obtain rfl := Option.some.inj hs; cases hj)
      | cases hs
  | _ =>
    rw [failsRow_of_kind (ne_of_mayAccess hmay rfl) (ne_of_mayAccess hmay rfl)
      (ne_of_mayAccess hmay rfl)] at hj
    cases hj

/-- The job of a request is pending. -/
theorem savesPending {ok : Config → Action → Prop} {d : Deployment} {c : Config}
    (h : Run Config.step ok (Config.init d) c) : ∀ t ∈ c.tasks, t.SavesPending := by
  refine (local_invariant (W := fun _ => True) (T := fun _ t => t.SavesPending) trivial
    (fun c s => ?_) (fun _ => trivial) (fun _ _ _ _ => ⟨trivial, fun _ ht => ht⟩) ?_ h).2
  · cases s <;> trivial
  · intro c k choice t m _ ht _ _ hm
    refine ⟨trivial, ?_, fun s _ => ?_, fun u hu => hu⟩
    · cases Task.step_moved hm with
      | @submit s n hs =>
        obtain ⟨inst, req, pc⟩ := s
        cases pc with
        | create =>
          simp only [Submit.step] at hs
          split at hs
          · obtain rfl := Option.some.inj hs
            trivial
          · next job hjob =>
            obtain rfl := Option.some.inj hs
            obtain ⟨prompt, modelName, -, -, rfl⟩ := buildJob_ok hjob
            rfl
        | enqueue job =>
          obtain rfl := Option.some.inj hs
          simp only [Moved.map, Submit.goto, Task.SavesPending]
          split
          · next heq => split at heq <;> cases heq
          · trivial
        | returned result => cases hs
        | _ => obtain rfl := Option.some.inj hs; trivial
      | _ => trivial
    · cases s <;> trivial

end Rows

/-! ## Runs -/

structure Config.Clean (c : Config) : Prop where
  rows : ∀ j, c.world.RowFailed j → ∀ i, c.Settled i j
  settled : ∀ t ∈ c.tasks, ∀ i j, t.ending = some ⟨i, j, none⟩ → c.Settled i j
  ended : ∀ t ∈ c.tasks, ∀ i j n, t.ending = some ⟨i, j, some n⟩ → c.world.Ended i j n

section Runs
variable {c c' : Config} {choice : Choice} {t : Task} {m : Moved Task} {others tasks : List Task}

/-- The step of a task that ends an entry, notifies its readers or fails a row. -/
theorem Config.Clean.run (hc : c.Clean) (hw : c.world.Named) (hnamed : ∀ u ∈ c.tasks, u.Named c.world)
    (hsaved : t.SavesPending) (hok : t.FailsCleanly c) (hm : t.step c.world choice = some m)
    (hreplaced : Replaced c.tasks t m.next (m.spawned.map Spawn.task) others tasks) :
    Config.Clean { world := c.world.apply m.access, tasks } := by
  have ht := hreplaced.task_mem
  -- nobody opens what has ended
  have hclosed : ∀ u ∈ c.tasks, ∀ i j n, u.ending = some ⟨i, j, n⟩ →
      t.opens c.world ≠ some (i, j) :=
    fun u hu i j n hx hopens => (hok.opens i j hopens).2 u hu n hx
  have hkept : ∀ i j, c.Settled i j → t.opens c.world ≠ some (i, j) →
      Config.Settled { world := c.world.apply m.access, tasks } i j :=
    fun i j hs hopens => hs.run hw hnamed hm hopens hreplaced
  have hspawned : ∀ u ∈ m.spawned.map Spawn.task, u.ending = none := by
    intro u hu
    obtain ⟨s, -, rfl⟩ := List.mem_map.mp hu
    exact spawn_ending s
  refine ⟨fun j hfailed i => ?_, fun u hu i j hx => ?_, fun u hu i j n hx => ?_⟩
  · by_cases hbefore : c.world.RowFailed j
    · refine hkept i j (hc.rows j hbefore i) fun hopens => ?_
      exact (hok.opens i j hopens).1 hbefore
    · have hwrite := (rowFailed_apply hfailed).resolve_left hbefore
      obtain ⟨hfails, hkind⟩ := task_failsRow hsaved hm hwrite.1
      have hopen := hwrite.2 hkind
      by_cases hx : t.ending = some ⟨i, j, none⟩
      · exact hkept i j (hc.settled t ht i j hx) (hclosed t ht i j none hx)
      · refine hkept i j (hok.row j hfails hopen i hx) fun hopens => ?_
        rw [opens_of_failsRow hfails] at hopens
        cases hopens
  · rcases hreplaced.mem_after.mp hu with rfl | hother | hnew
    · cases task_ending hm hx with
      | before hx => exact hkept i j (hc.settled t ht i j hx) (hclosed t ht i j none hx)
      | notified hx' _ ha =>
        exact (hc.ended t ht i j _ hx').notified hw (hok.notify i j _ hx') hm ha hreplaced
      | ended hx' _ _ _ => cases hx'
      | absent _ hnone =>
        intro e he
        cases hnone.symm.trans he
    · have hu' := hreplaced.other_mem_before hother
      exact hkept i j (hc.settled u hu' i j hx) (hclosed u hu' i j none hx)
    · rw [hspawned u hnew] at hx
      cases hx
  · rcases hreplaced.mem_after.mp hu with rfl | hother | hnew
    · cases task_ending hm hx with
      | before hx => exact (hc.ended t ht i j n hx).step hm (hclosed t ht i j _ hx)
      | notified _ hx' _ => cases hx'
      | @ended e u hx' he ha hu =>
        obtain rfl := Option.some.inj hx'
        intro e' he'
        have hupdated : e' = u.apply e := by
          have hjobs : (c.world.apply m.access).jobs i j = some (u.apply e) := by
            rw [ha]
            show update₂ c.world.jobs i j ((c.world.jobs i j).map u.apply) i j = _
            rw [update₂_self, show c.world.jobs i j = some e from he]
            rfl
          exact Option.some.inj (he'.symm.trans hjobs)
        rw [hupdated]
        exact ⟨hu.1, hu.2, (u.sameOrigin e).notify⟩
      | absent hx' _ => cases hx'
    · have hu' := hreplaced.other_mem_before hother
      exact (hc.ended u hu' i j n hx).step hm (hclosed u hu' i j _ hx)
    · rw [hspawned u hnew] at hx
      cases hx

theorem Config.Clean.env {a : Action} (hc : c.Clean) (h : ConfigMoved c a c')
    (ha : ∀ k choice, a ≠ .run k choice) : c'.Clean := by
  have hrows : c'.world.rows = c.world.rows := by
    cases h with
    | run => exact absurd rfl (ha _ _)
    | _ => rfl
  have htasks : ∀ u ∈ c'.tasks, ∀ x, u.ending = some x → u ∈ c.tasks := by
    intro u hu x hx
    cases h with
    | @start s hcan =>
      rcases List.mem_append.mp hu with hu | hu
      · exact hu
      · obtain rfl := List.mem_singleton.mp hu
        rw [started_ending] at hx
        cases hx
    | run => exact absurd rfl (ha _ _)
    | restart inst =>
      obtain ⟨v, hv, rfl⟩ := List.mem_map.mp hu
      split at hx
      · cases hx
      · rwa [if_neg (by assumption)]
    | _ => exact hu
  refine ⟨fun j hfailed i => ?_, fun u hu i j hx => ?_, fun u hu i j n hx => ?_⟩
  · have hbefore : c.world.RowFailed j := by
      obtain ⟨row, hrow, hstatus⟩ := hfailed
      exact ⟨row, by rw [← hrows]; exact hrow, hstatus⟩
    exact (hc.rows j hbefore i).env h ha
  · exact (hc.settled u (htasks u hu _ hx) i j hx).env h ha
  · exact (hc.ended u (htasks u hu _ hx) i j n hx).env h ha

theorem clean_reachable {d : Deployment}
    (h : Run Config.step Config.FailsCleanly (Config.init d) c) : c.Clean := by
  refine h.invariant ⟨fun j hfailed => ?_, fun t ht => ?_, fun t ht => ?_⟩ ?_
  · obtain ⟨row, hrow, -⟩ := hfailed
    cases hrow
  · cases ht
  · cases ht
  · intro c c' a hr hc hok hs
    obtain ⟨hw, hnamed⟩ := world_named hr
    cases Config.step_moved hs with
    | run hk hm hreplaced _ =>
      exact hc.run hw hnamed (savesPending hr _ hreplaced.task_mem) (hok _ hk) hm hreplaced
    | start hcan => exact hc.env (.start hcan) fun _ _ h => by cases h
    | tick elapsed => exact hc.env (.tick elapsed) fun _ _ h => by cases h
    | restart inst => exact hc.env (.restart inst) fun _ _ h => by cases h
    | owner id inst => exact hc.env (.owner id inst) fun _ _ h => by cases h
    | heartbeat inst alive => exact hc.env (.heartbeat inst alive) fun _ _ h => by cases h

/-- `get_status` does not call a job pending that failed. -/
theorem getStatus_ne_pending {w w' : World} {i : InstanceId} {j : Uuid}
    (hsettled : ∀ e, w.jobs i j = some e → e.status.isTerminal = true) (hfailed : w'.RowFailed j) :
    getStatus w w' i j ≠ .ok .pending := by
  obtain ⟨row, hrow, hstatus⟩ := hfailed
  unfold getStatus
  cases he : w.jobs i j with
  | some e =>
    have hterminal := hsettled e he
    intro hpending
    rw [Except.ok.inj hpending] at hterminal
    cases hterminal
  | none =>
    cases hparse : rowToJob row with
    | error e => simp [World.getJob, hrow, hparse, Except.map]
    | ok job =>
      intro hpending
      have hsame : job.status = .pending := by
        simpa [World.getJob, hrow, hparse, Except.map] using hpending
      rw [rowToJob_status hparse] at hsame
      rw [hsame] at hstatus
      rcases hstatus with hstatus | hstatus <;> cases hstatus

/-- In every run whose steps fail jobs cleanly, a row is failed or cancelled only once every entry
of its job is gone or settled, and `get_status` does not call the job pending. -/
theorem failed_rows_settled {d : Deployment}
    (h : Run Config.step Config.FailsCleanly (Config.init d) c) (j : Uuid)
    (hfailed : c.world.RowFailed j) (i : InstanceId) :
    c.Settled i j ∧ ∀ w, w.RowFailed j → getStatus c.world w i j ≠ .ok .pending := by
  have hsettled := (clean_reachable h).rows j hfailed i
  exact ⟨hsettled, fun w hw => getStatus_ne_pending (fun e he => (hsettled e he).1) hw⟩

end Runs

/-- A submission, a reader that parks, and a cancel up to its write of the row. -/
def cancelParkedReader : List Action :=
  Action.start (.submit 0 (plainRequest "hi")) :: List.replicate 6 (Action.run 0 .go) ++
    Action.start (.stream 0 0) :: List.replicate 3 (Action.run 1 .go) ++
    Action.start (.cancel 0 0) :: List.replicate 5 (Action.run 2 .go)

/-- A step that adopts nothing, fails no row, notifies one reader at most, and opens no entry while
a job is failed. -/
def quietStep (c : Config) : Action → Bool
  | .run k _ => (c.tasks[k]?).all fun t =>
    (match t with
      | .dispatch _ | .recover _ => false
      | _ => t.failsRow.isNone) &&
      (t.ending.all fun x => x.toNotify.all fun n => decide (c.readersAt n ≤ 1)) &&
      (t.opens c.world).all fun x =>
        ((c.world.rows x.2).all fun row => decide (row.status = .pending)) &&
          c.tasks.all fun u => u.ending.isNone
  | _ => true

theorem quietStep_ok (c : Config) (a : Action) (h : quietStep c a = true) :
    c.FailsCleanly a ∧ AdoptsNothing c a := by
  cases a with
  | run k choice =>
    refine forall₂_and.mp fun t ht => ?_
    simp only [quietStep, ht, Option.all_some, Bool.and_eq_true] at h
    obtain ⟨⟨hrow, hnotify⟩, hopens⟩ := h
    refine ⟨⟨fun j hj => ?_, fun i j n hx _ => ?_, fun i j hx => ⟨?_, fun u hu n hend => ?_⟩⟩, ?_⟩
    · cases t <;> simp [hj] at hrow
    · simpa [hx] using hnotify
    · rintro ⟨row, hr, hstatus⟩
      simp only [hx, Option.all_some, Bool.and_eq_true, hr, decide_eq_true_eq] at hopens
      rw [hopens.1] at hstatus
      rcases hstatus with hstatus | hstatus <;> cases hstatus
    · simp only [hx, Option.all_some, Bool.and_eq_true, List.all_eq_true] at hopens
      have hnone := hopens.2 u hu
      rw [hend] at hnone
      cases hnone
    · cases t with
      | dispatch d => cases hrow
      | recover r => cases hrow
      | _ => trivial
  | _ => exact ⟨trivial, trivial⟩

/-- The cancel of a job whose reader had parked. -/
theorem cancelled_row_settled : ∃ c : Config, c.world.RowFailed 0 ∧ (c.world.jobs 0 0).isSome ∧
    ∀ i, c.Settled i 0 ∧ ∀ w : World, w.RowFailed 0 → getStatus c.world w i 0 ≠ .ok .pending := by
  have hexec : (exec Config.step quietStep (Config.init twoInstances) cancelParkedReader).any
      (fun c => decide ((c.world.requests 0).map Prod.fst = some 0) &&
        ((c.tasks[2]?).any fun t => decide (t.failsRow = some 0) && t.ending.any fun x =>
          decide (x.inst = 0 ∧ x.uuid = 0 ∧ x.toNotify = none)) &&
        (c.step (.run 2 .go)).any fun c' => (c'.world.jobs 0 0).isSome &&
          (c'.world.rows 0).any fun row => decide (row.status = .cancelled)) = true := by
    decide +kernel
  obtain ⟨c, hrun, htest⟩ := Run.exists_of_exec quietStep_ok hexec
  simp only [Bool.and_eq_true, Option.any_eq_true, decide_eq_true_eq] at htest
  obtain ⟨⟨hhome, t, ht, hfails, ⟨inst, uuid, toNotify⟩, hx, rfl, rfl, rfl⟩, c', hstep, hentry, row, hrow, hcancelled⟩ :=
    htest
  have hfirst : c.world.HomeOf 0 0 := by
    obtain ⟨r, hr, hzero⟩ := Option.map_eq_some_iff.mp hhome
    exact ⟨r.2, by rw [hr, ← hzero]⟩
  have hhomes := homes_reachable (hrun.mono fun _ _ h => h.2)
  have hok : c.FailsCleanly (.run 2 .go) := by
    intro u hu
    obtain rfl : t = u := Option.some.inj (ht.symm.trans hu)
    refine ⟨fun j hj _ i hi e he => ?_, fun i j n hn => ?_, fun i j hopens => ?_⟩
    · obtain rfl : 0 = j := Option.some.inj (hfails.symm.trans hj)
      obtain rfl : i = 0 := (hhomes.entries i 0 e he).unique hfirst
      exact absurd hx hi
    · cases hx.symm.trans hn
    · rw [opens_of_failsRow hfails] at hopens
      cases hopens
  have hrun' := (hrun.mono fun _ _ h => h.1).snoc hok hstep
  refine ⟨c', ⟨row, hrow, .inr hcancelled⟩, hentry, fun i => ?_⟩
  exact failed_rows_settled hrun' 0 ⟨row, hrow, .inr hcancelled⟩ i

/-- A job waits in the queue for more than 300 s, until `queue_wait_cancel_pass` fails its row. -/
def expireInQueue : List Action :=
  Action.start (.submit 0 (plainRequest "hi")) :: List.replicate 6 (Action.run 0 .go) ++
    [Action.tick 300001, Action.start (.waitCancel 0), Action.run 1 (.keys [0])] ++
    List.replicate 5 (Action.run 1 .go)

/-- The entry of the expired job is pending. -/
theorem pending_job_failed :
    ¬ ∀ c, Run Config.step (fun _ _ => True) (Config.init twoInstances) c →
      ∀ j, c.world.RowFailed j → ∀ i,
        c.Settled i j ∧ getStatus c.world c.world i j ≠ .ok .pending := by
  intro hall
  have hexec : (exec Config.step (fun _ _ => true) (Config.init twoInstances) expireInQueue).any
      (fun c => (c.world.rows 0).any (fun row => decide (row.status = .failed)) &&
        (c.world.jobs 0 0).any fun e => decide (e.status = .pending)) = true := by
    decide +kernel
  obtain ⟨c, hrun, htest⟩ := Run.exists_of_exec (fun _ _ _ => trivial) hexec
  obtain ⟨hrow, hentry⟩ := (Bool.and_eq_true _ _).mp htest
  obtain ⟨row, hrow, hfailed⟩ := (Option.any_eq_true _ _).mp hrow
  obtain ⟨e, he, hpending⟩ := (Option.any_eq_true _ _).mp hentry
  have hstatus : getStatus c.world c.world 0 0 = .ok .pending := by
    rw [getStatus, he, ← of_decide_eq_true hpending]
  exact (hall c hrun 0 ⟨row, hrow, .inl (of_decide_eq_true hfailed)⟩ 0).2 hstatus

end Veronex
