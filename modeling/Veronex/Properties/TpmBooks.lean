import Veronex.Inference.Made
import Veronex.Inference.Places
import Veronex.Properties.FailedRows

/-! # The tokens of a worker and the bucket they are recorded in

A worker that runs to its end records its tokens once: `record_tpm` in the finalizer or, after an
error of the stream, the refund. `WorkerPc.tpmStage` is how far a worker is from that;
`Worker.stage_moved` says what a step can do to it.
-/
namespace Veronex
open Concurrency
set_option autoImplicit false

/-! ## Stages -/

/-- How far a worker is from its `record_tpm`. -/
inductive TpmStage
  /-- Before the setup. -/
  | fresh
  | running
  /-- After an error of the stream, before the row is failed. -/
  | failing
  /-- The row is completed. -/
  | owing
  /-- The row is failed. -/
  | refunding
  | recorded
  | refunded
  /-- On a way that does not lead to `record_tpm`. -/
  | lost
  deriving DecidableEq

def WorkerPc.tpmStage : WorkerPc → TpmStage
  | .spawned | .setup => .fresh
  | .counters | .counterPending | .counterRunning | .lifecycle | .boundary | .capture | .select
  | .received _ | .refreshOwner | .finalEntry => .running
  | .notify _ .lifecycle => .lost
  | .notify _ (.error _) => .failing
  | .notify _ _ => .running
  | .errorFlag _ | .persist (.error _) _ | .errorEntry _ | .errorRow _ => .failing
  | .errorDecr | .errorTpm => .refunding
  | .final _ .lostEntry | .final _ .lostNotifier => .lost
  | .final _ .counters | .final _ .removeNotifier | .final _ .recordTpm => .owing
  | .final _ _ => .running
  | .block .completed _ | .returned .completed => .recorded
  | .block .streamError _ | .returned .streamError => .refunded
  | _ => .lost

/-- The stages after the row has ended. -/
def TpmStage.ended : TpmStage → Bool
  | .owing | .refunding | .recorded | .refunded => true
  | _ => false

/-- The stages of an error of the stream. -/
def TpmStage.failed : TpmStage → Bool
  | .failing | .refunding | .refunded => true
  | _ => false

/-- The stages after `record_tpm`. -/
def TpmStage.booked : TpmStage → Bool
  | .recorded | .refunded => true
  | _ => false

def Worker.stage (v : Worker) : TpmStage := v.pc.tpmStage

/-- What an access adds to a bucket. -/
def Access.tpmAdded (key : Uuid) (minute : ℕ) : Access → ℤ
  | .recordTpm key' minute' delta => if key' = key ∧ minute' = minute then delta else 0
  | _ => 0

/-- The job whose row an access ends. -/
def Access.endsRow : Access → Option Uuid
  | .finalizeRow id _ => some id
  | a => a.failsRow

section Stages
variable {w : World} {a : Access} {choice : Choice} {j key : Uuid} {minute : ℕ}

theorem apply_tpm (w : World) (a : Access) (key : Uuid) (minute : ℕ) :
    (w.apply a).tpm key minute = w.tpm key minute + a.tpmAdded key minute := by
  cases a with
  | recordTpm key' minute' delta =>
    simp only [World.apply, Access.tpmAdded]
    by_cases hkey : key' = key
    · subst hkey
      by_cases hminute : minute' = minute
      · subst hminute
        simp
      · simp [hminute, Function.update_of_ne (Ne.symm hminute)]
    · simp [hkey, Function.update_of_ne (Ne.symm hkey)]
  | _ => exact (add_zero _).symm

theorem tpmAccess_added (v : Worker) (tokens : ℕ) :
    (v.tpmAccess w tokens).tpmAdded key minute =
      if v.apiKeyId = some key ∧ v.tpmMinute.getD (w.now / 60000) = minute then
        (tokens : ℤ) - TPM_ESTIMATED_TOKENS
      else 0 := by
  unfold Worker.tpmAccess
  cases v.apiKeyId with
  | none => simp [Access.tpmAdded]
  | some key' =>
    dsimp only
    split
    · next hzero => simp [Access.tpmAdded, hzero]
    · simp [Access.tpmAdded]

/-- The next step of a running worker leads past `record_tpm`: a lifecycle failure, a signal, a
cancelled entry, a panic, or a lost ownership. -/
def Worker.Loses (w : World) (choice : Choice) (v : Worker) : Prop :=
  match v.pc with
  | .lifecycle => w.lifecyclePhase v.inst = true ∧ ∃ message, choice = .ready (.error message)
  | .select => w.permit v.cancelNotify = true
  | .received result => ∃ e, w.jobs v.inst v.uuid = some e ∧ (e.status = .cancelled ∨
      ∃ token, result = .ok token ∧ consume v.ts token w.now v.startedAt = none)
  | .final _ .readOwner => ∃ i, w.owner v.uuid = some i ∧ i ≠ v.inst
  | _ => False

/-- What a step of a worker can be, for its `record_tpm`. -/
inductive StageMoved (w : World) (choice : Choice) (v : Worker) (m : Moved Worker) : Prop
  | spawned (hpc : v.pc = .spawned) (hnext : m.next.pc = .setup) (ha : m.access = .newCells 1)
  /-- The setup takes the key and the minute from the entry. -/
  | entered {e : JobEntry} (hpc : v.pc = .setup) (he : w.jobs v.inst v.uuid = some e)
      (hnext : m.next.stage = .running) (hkey : m.next.apiKeyId = e.apiKeyId)
      (hminute : m.next.tpmMinute = e.tpmReservationMinute)
      (ha : m.access = .updateEntry v.inst v.uuid (.running w.now))
  | cancelled {e : JobEntry} (hpc : v.pc = .setup) (he : w.jobs v.inst v.uuid = some e)
      (hcancelled : e.status = .cancelled) (hnext : m.next.stage = .lost)
      (hkey : m.next.apiKeyId = v.apiKeyId) (ha : m.access = .read)
  | absent (hpc : v.pc = .setup) (he : w.jobs v.inst v.uuid = none)
      (hnext : m.next.stage = .running) (hkey : m.next.apiKeyId = v.apiKeyId) (ha : m.access = .read)
  | stays (hv : v.stage ≠ .fresh) (hnext : m.next.stage = v.stage)
      (hadds : ∀ key minute, m.access.tpmAdded key minute = 0)
      (hends : v.stage = .lost ∨ m.access.endsRow = none)
  | fails {message : String} (hpc : v.pc = .received (.error message))
      (hnext : m.next.stage = .failing) (ha : m.access = .read)
  | finalizes {metrics : FinalMetrics} (hv : v.stage = .running) (hnext : m.next.stage = .owing)
      (ha : m.access = .finalizeRow v.uuid metrics)
  | failsRow {reason : String} {error : Option String} (hv : v.stage = .failing)
      (hnext : m.next.stage = .refunding) (ha : m.access = .failRow v.uuid reason error)
  | records (hv : v.stage = .owing) (hnext : m.next.stage = .recorded)
      (ha : m.access = v.tpmAccess w v.ts.tokenCount)
  | refunds (hv : v.stage = .refunding) (hnext : m.next.stage = .refunded)
      (ha : m.access = v.tpmAccess w 0)
  | loses (hwhy : v.Loses w choice) (hv : v.stage = .running) (hnext : m.next.stage = .lost)
      (hadds : ∀ key minute, m.access.tpmAdded key minute = 0) (hends : m.access.endsRow = none)

theorem persistStep_stage (v : Worker) (site : PersistSite) (pc : PersistPc) :
    (v.persistStep w site pc).next.stage = (WorkerPc.persist site pc).tpmStage ∧
      (∀ key minute, (v.persistStep w site pc).access.tpmAdded key minute = 0) ∧
      (v.persistStep w site pc).access.endsRow = none := by
  have hafter : (Worker.afterPersist site).tpmStage = (WorkerPc.persist site pc).tpmStage := by
    cases site <;> rfl
  cases pc with
  | compareExchange flag =>
    simp only [Worker.persistStep]
    split
    · exact ⟨hafter, fun _ _ => rfl, rfl⟩
    · refine ⟨?_, fun _ _ => rfl, rfl⟩
      simp only [Worker.goto, Worker.stage]
      split
      · exact hafter
      · cases site <;> rfl
  | get => cases site <;> exact ⟨rfl, fun _ _ => rfl, rfl⟩
  | put turns => exact ⟨hafter, fun _ _ => rfl, rfl⟩

theorem StageMoved.stay {v : Worker} {m : Moved Worker} (hv : v.stage ≠ .fresh)
    (hnext : m.next.stage = v.stage) (ha : (∀ key minute, m.access.tpmAdded key minute = 0) ∧
      m.access.endsRow = none) : StageMoved w choice v m :=
  .stays hv hnext ha.1 (.inr ha.2)

theorem finalStep_stage {v : Worker} {completedAt : Millis} {pc : FinalPc}
    (hpc : v.pc = .final completedAt pc) : StageMoved w choice v (v.finalStep w completedAt pc) := by
  have hstage : v.stage = (WorkerPc.final completedAt pc).tpmStage := by rw [Worker.stage, hpc]
  cases pc with
  | finalizeRow => exact .finalizes hstage rfl rfl
  | recordTpm => exact .records hstage rfl rfl
  | readOwner =>
    have hread : ∀ lost : Bool, (lost = true → v.Loses w choice) → StageMoved w choice v
        { access := .read
          next := v.goto (.final completedAt (if lost then .lostEntry else .readFlag)) } := by
      intro lost hwhy
      cases lost with
      | true => exact .loses (hwhy rfl) hstage rfl (fun _ _ => rfl) rfl
      | false => exact .stay (by rw [hstage]; rintro ⟨⟩) hstage.symm ⟨fun _ _ => rfl, rfl⟩
    refine hread _ fun hlost => ?_
    rw [Worker.Loses, hpc]
    cases howner : w.owner v.uuid with
    | none =>
      rw [howner] at hlost
      cases hlost
    | some id =>
      rw [howner] at hlost
      exact ⟨id, rfl, bne_iff_ne.mp hlost⟩
  | counters =>
    refine .stay (by rw [hstage]; rintro ⟨⟩) (by rw [hstage]; rfl) ?_
    simp only [Worker.finalStep]
    split
    · split <;> exact ⟨fun _ _ => rfl, rfl⟩
    · exact ⟨fun _ _ => rfl, rfl⟩
  | _ =>
    refine .stay (by rw [hstage]; rintro ⟨⟩) ?_ ?_
    · rw [hstage]
      simp only [Worker.finalStep]
      repeat' split
      all_goals rfl
    · simp only [Worker.finalStep]
      repeat' split
      all_goals exact ⟨fun _ _ => rfl, rfl⟩

theorem receiveStep_stage {v : Worker} {result : Except String StreamToken}
    (hpc : v.pc = .received result) : StageMoved w choice v (v.receiveStep w result) := by
  have hstage : v.stage = .running := by rw [Worker.stage, hpc]; rfl
  have hne : v.stage ≠ .fresh := by rw [hstage]; rintro ⟨⟩
  unfold Worker.receiveStep
  split
  · exact .stay hne hstage.symm ⟨fun _ _ => rfl, rfl⟩
  · next e he =>
    split
    · next hcancelled =>
      have hwhy : v.Loses w choice := by
        rw [Worker.Loses, hpc]
        exact ⟨e, he, .inl hcancelled⟩
      exact .loses hwhy hstage rfl (fun _ _ => rfl) rfl
    · split
      · exact .fails hpc rfl rfl
      · next token =>
        split
        · next hpanic =>
          have hwhy : v.Loses w choice := by
            rw [Worker.Loses, hpc]
            exact ⟨e, he, .inr ⟨token, rfl, hpanic⟩⟩
          exact .loses hwhy hstage rfl (fun _ _ => rfl) rfl
        · split
          · exact .stay hne hstage.symm ⟨fun _ _ => rfl, rfl⟩
          · exact .stay hne hstage.symm ⟨fun _ _ => rfl, rfl⟩

theorem Worker.stage_moved {v : Worker} {m : Moved Worker} (h : v.step w choice = some m) :
    StageMoved w choice v m := by
  obtain ⟨args, job, stop, apiKeyId, tpmMinute, startedAt, cancelNotify, ts, log, pc⟩ := v
  cases pc
  case spawned => obtain rfl := Option.some.inj h; exact .spawned rfl rfl rfl
  case setup =>
    simp only [Worker.step] at h
    split at h
    · next hnone => obtain rfl := Option.some.inj h; exact .absent rfl hnone rfl rfl rfl
    · next e he =>
      split at h
      · next hcancelled =>
        obtain rfl := Option.some.inj h
        exact .cancelled rfl he hcancelled rfl rfl rfl
      · obtain rfl := Option.some.inj h
        exact .entered rfl he rfl rfl rfl rfl
  case received result =>
    obtain rfl := Option.some.inj h
    exact receiveStep_stage rfl
  case final completedAt pc =>
    obtain rfl := Option.some.inj h
    exact finalStep_stage rfl
  case persist site pc =>
    obtain rfl := Option.some.inj h
    refine .stay (by cases site <;> rintro ⟨⟩) ?_ ?_
    · exact (persistStep_stage _ site pc).1
    · exact (persistStep_stage _ site pc).2
  case block exit pc =>
    obtain rfl := Option.some.inj h
    refine .stay (by cases exit <;> rintro ⟨⟩) ?_ ?_
    · cases pc <;> cases exit <;> rfl
    · cases pc <;> exact ⟨fun _ _ => rfl, rfl⟩
  case notify cell site =>
    obtain rfl := Option.some.inj h
    refine .stay (by cases site <;> rintro ⟨⟩) (by cases site <;> rfl) ⟨fun _ _ => rfl, rfl⟩
  case errorRow message => obtain rfl := Option.some.inj h; exact .failsRow rfl rfl rfl
  case errorTpm => obtain rfl := Option.some.inj h; exact .refunds rfl rfl rfl
  case lifecycleRow message =>
    obtain rfl := Option.some.inj h
    exact .stays (by rintro ⟨⟩) rfl (fun _ _ => rfl) (.inl rfl)
  case lifecycle =>
    simp only [Worker.step] at h
    split at h
    · next hphase =>
      split at h
      · obtain rfl := Option.some.inj h
        exact .stay (by rintro ⟨⟩) rfl ⟨fun _ _ => rfl, rfl⟩
      · next message =>
        obtain rfl := Option.some.inj h
        exact .loses ⟨hphase, message, rfl⟩ rfl rfl (fun _ _ => rfl) rfl
      · cases h
    · obtain rfl := Option.some.inj h
      exact .stay (by rintro ⟨⟩) rfl ⟨fun _ _ => rfl, rfl⟩
  case select =>
    simp only [Worker.step] at h
    split at h
    · next hpermit =>
      obtain rfl := Option.some.inj h
      exact .loses hpermit rfl rfl (fun _ _ => rfl) rfl
    · split at h
      · obtain rfl := Option.some.inj h
        exact .stay (by rintro ⟨⟩) rfl ⟨fun _ _ => rfl, rfl⟩
      · obtain rfl := Option.some.inj h
        exact .stay (by rintro ⟨⟩) rfl ⟨fun _ _ => rfl, rfl⟩
      · cases h
  all_goals simp only [Worker.step] at h
  all_goals repeat' (split at h)
  all_goals first
    | (obtain rfl := Option.some.inj h; exact .stay (by rintro ⟨⟩) rfl ⟨fun _ _ => rfl, rfl⟩)
    | cases h

/-- The key of a worker is set in its setup. -/
theorem worker_key {v : Worker} {m : Moved Worker} (h : v.step w choice = some m)
    (hpc : v.pc ≠ .setup) : m.next.apiKeyId = v.apiKeyId ∧ m.next.tpmMinute = v.tpmMinute :=
  (worker_keeps h).key.resolve_right hpc

/-- The count of tokens changes with a token, and when the stream starts. -/
theorem worker_tokens {v : Worker} {m : Moved Worker} (h : v.step w choice = some m) :
    m.next.ts.tokenCount = v.ts.tokenCount ∨ v.pc = .capture ∨ ∃ token, v.pc = .received (.ok token) :=
  (worker_keeps h).tokens

theorem tpmAdded_of_plain (h : a.byWorker = false) : a.tpmAdded key minute = 0 := by
  cases a with
  | recordTpm key' minute' delta => cases h
  | _ => rfl

theorem endsRow_of_plain (h : a.byWorker = false) : a.endsRow = a.failsRow := by
  cases a with
  | finalizeRow id metrics => cases h
  | _ => rfl

theorem rowId_of_endsRow (h : a.endsRow = some j) : a.rowId = some j := by
  cases a with
  | saveRow row =>
    simp only [Access.endsRow, Access.failsRow] at h
    split at h
    · cases h
    · exact h
  | updateStatus id status =>
    simp only [Access.endsRow, Access.failsRow] at h
    split at h
    · cases h
    · exact h
  | cancelRow id at' => exact h
  | failRow id reason error => exact h
  | finalizeRow id metrics => exact h
  | _ => cases h

/-- A row that has ended had ended before, or an access ended it. -/
theorem rowEnded_apply (h : (w.apply a).RowEnded j) : w.RowEnded j ∨ a.endsRow = some j := by
  by_cases hended : w.RowEnded j
  · exact .inl hended
  right
  obtain ⟨row, hrow, hterminal⟩ := h
  by_cases hj : a.rowId = some j
  swap
  · rw [apply_rows_of_ne hj] at hrow
    exact absurd ⟨row, hrow, hterminal⟩ hended
  cases a with
  | saveRow row' =>
    obtain rfl : row'.id = j := Option.some.inj hj
    have hor : (w.rows row'.id).or (some row') = some row := by simpa [World.apply] using hrow
    cases hbefore : w.rows row'.id with
    | some row₀ =>
      rw [hbefore] at hor
      obtain rfl := Option.some.inj hor
      exact absurd ⟨row₀, hbefore, hterminal⟩ hended
    | none =>
      rw [hbefore] at hor
      obtain rfl := Option.some.inj hor
      have hpending : row'.status ≠ .pending := by
        intro hpending
        rw [hpending] at hterminal
        cases hterminal
      exact if_neg hpending
  | updateStatus id status =>
    obtain rfl : id = j := Option.some.inj hj
    have hpending : status ≠ .pending := by
      rintro rfl
      rw [World.apply, updateRow_self] at hrow
      obtain ⟨row₀, -, rfl⟩ := Option.map_eq_some_iff.mp hrow
      cases hterminal
    exact if_neg hpending
  | cancelRow id at' => exact hj
  | failRow id reason error => exact hj
  | finalizeRow id metrics => exact hj
  | _ => cases hj

end Stages

/-! ## Books -/

/-- A worker of the job that got past its setup. -/
def Task.startedOn (j : Uuid) : Task → ℕ
  | .run v => if v.uuid = j ∧ v.stage ≠ .fresh then 1 else 0
  | _ => 0

/-- What a worker has added to a bucket. -/
def Worker.adjusted (key : Uuid) (minute : ℕ) (v : Worker) : ℤ :=
  if v.apiKeyId = some key ∧ v.tpmMinute = some minute then
    match v.stage with
    | .recorded => v.ts.tokenCount - TPM_ESTIMATED_TOKENS
    | .refunded => -TPM_ESTIMATED_TOKENS
    | _ => 0
  else 0

def Task.adjusted (key : Uuid) (minute : ℕ) : Task → ℤ
  | .run v => v.adjusted key minute
  | _ => 0

/-- What the next step of a worker of an owned job must find. -/
def Worker.Reconciles (c : Config) (choice : Choice) (v : Worker) : Prop :=
  ¬ v.Loses c.world choice ∧
    match v.pc with
    | .setup => (∃ e, c.world.jobs v.inst v.uuid = some e ∧ e.status ≠ .cancelled ∧
        e.tpmReservationMinute.isSome) ∧ ∀ t ∈ c.tasks, t.startedOn v.uuid = 0
    | .received (.error _) => v.ts.tokenCount = 0
    | _ => True

/-- A worker about to take the key from its entry. -/
def Worker.Takes (w : World) (key : Uuid) (v : Worker) : Prop :=
  v.pc = .setup ∧ ∃ e, w.jobs v.inst v.uuid = some e ∧ e.apiKeyId = some key

section Books
variable (key : Uuid) (due : ℕ → Uuid → Prop)

/-- What the next step of a task must find, for the jobs of a key: `due minute j` where the
reservation of the job is in the bucket of the minute. -/
structure Task.Reconciles (c : Config) (choice : Choice) (t : Task) : Prop where
  /-- The entry is made in the minute of the reservation. -/
  submit : ∀ s job cell, t = .submit s → s.pc = .insertEntry job cell →
    ∀ minute, due minute job.id → minute = c.world.now / 60000
  run : ∀ v, t = .run v → (∃ minute, due minute v.uuid) ∨ v.Takes c.world key →
    v.Reconciles c choice
  /-- Only `run_job` fails the row of a job. -/
  row : ∀ j, (∀ v, t ≠ .run v) → t.failsRow = some j → (∃ minute, due minute j) →
    c.world.RowEnded j

def Config.Reconciles (c : Config) : Action → Prop
  | .run k choice => ∀ t, c.tasks[k]? = some t → t.Reconciles key due c choice
  | .restart inst => ∀ v, .run v ∈ c.tasks → v.inst = inst → v.apiKeyId = some key →
      v.stage.ended = true → (Task.run v).ended = true
  | _ => True

structure Worker.OnBooks (v : Worker) : Prop where
  fresh : v.stage = .fresh → v.apiKeyId = none ∧ v.ts.tokenCount = 0
  keyed : v.stage ≠ .fresh → (v.apiKeyId = some key ↔ ∃ minute, due minute v.uuid)
  dated : v.apiKeyId = some key → ∃ minute, v.tpmMinute = some minute ∧ due minute v.uuid
  kept : v.apiKeyId = some key → v.stage ≠ .lost
  failed : v.apiKeyId = some key → v.stage.failed = true → v.ts.tokenCount = 0

structure Submit.OnBooks (s : Submit) : Prop where
  create : s.pc = .create → s.req.apiKeyId ≠ some key
  building : ∀ j, s.pc.building = some j → (s.req.apiKeyId = some key ↔ ∃ minute, due minute j)

def Task.OnBooks : Task → Prop
  | .submit s => s.OnBooks key due
  | .run v => v.OnBooks key due
  | _ => True

structure JobEntry.OnBooks (j : Uuid) (e : JobEntry) : Prop where
  keyed : ∀ minute, e.tpmReservationMinute = some minute →
    (e.apiKeyId = some key ↔ ∃ minute, due minute j)
  dated : ∀ minute, e.tpmReservationMinute = some minute → (∃ minute, due minute j) → due minute j

structure Config.Books (c : Config) : Prop where
  made : ∀ minute j, due minute j → j < c.world.nextJob
  tasks : ∀ t ∈ c.tasks, t.OnBooks key due
  entries : ∀ i j e, c.world.jobs i j = some e → e.OnBooks key due j
  once : ∀ j, (∃ minute, due minute j) → weight (Task.startedOn j) c.tasks ≤ 1
  rows : ∀ j, (∃ minute, due minute j) → c.world.RowEnded j →
    ∃ v, .run v ∈ c.tasks ∧ v.uuid = j ∧ v.stage.ended = true
  ledger : ∀ minute, c.world.tpm key minute = weight (Task.adjusted key minute) c.tasks

variable {key due} {c c' : Config} {choice : Choice} {t : Task} {m : Moved Task}
  {others tasks : List Task}

theorem step_uuid {w : World} {v : Worker} {m : Moved Worker} (h : v.step w choice = some m) :
    m.next.uuid = v.uuid ∧ m.next.inst = v.inst := by
  have hargs := step_args h
  exact ⟨by rw [Worker.uuid, hargs, Worker.uuid], by rw [Worker.inst, hargs, Worker.inst]⟩

theorem tokens_kept {w : World} {v : Worker} {m : Moved Worker} (h : v.step w choice = some m)
    (hstage : v.stage ≠ .running) : m.next.ts.tokenCount = v.ts.tokenCount := by
  rcases worker_tokens h with hsame | hpc | ⟨token, hpc⟩
  · exact hsame
  · exact absurd (by rw [Worker.stage, hpc]; rfl) hstage
  · exact absurd (by rw [Worker.stage, hpc]; rfl) hstage

theorem worker_onBooks {v : Worker} {m : Moved Worker} (hv : v.OnBooks key due)
    (hentries : ∀ e, c.world.jobs v.inst v.uuid = some e → e.OnBooks key due v.uuid)
    (hok : (∃ minute, due minute v.uuid) ∨ v.Takes c.world key → v.Reconciles c choice)
    (h : v.step c.world choice = some m) : m.next.OnBooks key due := by
  obtain ⟨huuid, -⟩ := step_uuid h
  -- past its setup a worker keeps its key, and its stage is what counts
  have hpast : v.stage ≠ .fresh → m.next.stage ≠ .fresh →
      (v.apiKeyId = some key → m.next.stage ≠ .lost) →
      (v.apiKeyId = some key → m.next.stage.failed = true → m.next.ts.tokenCount = 0) →
      m.next.OnBooks key due := by
    intro hstage hnext hlost hfailed
    have hpc : v.pc ≠ .setup := by
      intro hpc
      rw [Worker.stage, hpc] at hstage
      exact hstage rfl
    obtain ⟨hkey, hminute⟩ := worker_key h hpc
    refine ⟨fun hfresh => absurd hfresh hnext, fun _ => ?_, fun hk => ?_, fun hk => ?_, fun hk => ?_⟩
    · rw [hkey, huuid]
      exact hv.keyed hstage
    · rw [hminute, huuid]
      exact hv.dated (hkey ▸ hk)
    · exact hlost (hkey ▸ hk)
    · exact hfailed (hkey ▸ hk)
  have hsetup : v.pc = .setup → v.stage = .fresh := by
    intro hpc
    rw [Worker.stage, hpc]
    rfl
  -- a worker that got no key from its entry, of a job nobody owns
  have hfree : v.pc = .setup → m.next.stage ≠ .fresh → m.next.apiKeyId = v.apiKeyId →
      (¬ ∃ minute, due minute v.uuid) → m.next.OnBooks key due := by
    intro hpc hnext hkey hnone
    have hno : m.next.apiKeyId ≠ some key := by
      rw [hkey, (hv.fresh (hsetup hpc)).1]
      rintro ⟨⟩
    refine ⟨fun hfresh => absurd hfresh hnext, fun _ => ?_, fun hk => absurd hk hno,
      fun hk => absurd hk hno, fun hk => absurd hk hno⟩
    rw [huuid]
    exact iff_of_false hno hnone
  -- an error of the stream goes on without tokens
  have herror : v.stage ≠ .fresh → v.stage.failed = true → m.next.stage ≠ .fresh →
      m.next.stage ≠ .lost → m.next.OnBooks key due := by
    intro hstage hf hnext hlost
    refine hpast hstage hnext (fun _ => hlost) fun hk _ => ?_
    rw [tokens_kept h (fun hrunning => by rw [hrunning] at hf; cases hf), hv.failed hk hf]
  cases v.stage_moved h with
  | spawned hpc hnext ha =>
    have hstage : v.stage = .fresh := by rw [Worker.stage, hpc]; rfl
    have hfresh : m.next.stage = .fresh := by rw [Worker.stage, hnext]; rfl
    have hkey := (worker_key h (by rw [hpc]; rintro ⟨⟩)).1
    have hsame := tokens_kept h (by rw [hstage]; rintro ⟨⟩)
    obtain ⟨hnone, hzero⟩ := hv.fresh hstage
    have hno : m.next.apiKeyId ≠ some key := by
      rw [hkey, hnone]
      rintro ⟨⟩
    exact ⟨fun _ => ⟨hkey.trans hnone, hsame.trans hzero⟩, fun hne => absurd hfresh hne,
      fun hk => absurd hk hno, fun hk => absurd hk hno, fun hk => absurd hk hno⟩
  | @entered e hpc he hnext hkey hminute ha =>
    have hentry := hentries e he
    have hstage : m.next.stage ≠ .fresh := by rw [hnext]; rintro ⟨⟩
    by_cases howned : (∃ minute, due minute v.uuid) ∨ v.Takes c.world key
    · have hsites := (hok howned).2
      rw [hpc] at hsites
      obtain ⟨⟨e', he', -, hreserved⟩, -⟩ := hsites
      obtain rfl : e = e' := Option.some.inj (he.symm.trans he')
      obtain ⟨minute, hm⟩ := Option.isSome_iff_exists.mp hreserved
      have hiff := hentry.keyed minute hm
      refine ⟨fun hfresh => absurd hfresh hstage, fun _ => ?_, fun hk => ?_, fun _ => ?_, fun _ hf => ?_⟩
      · rw [hkey, huuid]
        exact hiff
      · rw [hminute, huuid]
        exact ⟨minute, hm, hentry.dated minute hm (hiff.mp (hkey ▸ hk))⟩
      · rw [hnext]
        rintro ⟨⟩
      · rw [hnext] at hf
        cases hf
    · have hno : m.next.apiKeyId ≠ some key := by
        rw [hkey]
        exact fun hk => howned (.inr ⟨hpc, e, he, hk⟩)
      refine ⟨fun hfresh => absurd hfresh hstage, fun _ => ?_, fun hk => absurd hk hno,
        fun hk => absurd hk hno, fun hk => absurd hk hno⟩
      rw [huuid]
      exact iff_of_false hno fun hdue => howned (.inl hdue)
  | @cancelled e hpc he hcancelled hnext hkey ha =>
    refine hfree hpc (by rw [hnext]; rintro ⟨⟩) hkey fun hdue => ?_
    have hsites := (hok (.inl hdue)).2
    rw [hpc] at hsites
    obtain ⟨⟨e', he', hopen, -⟩, -⟩ := hsites
    obtain rfl : e = e' := Option.some.inj (he.symm.trans he')
    exact hopen hcancelled
  | absent hpc he hnext hkey ha =>
    refine hfree hpc (by rw [hnext]; rintro ⟨⟩) hkey fun hdue => ?_
    have hsites := (hok (.inl hdue)).2
    rw [hpc] at hsites
    obtain ⟨⟨e', he', -⟩, -⟩ := hsites
    rw [he] at he'
    cases he'
  | stays hstage hnext hadds hends =>
    refine hpast hstage (hnext ▸ hstage) (fun hk => hnext ▸ hv.kept hk) fun hk hf => ?_
    rw [hnext] at hf
    rw [tokens_kept h (fun hrunning => by rw [hrunning] at hf; cases hf), hv.failed hk hf]
  | @fails message hpc hnext ha =>
    have hstage : v.stage ≠ .fresh := by rw [Worker.stage, hpc]; rintro ⟨⟩
    refine hpast hstage (by rw [hnext]; rintro ⟨⟩) (fun _ => by rw [hnext]; rintro ⟨⟩) fun hk _ =>
      ?_
    have hsites := (hok (.inl ((hv.keyed hstage).mp hk))).2
    rw [hpc] at hsites
    rcases worker_tokens h with hsame | hpc' | ⟨token, hpc'⟩
    · rw [hsame]
      exact hsites
    · cases hpc.symm.trans hpc'
    · cases hpc.symm.trans hpc'
  | finalizes hv' hnext ha =>
    refine hpast (by rw [hv']; rintro ⟨⟩) (by rw [hnext]; rintro ⟨⟩)
      (fun _ => by rw [hnext]; rintro ⟨⟩) fun _ hf => ?_
    rw [hnext] at hf
    cases hf
  | failsRow hv' hnext ha =>
    exact herror (by rw [hv']; rintro ⟨⟩) (by rw [hv']; rfl) (by rw [hnext]; rintro ⟨⟩)
      (by rw [hnext]; rintro ⟨⟩)
  | records hv' hnext ha =>
    refine hpast (by rw [hv']; rintro ⟨⟩) (by rw [hnext]; rintro ⟨⟩)
      (fun _ => by rw [hnext]; rintro ⟨⟩) fun _ hf => ?_
    rw [hnext] at hf
    cases hf
  | refunds hv' hnext ha =>
    exact herror (by rw [hv']; rintro ⟨⟩) (by rw [hv']; rfl) (by rw [hnext]; rintro ⟨⟩)
      (by rw [hnext]; rintro ⟨⟩)
  | loses hwhy hv' hnext hadds hends =>
    have hstage : v.stage ≠ .fresh := by rw [hv']; rintro ⟨⟩
    refine hpast hstage (by rw [hnext]; rintro ⟨⟩) (fun hk _ => ?_) fun _ hf => ?_
    · exact (hok (.inl ((hv.keyed hstage).mp hk))).1 hwhy
    · rw [hnext] at hf
      cases hf

theorem adjusted_zero {v : Worker} {minute : ℕ} (h : v.stage.booked = false) :
    v.adjusted key minute = 0 := by
  unfold Worker.adjusted
  split
  · cases hstage : v.stage with
    | recorded => rw [hstage] at h; cases h
    | refunded => rw [hstage] at h; cases h
    | _ => rfl
  · rfl

theorem stage_of_setup {v : Worker} (h : v.pc = .setup) : v.stage = .fresh := by
  rw [Worker.stage, h]
  rfl

/-- What a worker adds to a bucket is what its access adds. -/
theorem worker_adjusted {w : World} {v : Worker} {m : Moved Worker} (hv : v.OnBooks key due)
    (h : v.step w choice = some m) (minute : ℕ) :
    m.next.adjusted key minute = v.adjusted key minute + m.access.tpmAdded key minute := by
  -- neither side of a step that records nothing
  have hnone : v.stage.booked = false → m.next.stage.booked = false →
      m.access.tpmAdded key minute = 0 →
      m.next.adjusted key minute = v.adjusted key minute + m.access.tpmAdded key minute := by
    intro hstage hnext hadds
    rw [adjusted_zero hstage, adjusted_zero hnext, hadds, add_zero]
  have hkeys : v.stage ≠ .fresh → m.next.apiKeyId = v.apiKeyId ∧ m.next.tpmMinute = v.tpmMinute :=
    fun hstage => worker_key h fun hpc => hstage (stage_of_setup hpc)
  -- a record goes to the bucket of the worker's key and minute
  have hrecord : ∀ tokens : ℕ, v.stage ≠ .fresh → v.stage.booked = false →
      m.access = v.tpmAccess w tokens →
      (m.next.adjusted key minute = if m.next.apiKeyId = some key ∧ m.next.tpmMinute = some minute then
        (tokens : ℤ) - TPM_ESTIMATED_TOKENS else 0) →
      m.next.adjusted key minute = v.adjusted key minute + m.access.tpmAdded key minute := by
    intro tokens hstage hopen ha hadjusted
    obtain ⟨hkey, hminute⟩ := hkeys hstage
    rw [hadjusted, adjusted_zero hopen, ha, tpmAccess_added, zero_add, hkey, hminute]
    by_cases hk : v.apiKeyId = some key
    · obtain ⟨minute', hm, -⟩ := hv.dated hk
      simp [hk, hm]
    · simp [hk]
  cases v.stage_moved h with
  | spawned hpc hnext ha =>
    refine hnone ?_ ?_ (by rw [ha]; rfl)
    · rw [Worker.stage, hpc]
      rfl
    · rw [Worker.stage, hnext]
      rfl
  | entered hpc he hnext hkey hminute ha =>
    exact hnone (by rw [stage_of_setup hpc]; rfl) (by rw [hnext]; rfl) (by rw [ha]; rfl)
  | cancelled hpc he hcancelled hnext hkey ha =>
    exact hnone (by rw [stage_of_setup hpc]; rfl) (by rw [hnext]; rfl) (by rw [ha]; rfl)
  | absent hpc he hnext hkey ha =>
    exact hnone (by rw [stage_of_setup hpc]; rfl) (by rw [hnext]; rfl) (by rw [ha]; rfl)
  | stays hstage hnext hadds hends =>
    obtain ⟨hkey, hminute⟩ := hkeys hstage
    rw [hadds, add_zero]
    cases hbooked : v.stage.booked with
    | false => rw [adjusted_zero hbooked, adjusted_zero (by rw [hnext, hbooked])]
    | true =>
      have htokens := tokens_kept h fun hrunning => by rw [hrunning] at hbooked; cases hbooked
      rw [Worker.adjusted, Worker.adjusted, hkey, hminute, hnext, htokens]
  | fails hpc hnext ha =>
    have hstage : v.stage = .running := by rw [Worker.stage, hpc]; rfl
    exact hnone (by rw [hstage]; rfl) (by rw [hnext]; rfl) (by rw [ha]; rfl)
  | finalizes hstage hnext ha =>
    exact hnone (by rw [hstage]; rfl) (by rw [hnext]; rfl) (by rw [ha]; rfl)
  | failsRow hstage hnext ha =>
    exact hnone (by rw [hstage]; rfl) (by rw [hnext]; rfl) (by rw [ha]; rfl)
  | records hstage hnext ha =>
    refine hrecord v.ts.tokenCount (by rw [hstage]; rintro ⟨⟩) (by rw [hstage]; rfl) ha ?_
    rw [Worker.adjusted, hnext, tokens_kept h (by rw [hstage]; rintro ⟨⟩)]
  | refunds hstage hnext ha =>
    refine hrecord 0 (by rw [hstage]; rintro ⟨⟩) (by rw [hstage]; rfl) ha ?_
    rw [Worker.adjusted, hnext, Nat.cast_zero, zero_sub]
  | loses hwhy hstage hnext hadds hends =>
    exact hnone (by rw [hstage]; rfl) (by rw [hnext]; rfl) (hadds key minute)

/-- A worker that ends the row of its job owes the record from then on. -/
theorem worker_ends {w : World} {v : Worker} {m : Moved Worker} (h : v.step w choice = some m)
    {j : Uuid} (hlost : v.stage ≠ .lost) (hj : m.access.endsRow = some j) :
    v.uuid = j ∧ m.next.stage.ended = true := by
  have htpm : ∀ tokens, (v.tpmAccess w tokens).endsRow = none := by
    intro tokens
    unfold Worker.tpmAccess
    split
    · rfl
    · dsimp only
      split <;> rfl
  cases v.stage_moved h with
  | finalizes hstage hnext ha =>
    rw [ha] at hj
    exact ⟨Option.some.inj hj, by rw [hnext]; rfl⟩
  | failsRow hstage hnext ha =>
    rw [ha] at hj
    exact ⟨Option.some.inj hj, by rw [hnext]; rfl⟩
  | stays hstage hnext hadds hends =>
    rw [hends.resolve_left hlost] at hj
    cases hj
  | records hstage hnext ha =>
    rw [ha, htpm] at hj
    cases hj
  | refunds hstage hnext ha =>
    rw [ha, htpm] at hj
    cases hj
  | loses hwhy hstage hnext hadds hends =>
    rw [hends] at hj
    cases hj
  | spawned hpc hnext ha => rw [ha] at hj; cases hj
  | entered hpc he hnext hkey hminute ha => rw [ha] at hj; cases hj
  | cancelled hpc he hcancelled hnext hkey ha => rw [ha] at hj; cases hj
  | absent hpc he hnext hkey ha => rw [ha] at hj; cases hj
  | fails hpc hnext ha => rw [ha] at hj; cases hj

theorem ended_kept {w : World} {v : Worker} {m : Moved Worker} (h : v.step w choice = some m)
    (hv : v.stage.ended = true) : m.next.stage.ended = true := by
  cases v.stage_moved h with
  | stays hstage hnext hadds hends => rw [hnext]; exact hv
  | records hstage hnext ha => rw [hnext]; rfl
  | refunds hstage hnext ha => rw [hnext]; rfl
  | finalizes hstage hnext ha => rw [hnext]; rfl
  | failsRow hstage hnext ha => rw [hnext]; rfl
  | spawned hpc hnext ha => rw [Worker.stage, hpc] at hv; cases hv
  | entered hpc he hnext hkey hminute ha => rw [stage_of_setup hpc] at hv; cases hv
  | cancelled hpc he hcancelled hnext hkey ha => rw [stage_of_setup hpc] at hv; cases hv
  | absent hpc he hnext hkey ha => rw [stage_of_setup hpc] at hv; cases hv
  | fails hpc hnext ha => rw [Worker.stage, hpc] at hv; cases hv
  | loses hwhy hstage hnext hadds hends => rw [hstage] at hv; cases hv

/-- A worker starts in its setup. -/
theorem started_kept {w : World} {v : Worker} {m : Moved Worker} (h : v.step w choice = some m)
    (hpc : v.pc ≠ .setup) (hnext : m.next.stage ≠ .fresh) : v.stage ≠ .fresh := by
  cases v.stage_moved h with
  | stays hstage _ _ _ => exact hstage
  | records hstage _ _ => rw [hstage]; rintro ⟨⟩
  | refunds hstage _ _ => rw [hstage]; rintro ⟨⟩
  | finalizes hstage _ _ => rw [hstage]; rintro ⟨⟩
  | failsRow hstage _ _ => rw [hstage]; rintro ⟨⟩
  | spawned _ hnext' _ => exact absurd (stage_of_setup hnext') hnext
  | entered hpc' _ _ _ _ _ => exact absurd hpc' hpc
  | cancelled hpc' _ _ _ _ _ => exact absurd hpc' hpc
  | absent hpc' _ _ _ _ => exact absurd hpc' hpc
  | fails hpc' _ _ => rw [Worker.stage, hpc']; rintro ⟨⟩
  | loses _ hstage _ _ _ => rw [hstage]; rintro ⟨⟩

theorem submit_frame {w : World} {s : Submit} {m : Moved Submit} (h : s.step w = some m) :
    m.next.req = s.req ∧ m.next.pc ≠ .create ∧ ∀ i r, m.access = .newJob i r → s.pc = .create := by
  obtain ⟨inst, req, pc⟩ := s
  cases pc
  case enqueue job =>
    obtain rfl := Option.some.inj h
    refine ⟨rfl, fun heq => ?_, fun i r ha => ?_⟩
    · simp only [Submit.goto] at heq
      split at heq <;> cases heq
    · cases ha
  all_goals simp only [Submit.step] at h
  all_goals repeat' (split at h)
  all_goals first
    | (obtain rfl := Option.some.inj h
       refine ⟨rfl, fun heq => ?_, fun _ _ _ => rfl⟩
       cases heq)
    | (obtain rfl := Option.some.inj h
       refine ⟨rfl, fun heq => ?_, fun i r ha => ?_⟩
       · cases heq
       · cases ha)
    | cases h

theorem submit_onBooks {w : World} {s : Submit} {m : Moved Submit} (hs : s.OnBooks key due)
    (hmade : ∀ minute j, due minute j → j < w.nextJob) (h : s.step w = some m) :
    m.next.OnBooks key due := by
  obtain ⟨hreq, hpc, hcreate⟩ := submit_frame h
  refine ⟨fun hcreated => absurd hcreated hpc, fun j hj => ?_⟩
  rw [hreq]
  obtain ⟨-, hold | ⟨ha, rfl⟩⟩ := submit_building h hj
  · exact hs.building j hold
  · refine iff_of_false (hs.create (hcreate _ _ ha)) ?_
    rintro ⟨minute, hdue⟩
    exact absurd (hmade minute _ hdue) (Nat.lt_irrefl _)

theorem JobEntry.OnBooks.update {e : JobEntry} {j : Uuid} (he : e.OnBooks key due j)
    (u : EntryUpdate) : (u.apply e).OnBooks key due j := by
  have hkey : (u.apply e).apiKeyId = e.apiKeyId := by cases u <;> rfl
  have hreserved := (u.sameOrigin e).reserved
  refine ⟨fun minute hminute => ?_, fun minute hminute => ?_⟩
  · rw [hkey]
    exact he.keyed minute (hreserved ▸ hminute)
  · exact he.dated minute (hreserved ▸ hminute)

/-- Who makes an entry puts the key and the minute of its reservation in it, or no minute. -/
theorem made_onBooks {t : Task} {m : Moved Task} {i : InstanceId} {j : Uuid} {e : JobEntry}
    (ht : t.OnBooks key due) (hok : t.Reconciles key due c choice)
    (h : t.step c.world choice = some m)
    (ha : m.access = .insertEntry i j e ∨ m.access = .orInsertEntry i j e) :
    e.OnBooks key due j := by
  rcases entry_made h ha with ⟨s, job, cell, rfl, hpc, rfl, rfl⟩ | ⟨job, rfl⟩ | ⟨job, -, rfl⟩
  · have hbuilding : s.pc.building = some job.id := by rw [hpc]; rfl
    refine ⟨fun _ _ => ht.building job.id hbuilding, fun minute hminute hdue => ?_⟩
    obtain ⟨minute', hdue'⟩ := hdue
    have hnow := hok.submit s job cell rfl hpc minute' hdue'
    have hmine : c.world.now / 60000 = minute := Option.some.inj hminute
    rw [← hmine, ← hnow]
    exact hdue'
  · exact ⟨by rintro _ ⟨⟩, by rintro _ ⟨⟩⟩
  · exact ⟨by rintro _ ⟨⟩, by rintro _ ⟨⟩⟩

theorem spawn_onBooks (s : Spawn) : s.task.OnBooks key due := by
  cases s with
  | run args =>
    exact ⟨fun _ => ⟨rfl, rfl⟩, fun hstage => absurd rfl hstage, by rintro ⟨⟩, by rintro ⟨⟩,
      by rintro ⟨⟩⟩
  | _ => trivial

theorem task_onBooks {t : Task} {m : Moved Task} (hc : c.Books key due) (ht : t ∈ c.tasks)
    (hok : t.Reconciles key due c choice) (h : t.step c.world choice = some m) :
    m.next.OnBooks key due := by
  have hbooks := hc.tasks t ht
  cases Task.step_moved h with
  | submit hs => exact submit_onBooks hbooks hc.made hs
  | @run v n hs =>
    exact worker_onBooks hbooks (fun e he => hc.entries _ _ e he) (hok.run v rfl) hs
  | _ => trivial

theorem task_adjusted {t : Task} {m : Moved Task} (ht : t.OnBooks key due)
    (h : t.step c.world choice = some m) (minute : ℕ) :
    m.next.adjusted key minute = t.adjusted key minute + m.access.tpmAdded key minute := by
  have hplain : (∀ v, t ≠ .run v) → m.access.tpmAdded key minute = 0 :=
    fun hrun => tpmAdded_of_plain (task_byWorker h hrun)
  cases Task.step_moved h with
  | run hs => exact worker_adjusted ht hs minute
  | _ =>
    rw [hplain (fun v hv => by cases hv)]
    exact (add_zero (0 : ℤ)).symm

/-- A worker of the job starts where there is none. -/
theorem task_startedOn {t : Task} {m : Moved Task} {j : Uuid} (ht : t ∈ c.tasks)
    (hok : t.Reconciles key due c choice) (h : t.step c.world choice = some m)
    (hj : ∃ minute, due minute j) :
    m.next.startedOn j ≤ t.startedOn j ∨ ∀ u ∈ c.tasks, u.startedOn j = 0 := by
  cases Task.step_moved h with
  | @run v n hs =>
    obtain ⟨huuid, -⟩ := step_uuid hs
    by_cases hcond : n.next.uuid = j ∧ n.next.stage ≠ .fresh
    · rw [huuid] at hcond
      obtain ⟨rfl, hstage⟩ := hcond
      by_cases hpc : v.pc = .setup
      · right
        have hsites := (hok.run v rfl (.inl hj)).2
        rw [hpc] at hsites
        exact hsites.2
      · left
        have hold := started_kept hs hpc hstage
        have hone : (Task.run v).startedOn v.uuid = 1 := if_pos ⟨rfl, hold⟩
        rw [hone]
        show (if _ then 1 else 0) ≤ 1
        split <;> omega
    · left
      have hzero : (Task.run n.next).startedOn j = 0 := if_neg hcond
      show (Task.run n.next).startedOn j ≤ _
      rw [hzero]
      exact Nat.zero_le _
  | _ => exact .inl (Nat.zero_le _)

theorem Config.Books.run (hc : c.Books key due) (ht₀ : t.SavesPending)
    (hok : t.Reconciles key due c choice) (hm : t.step c.world choice = some m)
    (hreplaced : Replaced c.tasks t m.next (m.spawned.map Spawn.task) others tasks) :
    Config.Books key due { world := c.world.apply m.access, tasks } := by
  have ht := hreplaced.task_mem
  refine ⟨fun minute j hdue => ?_, ?_, fun i j e he => ?_, fun j hj => ?_, fun j hj hended => ?_,
    fun minute => ?_⟩
  · exact Nat.lt_of_lt_of_le (hc.made minute j hdue) (nextJob_le_apply c.world m.access)
  · refine hreplaced.forall_mem (fun u hu => hc.tasks u (hreplaced.other_mem_before hu))
      (task_onBooks hc ht hok hm) fun u hu => ?_
    obtain ⟨s, -, rfl⟩ := List.mem_map.mp hu
    exact spawn_onBooks s
  · rcases apply_jobs he with hold | ⟨e₀, u, he₀, -, rfl⟩ | ha | ⟨-, ha⟩
    · exact hc.entries i j e hold
    · exact (hc.entries i j e₀ he₀).update u
    · exact made_onBooks (hc.tasks t ht) hok hm (.inl ha)
    · exact made_onBooks (hc.tasks t ht) hok hm (.inr ha)
  · have hbefore := hreplaced.weight_before (Task.startedOn j)
    have hafter := hreplaced.weight_after (Task.startedOn j)
    have hspawned : weight (Task.startedOn j) (m.spawned.map Spawn.task) = 0 := by
      refine (weight_eq_zero _).mpr fun u hu => ?_
      obtain ⟨s, -, rfl⟩ := List.mem_map.mp hu
      cases s with
      | run args => exact if_neg fun hcond => hcond.2 rfl
      | _ => rfl
    have honce := hc.once j hj
    have hle : m.next.startedOn j ≤ 1 := by
      cases m.next with
      | run v =>
        show (if _ then 1 else 0) ≤ 1
        split <;> omega
      | _ => exact Nat.zero_le _
    show weight (Task.startedOn j) tasks ≤ 1
    rcases task_startedOn ht hok hm hj with hstep | hnone
    · omega
    · have hzero := (weight_eq_zero (Task.startedOn j)).mpr hnone
      omega
  · have hmoved : ∀ v, .run v ∈ c.tasks → v.uuid = j → v.stage.ended = true →
        ∃ v', .run v' ∈ tasks ∧ v'.uuid = j ∧ v'.stage.ended = true := by
      intro v hv huuid hstage
      rcases hreplaced.mem_before.mp hv with rfl | hother
      · cases Task.step_moved hm with
        | @run _ n hs =>
          exact ⟨n.next, hreplaced.successor_mem, (step_uuid hs).1.trans huuid, ended_kept hs hstage⟩
      · exact ⟨v, hreplaced.other_mem hother, huuid, hstage⟩
    have hbefore : c.world.RowEnded j → ∃ v', .run v' ∈ tasks ∧ v'.uuid = j ∧ v'.stage.ended = true := by
      intro hrow
      obtain ⟨v, hv, huuid, hstage⟩ := hc.rows j hj hrow
      exact hmoved v hv huuid hstage
    rcases rowEnded_apply hended with hrow | hends
    · exact hbefore hrow
    · cases t with
      | run v =>
        cases Task.step_moved hm with
        | @run _ n hs =>
          by_cases hlost : v.stage = .lost
          · -- no worker of an owned job is lost
            have huuid := worker_rowId hs (rowId_of_endsRow hends)
            have hkeyed := ((hc.tasks _ ht).keyed (by rw [hlost]; rintro ⟨⟩)).mpr
              (by rw [huuid]; exact hj)
            exact absurd hlost ((hc.tasks _ ht).kept hkeyed)
          · obtain ⟨rfl, hstage⟩ := worker_ends hs hlost hends
            exact ⟨n.next, hreplaced.successor_mem, (step_uuid hs).1, hstage⟩
      | _ =>
        have hplain := task_byWorker hm (fun v hv => by cases hv)
        rw [endsRow_of_plain hplain] at hends
        exact hbefore (hok.row j (fun v hv => by cases hv) (task_failsRow ht₀ hm hends).1 hj)
  · have hbefore := hreplaced.weight_before (Task.adjusted key minute)
    have hafter := hreplaced.weight_after (Task.adjusted key minute)
    have hspawned : weight (Task.adjusted key minute) (m.spawned.map Spawn.task) = 0 := by
      refine weight_zero fun u hu => ?_
      obtain ⟨s, -, rfl⟩ := List.mem_map.mp hu
      cases s with
      | run args => exact adjusted_zero rfl
      | _ => rfl
    have hstep := task_adjusted (hc.tasks t ht) hm minute
    have hledger := hc.ledger minute
    show (c.world.apply m.access).tpm key minute = weight (Task.adjusted key minute) tasks
    rw [apply_tpm]
    omega

theorem killed_kept {inst : InstanceId} {P : Task → Prop} (hkilled : P .killed)
    (h : ∀ t ∈ c.tasks, P t) : ∀ t ∈ (c.restarted inst).tasks, P t := by
  intro t ht
  obtain ⟨u, hu, rfl⟩ := List.mem_map.mp ht
  split
  · exact hkilled
  · exact h u hu

theorem Config.Books.env {a : Action} (hc : c.Books key due) (hok : c.Reconciles key due a)
    (h : ConfigMoved c a c') (ha : ∀ k choice, a ≠ .run k choice)
    (hstart : ∀ inst req, a = .start (.submit inst req) → req.apiKeyId ≠ some key) :
    c'.Books key due := by
  cases h with
  | @start s hcan =>
    have hzero : ∀ j, Task.startedOn j (c.started s) = 0 := by
      intro j
      cases s <;> rfl
    have hnone : ∀ minute, (c.started s).adjusted key minute = 0 := by
      intro minute
      cases s <;> rfl
    refine ⟨hc.made, fun t ht => ?_, hc.entries, fun j hj => ?_, fun j hj hended => ?_, fun minute => ?_⟩
    · rcases List.mem_append.mp ht with ht | ht
      · exact hc.tasks t ht
      · obtain rfl := List.mem_singleton.mp ht
        cases s with
        | submit inst req => exact ⟨fun _ => hstart inst req rfl, by rintro _ ⟨⟩⟩
        | _ => trivial
    · rw [weight_append, weight_cons, hzero, weight_nil]
      exact hc.once j hj
    · obtain ⟨v, hv, hrest⟩ := hc.rows j hj hended
      exact ⟨v, List.mem_append_left _ hv, hrest⟩
    · rw [weight_append, weight_cons, hnone, weight_nil, add_zero, add_zero]
      exact hc.ledger minute
  | run ht hm hreplaced hothers => exact absurd rfl (ha _ _)
  | restart inst =>
    -- no worker that ended its row is killed
    have hkept : ∀ v, .run v ∈ c.tasks → v.apiKeyId = some key → v.stage.ended = true →
        ¬ ((Task.run v).inst? = some inst ∧ (Task.run v).ended = false) := by
      rintro v hv hkey hstage ⟨hinst, hopen⟩
      rw [hok v hv (Option.some.inj hinst) hkey hstage] at hopen
      cases hopen
    refine ⟨hc.made, killed_kept trivial hc.tasks, fun i j e he => ?_, fun j hj => ?_,
      fun j hj hended => ?_, fun minute => ?_⟩
    · by_cases hi : i = inst
      · subst hi
        simp [Config.restarted] at he
      · exact hc.entries i j e (by simpa [Config.restarted, Function.update_of_ne hi] using he)
    · refine (weight_map_le _ fun t _ => ?_).trans (hc.once j hj)
      split
      · exact Nat.zero_le _
      · exact le_rfl
    · obtain ⟨v, hv, rfl, hstage⟩ := hc.rows j hj hended
      have hkey := ((hc.tasks _ hv).keyed (fun hfresh => by rw [hfresh] at hstage; cases hstage)).mpr hj
      exact ⟨v, List.mem_map.mpr ⟨.run v, hv, if_neg (hkept v hv hkey hstage)⟩, rfl, hstage⟩
    · rw [show (c.restarted inst).world.tpm = c.world.tpm from rfl, hc.ledger minute]
      show weight _ c.tasks = weight _ (c.tasks.map _)
      rw [weight, weight, List.map_map]
      refine congrArg List.sum (List.map_congr_left fun t ht => ?_)
      show t.adjusted key minute = Task.adjusted key minute (if _ then _ else _)
      split
      · next hcond =>
        cases t with
        | run v =>
          by_cases hbooked : v.stage.booked = true
          · by_cases hkey : v.apiKeyId = some key
            · have hstage : v.stage.ended = true := by
                cases hs : v.stage <;> rw [hs] at hbooked <;> first | rfl | cases hbooked
              exact absurd hcond (hkept v ht hkey hstage)
            · exact if_neg fun hboth => hkey hboth.1
          · exact adjusted_zero (by simpa using hbooked)
        | _ => rfl
      · rfl
  | tick elapsed => exact ⟨hc.made, hc.tasks, hc.entries, hc.once, hc.rows, hc.ledger⟩
  | owner id inst => exact ⟨hc.made, hc.tasks, hc.entries, hc.once, hc.rows, hc.ledger⟩
  | heartbeat inst alive => exact ⟨hc.made, hc.tasks, hc.entries, hc.once, hc.rows, hc.ledger⟩

end Books

end Veronex
