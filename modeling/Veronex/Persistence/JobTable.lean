import Veronex.Inference.Cluster

/-! # The statements on `inference_jobs`

`save`, `cancel_job`, `fail_with_reason` and `finalize` of
`infrastructure/outbound/persistence/job_repository.rs` and the batch reset of
`reenqueue_reaped_jobs_batch`. Postgres runs each statement atomically on the row it names, so the
order in which racing paths reach a row is a list of statements.

The guards differ: `cancel_job` passes over completed and failed rows but writes a cancelled one
again, `finalize` does the same with completed rows, `fail_with_reason` touches no terminal row.
What they share is that the status of a terminal row stays (`JobRow.*_status`). The tasks of an
instance run the same statements one access at a time (`apply_rows_of_access`).
-/
namespace Veronex
set_option autoImplicit false

namespace JobRow

/-- The row part of `UPDATE inference_jobs SET status = 'pending', started_at = NULL WHERE ..
status = 'running'`. -/
def resetReaped (row : JobRow) : JobRow :=
  if row.status = .running then { row with status := .pending, startedAt := none } else row

variable {row : JobRow}

theorem cancel_status (h : row.status.isTerminal) (cancelledAt : Millis) :
    (row.cancel cancelledAt).status = row.status := by
  unfold cancel
  split
  · rfl
  · next hne =>
    -- only a cancelled row is terminal and passes the guard, and it is cancelled again
    show JobStatus.cancelled = row.status
    cases hs : row.status <;> simp_all [JobStatus.isTerminal]

theorem failWithReason_status (h : row.status.isTerminal) (reason : String)
    (errorMsg : Option String) : (row.failWithReason reason errorMsg).status = row.status := by
  rw [failWithReason, if_pos h]

theorem finalize_status (h : row.status.isTerminal) (m : FinalMetrics) :
    (row.finalize m).status = row.status := by
  unfold finalize
  split
  · rfl
  · next hne =>
    show JobStatus.completed = row.status
    cases hs : row.status <;> simp_all [JobStatus.isTerminal]

theorem resetReaped_status (h : row.status.isTerminal) :
    row.resetReaped.status = row.status := by
  have hne : row.status ≠ .running := by
    intro hs
    rw [hs] at h
    cases h
  rw [resetReaped, if_neg hne]

end JobRow

/-! ## The table -/

abbrev JobTable := Uuid → Option JobRow

/-- A statement with what it binds. -/
inductive SqlUpdate
  | save (job : InferenceJob)
  | cancelJob (id : Uuid) (cancelledAt : Millis)
  | failWithReason (id : Uuid) (reason : String) (errorMsg : Option String)
  | finalize (id : Uuid) (metrics : FinalMetrics)
  /-- The reaper's batch: `id = ANY($1)`. -/
  | resetReaped (ids : List Uuid)

namespace JobTable

/-- `UPDATE .. WHERE id = $1 AND ..`. -/
def updateRow (t : JobTable) (id : Uuid) (f : JobRow → JobRow) : JobTable :=
  Function.update t id ((t id).map f)

/-- One statement. `hashes` is `compute_message_hashes`, which `save` calls. -/
def exec (hashes : Json → Option (String × String)) (t : JobTable) : SqlUpdate → JobTable
  | .save job =>
    -- ON CONFLICT (id) DO NOTHING
    Function.update t job.id ((t job.id).or (some (JobRow.ofJob hashes job)))
  | .cancelJob id cancelledAt => t.updateRow id (·.cancel cancelledAt)
  | .failWithReason id reason errorMsg => t.updateRow id (·.failWithReason reason errorMsg)
  | .finalize id metrics => t.updateRow id (·.finalize metrics)
  | .resetReaped ids => fun id => if id ∈ ids then (t id).map JobRow.resetReaped else t id

def execAll (hashes : Json → Option (String × String)) (t : JobTable) (us : List SqlUpdate) :
    JobTable :=
  us.foldl (exec hashes) t

/-- The status column of the row of a job. -/
def statusOf (t : JobTable) (id : Uuid) : Option JobStatus := (t id).map JobRow.status

variable {hashes : Json → Option (String × String)} {t : JobTable} {id : Uuid} {st : JobStatus}

theorem statusOf_eq_some : t.statusOf id = some st ↔ ∃ row, t id = some row ∧ row.status = st :=
  Option.map_eq_some_iff

/-- An update whose guard and assignment keep terminal statuses keeps them in the table. -/
theorem updateRow_status {f : JobRow → JobRow}
    (hf : ∀ row : JobRow, row.status.isTerminal → (f row).status = row.status)
    (hterm : st.isTerminal) (h : t.statusOf id = some st) (key : Uuid) :
    (t.updateRow key f).statusOf id = some st := by
  obtain ⟨row, hrow, hst⟩ := statusOf_eq_some.mp h
  subst hst
  by_cases hkey : id = key
  · subst hkey
    have hkept : (f row).status = row.status := hf row hterm
    simpa [updateRow, statusOf, hrow] using hkept
  · simpa [updateRow, statusOf, Function.update_of_ne hkey] using h

theorem exec_status (u : SqlUpdate) (hterm : st.isTerminal) (h : t.statusOf id = some st) :
    (t.exec hashes u).statusOf id = some st := by
  cases u with
  | save job =>
    obtain ⟨row, hrow, hst⟩ := statusOf_eq_some.mp h
    by_cases hkey : id = job.id
    · have hkept : (t.exec hashes (.save job)) id = some row := by
        rw [exec, ← hkey, Function.update_self, hrow, Option.some_or]
      exact statusOf_eq_some.mpr ⟨row, hkept, hst⟩
    · simpa [exec, statusOf, Function.update_of_ne hkey] using h
  | cancelJob key cancelledAt =>
    exact updateRow_status (fun _ hr => JobRow.cancel_status hr cancelledAt) hterm h key
  | failWithReason key reason errorMsg =>
    exact updateRow_status (fun _ hr => JobRow.failWithReason_status hr reason errorMsg) hterm h key
  | finalize key metrics =>
    exact updateRow_status (fun _ hr => JobRow.finalize_status hr metrics) hterm h key
  | resetReaped ids =>
    obtain ⟨row, hrow, hst⟩ := statusOf_eq_some.mp h
    subst hst
    have hkept := JobRow.resetReaped_status hterm
    by_cases hmem : id ∈ ids
    · simpa [exec, statusOf, hmem, hrow] using hkept
    · simpa [exec, statusOf, hmem] using h

/-- Whatever statements follow, in any number and order, a row keeps the terminal status the
statements before left it with: the first terminal write decides. -/
theorem first_terminal_write_decides (hashes : Json → Option (String × String)) (t : JobTable)
    (before after : List SqlUpdate) (id : Uuid) (st : JobStatus) (hterm : st.isTerminal)
    (h : (t.execAll hashes before).statusOf id = some st) :
    (t.execAll hashes (before ++ after)).statusOf id = some st := by
  induction after using List.reverseRecOn with
  | nil => simpa using h
  | append_singleton us u ih =>
    have hlast : t.execAll hashes (before ++ (us ++ [u])) =
        (t.execAll hashes (before ++ us)).exec hashes u := by
      simp [execAll]
    rw [hlast]
    exact exec_status u hterm ih

/-- A job is cancelled before its worker finalizes it, a late failure and the reaper's reset
follow: it stays cancelled. -/
theorem cancelled_row_stays_cancelled :
    let hashes : Json → Option (String × String) := fun _ => none
    let job := newJob 0 (plainRequest "hi") ⟨"hi", by decide⟩ ⟨"m", by decide⟩ 0
    let metrics : FinalMetrics :=
      { startedAt := some 5, completedAt := 9, providerId := none, queueTimeMs := none
        latencyMs := 4, ttftMs := none, promptTokens := none, completionTokens := none
        cachedTokens := none, hasToolCalls := false, resultPreview := none }
    let table : JobTable := fun _ => none
    (table.execAll hashes ([.save job, .cancelJob 0 7] ++
      [.finalize 0 metrics, .failWithReason 0 "lifecycle" none, .resetReaped [0], .save job,
        .cancelJob 0 8])).statusOf 0 = some .cancelled := by
  intro hashes job metrics table
  exact first_terminal_write_decides hashes table [.save job, .cancelJob 0 7] _ 0 .cancelled rfl rfl

end JobTable

/-! ## The statements as accesses -/

/-- The access by which a task runs a statement; the batch reset belongs to no modelled task. -/
def SqlUpdate.access (hashes : Json → Option (String × String)) : SqlUpdate → Option Access
  | .save job => some (.saveRow (JobRow.ofJob hashes job))
  | .cancelJob id cancelledAt => some (.cancelRow id cancelledAt)
  | .failWithReason id reason errorMsg => some (.failRow id reason errorMsg)
  | .finalize id metrics => some (.finalizeRow id metrics)
  | .resetReaped _ => none

theorem apply_rows_of_access {w : World} {u : SqlUpdate} {a : Access}
    (h : u.access w.messageHashes = some a) :
    (w.apply a).rows = JobTable.exec w.messageHashes w.rows u := by
  cases u with
  | resetReaped ids => cases h
  | _ => obtain rfl := Option.some.inj h; rfl

end Veronex
