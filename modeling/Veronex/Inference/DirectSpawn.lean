import Mathlib.Logic.Relation
import Veronex.Dispatch.Scoring
import Veronex.Inference.Faults

/-! # What becomes of a job off the queue

`spawn_job_direct` of `application/use_cases/inference/dispatcher.rs` with the gates before
`run_job`: the circuit breaker, the thermal level and the pool. A job that no provider is found for
fails; one that a gate stops is left as it is, with a warning in the log.

`direct_settles_iff`: when the job is run or fails.
-/
namespace Veronex
set_option autoImplicit false

/-! ## The gates -/

/-- The gates of `spawn_job_direct`. -/
def Scoring.directGates (s : Scoring) (providerId : ProviderId) (model : String) :
    Scoring × Except Rejection VramPermit :=
  let (cb, allowed) := s.cb.isAllowed providerId s.now
  let s := { s with cb }
  if allowed = false then (s, .error .circuitBreakerOpen)
  else match s.thermalGate providerId with
    | some reason => (s, .error reason)
    | none =>
      match s.pool.tryReserve providerId model with
      | (pool, some permit) => ({ s with pool }, .ok permit)
      | (pool, none) => ({ s with pool }, .error .tryReserveNone)

/-- Every gate lets the provider pass. -/
structure Scoring.LetsThrough (s : Scoring) (providerId : ProviderId) (model : String) : Prop where
  gated : s.Gated providerId
  reserved : (s.pool.tryReserve providerId model).2.isSome

theorem Scoring.directGates_ok_iff (s : Scoring) (providerId : ProviderId) (model : String) :
    (∃ permit, (s.directGates providerId model).2 = .ok permit) ↔
      s.LetsThrough providerId model := by
  unfold directGates
  constructor
  · rintro ⟨permit, hpermit⟩
    have hallowed : (s.cb.isAllowed providerId s.now).2 = true := by
      by_contra hnot
      simp [Bool.eq_false_of_not_eq_true hnot] at hpermit
    have hgate : Scoring.thermalGate { s with cb := (s.cb.isAllowed providerId s.now).1 }
        providerId = s.thermalGate providerId := rfl
    dsimp only at hpermit
    rw [hallowed, if_neg (by decide), hgate] at hpermit
    cases hcool : s.thermalGate providerId with
    | some reason =>
      rw [hcool] at hpermit
      cases hpermit
    | none =>
      refine ⟨⟨hallowed, hcool⟩, ?_⟩
      rw [hcool] at hpermit
      dsimp only at hpermit
      split at hpermit
      next hreserve => rw [hreserve]; rfl
      next => cases hpermit
  · rintro ⟨⟨hallowed, hcool⟩, hreserved⟩
    obtain ⟨permit, hpermit⟩ := Option.isSome_iff_exists.mp hreserved
    have hgate : Scoring.thermalGate { s with cb := (s.cb.isAllowed providerId s.now).1 }
        providerId = none := hcool
    refine ⟨permit, ?_⟩
    dsimp only
    rw [hallowed, if_neg (by decide), hgate]
    dsimp only
    split
    next hreserve =>
      rw [hreserve] at hpermit
      exact congrArg Except.ok (Option.some.inj hpermit)
    next hreserve =>
      rw [hreserve] at hpermit
      cases hpermit

/-! ## The spawned task -/

/-- `fail_job_no_provider` after its `decr_pending`. -/
def World.failEntryAndRow (w : World) (inst : InstanceId) (uuid : Uuid) (reason : String) : World :=
  let w := match w.jobs inst uuid with
    | some entry =>
      (w.apply (.updateEntry inst uuid (.failed reason "no_eligible_provider"))).apply
        (.notifyOne entry.notify)
    | none => w
  w.apply (.failRow uuid "no_eligible_provider" (some reason))

/-- `fail_job_no_provider`, whose commands all succeed; without a Valkey there is no counter. -/
def World.failJobNoProvider (w : World) (valkey : Bool) (inst : InstanceId) (uuid : Uuid)
    (reason : String) : World :=
  (if valkey then w.apply (.incrPending (-1)) else w).failEntryAndRow inst uuid reason

/-- What `spawn_job_direct` has done when it returns or calls `run_job`. -/
structure DirectResult where
  world : World
  scoring : Scoring
  /-- The arguments of `run_job`, and the permit held until it returns. -/
  handed : Option (ProviderId × Bool × VramPermit)

/-- `spawn_job_direct`; `picked` is the answer of `pick_and_build`. -/
def spawnJobDirect (w : World) (s : Scoring) (valkey : Bool) (inst : InstanceId) (uuid : Uuid)
    (job : InferenceJob) (picked : Except String (ProviderId × Bool)) : DirectResult :=
  match picked with
  | .error reason =>
    { world := w.failJobNoProvider valkey inst uuid reason, scoring := s, handed := none }
  | .ok (providerId, isFree) =>
    match s.directGates providerId job.modelName.asStr with
    | (s, .ok permit) => { world := w, scoring := s, handed := some (providerId, isFree, permit) }
    | (s, .error _) => { world := w, scoring := s, handed := none }

/-! ## The job -/

/-- `notify_one` has woken the first reader, or left a permit for the next one. -/
def Notified (w w' : World) (cell : Cell) : Prop :=
  if w.waiting cell = [] then w'.permit cell = true else w'.waiting cell = (w.waiting cell).tail

/-- The job has failed: in memory with its readers notified, in the database and for the counter. -/
structure FailedEverywhere (w w' : World) (valkey : Bool) (inst : InstanceId) (uuid : Uuid) :
    Prop where
  entry : ∃ e, w'.jobs inst uuid = some e ∧ e.status = .failed ∧ e.job.status = .failed ∧
    e.done = true ∧ Notified w w' e.notify
  row : ∃ row, w'.rows uuid = some row ∧ row.status = .failed
  pending : w'.pending = w.pending - if valkey then 1 else 0

/-- The job is handed to `run_job` or has failed. -/
def DirectResult.Settles (r : DirectResult) (w : World) (valkey : Bool) (inst : InstanceId)
    (uuid : Uuid) : Prop :=
  r.handed.isSome ∨ FailedEverywhere w r.world valkey inst uuid

/-- `submit` has written the job and put it into the map, and nothing has touched it since. -/
structure Submitted (w : World) (inst : InstanceId) (uuid : Uuid) : Prop where
  entry : ∃ e, w.jobs inst uuid = some e ∧ e.status = .pending
  row : ∃ row, w.rows uuid = some row ∧ row.status = .pending

section Settles
variable {w : World} {s : Scoring} {valkey : Bool} {inst : InstanceId} {uuid : Uuid}
  {job : InferenceJob}

theorem failJobNoProvider_failed (h : Submitted w inst uuid) (valkey : Bool) (reason : String) :
    FailedEverywhere w (w.failJobNoProvider valkey inst uuid reason) valkey inst uuid := by
  obtain ⟨⟨e, hentry, -⟩, row, hrow, hstatus⟩ := h
  have hcounted : ∃ w₁ : World, (if valkey then w.apply (.incrPending (-1)) else w) = w₁ ∧
      w₁.jobs = w.jobs ∧ w₁.rows = w.rows ∧ w₁.waiting = w.waiting ∧ w₁.permit = w.permit ∧
      w₁.pending = w.pending - if valkey then 1 else 0 := by
    cases valkey with
    | false => exact ⟨w, rfl, rfl, rfl, rfl, rfl, (sub_zero _).symm⟩
    | true => exact ⟨w.apply (.incrPending (-1)), rfl, rfl, rfl, rfl, rfl, rfl⟩
  obtain ⟨w₁, hw₁, hjobs, hrows, hwaiting, hpermit, hpending⟩ := hcounted
  rw [World.failJobNoProvider, hw₁, World.failEntryAndRow, hjobs, hentry]
  dsimp only
  refine ⟨⟨EntryUpdate.apply e (.failed reason "no_eligible_provider"), ?_, rfl, rfl, rfl, ?_⟩,
    ⟨row.failWithReason "no_eligible_provider" (some reason), ?_, ?_⟩, hpending⟩
  · simp [World.apply, World.updateRow, update₂, hjobs, hentry]
  · have hnotify : (EntryUpdate.apply e (.failed reason "no_eligible_provider")).notify =
        e.notify := rfl
    rw [hnotify, Notified]
    split
    next hnone => simp [World.apply, World.updateRow, hwaiting, hnone]
    next => simp [World.apply, World.updateRow, hwaiting]
  · simp [World.apply, World.updateRow, hrows, hrow]
  · rw [JobRow.failWithReason, hstatus, if_neg (by decide)]

theorem not_failed_of_submitted (h : Submitted w inst uuid) :
    ¬ FailedEverywhere w w valkey inst uuid := by
  intro hfailed
  obtain ⟨row, hrow, hstatus⟩ := hfailed.row
  obtain ⟨row', hrow', hstatus'⟩ := h.row
  obtain rfl : row = row' := Option.some.inj (hrow.symm.trans hrow')
  rw [hstatus] at hstatus'
  cases hstatus'

/-- The job is run or fails unless a gate stops it; then nothing is done about it. -/
theorem direct_settles_iff (h : Submitted w inst uuid) (picked : Except String (ProviderId × Bool)) :
    let r := spawnJobDirect w s valkey inst uuid job picked
    (r.Settles w valkey inst uuid ↔ ∀ providerId isFree, picked = .ok (providerId, isFree) →
      s.LetsThrough providerId job.modelName.asStr) ∧
    (¬ r.Settles w valkey inst uuid → r.world = w) := by
  intro r
  cases picked with
  | error reason =>
    have hsettles : r.Settles w valkey inst uuid := .inr (failJobNoProvider_failed h valkey reason)
    refine ⟨iff_of_true hsettles ?_, fun hnot => absurd hsettles hnot⟩
    intro providerId isFree hpicked
    cases hpicked
  | ok provider =>
    obtain ⟨providerId, isFree⟩ := provider
    have hgates := s.directGates_ok_iff providerId job.modelName.asStr
    have hpicked : (∀ providerId' isFree', (Except.ok (providerId, isFree) :
        Except String (ProviderId × Bool)) = .ok (providerId', isFree') →
          s.LetsThrough providerId' job.modelName.asStr) ↔
        s.LetsThrough providerId job.modelName.asStr := by
      constructor
      · intro hall
        exact hall providerId isFree rfl
      · rintro hthrough _ _ ⟨⟩
        exact hthrough
    rw [hpicked, ← hgates]
    generalize hr : s.directGates providerId job.modelName.asStr = gates
    obtain ⟨s', granted⟩ := gates
    have hresult : r = spawnJobDirect w s valkey inst uuid job (.ok (providerId, isFree)) := rfl
    rw [spawnJobDirect, hr] at hresult
    cases granted with
    | ok permit =>
      have hsettles : r.Settles w valkey inst uuid := .inl (by rw [hresult]; rfl)
      exact ⟨iff_of_true hsettles ⟨permit, rfl⟩, fun hnot => absurd hsettles hnot⟩
    | error reason =>
      have hworld : r.world = w := by rw [hresult]
      have hnot : ¬ r.Settles w valkey inst uuid := by
        rintro (hhanded | hfailed)
        · rw [hresult] at hhanded
          cases hhanded
        · rw [hworld] at hfailed
          exact not_failed_of_submitted h hfailed
      refine ⟨iff_of_false hnot ?_, fun _ => hworld⟩
      rintro ⟨permit, hpermit⟩
      cases hpermit

end Settles

/-! ## The task -/

/-- A step of the task while no other task moves; no provider is found, or its command succeeds. -/
inductive Direct.Alone : World × Direct → World × Direct → Prop
  | notPicked {w : World} {d : Direct} {m : Moved Direct} (reason : String) (hpick : d.pc = .pick)
      (h : d.fail w .go reason = some m) : Alone (w, d) (w.apply m.access, m.next)
  | step {w : World} {d : Direct} {m : Moved Direct} (choice : Choice)
      (h : d.step w choice = some m) : Alone (w, d) (w.apply m.access, m.next)

theorem Direct.alone_failEntryAndRow (w : World) (d : Direct) (reason : String) :
    Relation.ReflTransGen Direct.Alone (w, d.goto (.failJob reason .entry))
      (w.failEntryAndRow d.inst d.job.id reason, d.goto .finished) := by
  have hrow : ∀ w' : World, Direct.Alone (w', d.goto (.failJob reason .row))
      (w'.apply (.failRow d.job.id "no_eligible_provider" (some reason)), d.goto .finished) := by
    intro w'
    have hstep : (d.goto (.failJob reason .row)).step w' .go = some (d.failStep w' reason .row) :=
      rfl
    exact Direct.Alone.step _ hstep
  unfold World.failEntryAndRow
  dsimp only
  cases hentry : w.jobs d.inst d.job.id with
  | none =>
    have hmissing : (d.goto (.failJob reason .entry)).step w .go =
        some { access := .read, next := d.goto (.failJob reason .row) } := by
      simp [Direct.step, Direct.goto, Direct.failStep, hentry]
    exact (Relation.ReflTransGen.single (.step _ hmissing)).tail (hrow w)
  | some entry =>
    have hwritten : (d.goto (.failJob reason .entry)).step w .go =
        some { access := .updateEntry d.inst d.job.id (.failed reason "no_eligible_provider")
               next := d.goto (.failJob reason (.notify entry.notify)) } := by
      simp [Direct.step, Direct.goto, Direct.failStep, hentry]
    have hnotified : ∀ w' : World, Direct.Alone
        (w', d.goto (.failJob reason (.notify entry.notify)))
        (w'.apply (.notifyOne entry.notify), d.goto (.failJob reason .row)) := by
      intro w'
      have hstep : (d.goto (.failJob reason (.notify entry.notify))).step w' .go =
          some (d.failStep w' reason (.notify entry.notify)) := rfl
      exact Direct.Alone.step _ hstep
    exact ((Relation.ReflTransGen.single (.step _ hwritten)).tail (hnotified _)).tail (hrow _)

/-- The task goes where `spawnJobDirect` does. -/
theorem Direct.alone_spawnJobDirect (w : World) (s : Scoring) (inst : InstanceId)
    (job : InferenceJob) (picked : Except String (ProviderId × Bool)) :
    let r := spawnJobDirect w s true inst job.id job picked
    let d : Direct := { inst, job, pc := .pick }
    Relation.ReflTransGen Direct.Alone (w, d)
      (r.world, d.goto (r.handed.elim .finished fun h => .run (d.worker h.1 h.2.1))) := by
  intro r d
  cases picked with
  | error reason =>
    have hpicked : d.fail w .go reason =
        some { access := .read, next := d.goto (.failJob reason .decrPending) } := rfl
    have hcounted : (d.goto (.failJob reason .decrPending)).step w .go =
        some { access := .incrPending (-1), next := d.goto (.failJob reason .entry) } := rfl
    have hbegun := (Relation.ReflTransGen.single (Direct.Alone.notPicked reason rfl hpicked)).tail
      (.step _ hcounted)
    exact hbegun.trans (Direct.alone_failEntryAndRow _ d reason)
  | ok provider =>
    obtain ⟨providerId, isFree⟩ := provider
    have hresult : r = spawnJobDirect w s true inst job.id job (.ok (providerId, isFree)) := rfl
    rw [spawnJobDirect] at hresult
    generalize s.directGates providerId job.modelName.asStr = gates at hresult
    obtain ⟨s', granted⟩ := gates
    rw [hresult]
    cases granted with
    | ok permit =>
      have hrun : d.step w (.provider providerId isFree) =
          some { access := .read, next := d.goto (.run (d.worker providerId isFree)) } := rfl
      exact .single (.step _ hrun)
    | error reason =>
      have hskipped : d.step w .busy = some { access := .read, next := d.goto .finished } := rfl
      exact .single (.step _ hskipped)

/-! ## A provider without room -/

/-- A job that `submit` has written, with its entry. -/
def waitingJob : InferenceJob :=
  newJob 0 (plainRequest "m") ⟨"m", m_ne_empty⟩ ⟨"m", m_ne_empty⟩ 1000

def waitingWorld : World :=
  let w := (World.init ⟨[0], fun _ => none, fun _ => false, true⟩).apply
    (.saveRow (.ofJob (fun _ => none) (jobForDb waitingJob)))
  let entry := submittedEntry w 0 (plainRequest "m") waitingJob (w.cell .cancelNotify 0 0 2)
  (w.apply (.insertEntry 0 0 entry)).apply (.incrPending 1)

theorem waitingWorld_submitted : Submitted waitingWorld 0 0 := ⟨⟨_, rfl, rfl⟩, _, rfl, rfl⟩

/-- Provider 1 has 8192 MB; the model takes 8000 MB, and a buffer has to stay free. -/
def roomless : Scoring :=
  { now := 0
    pool := VramPool.new.setProvider 1
      ({ ProviderVramState.fresh with totalMb := 8192 }.setModel "m" (.new 8000 false 128 1))
    thermal := .new 300, cb := .new, isStandby := fun _ => false
    preHardMaxConcurrent := fun _ _ => 0, apuMaxConcurrentCache := fun _ => 4 }

theorem roomless_job_dropped :
    ¬ (spawnJobDirect waitingWorld roomless true 0 0 waitingJob (.ok (1, false))).Settles
      waitingWorld true 0 0 := by
  have hrefused : (spawnJobDirect waitingWorld roomless true 0 0 waitingJob
      (.ok (1, false))).handed = none := by decide
  have hkept : (spawnJobDirect waitingWorld roomless true 0 0 waitingJob (.ok (1, false))).world =
      waitingWorld := rfl
  rintro (hhanded | hfailed)
  · rw [hrefused] at hhanded
    cases hhanded
  · rw [hkept] at hfailed
    exact not_failed_of_submitted waitingWorld_submitted hfailed

/-- No provider is found for the job: it fails. -/
theorem unrouted_job_fails :
    (spawnJobDirect waitingWorld roomless true 0 0 waitingJob (.error "no provider")).Settles
      waitingWorld true 0 0 := by
  refine (direct_settles_iff waitingWorld_submitted (.error "no provider")).1.mpr ?_
  intro providerId isFree hpicked
  cases hpicked

end Veronex
