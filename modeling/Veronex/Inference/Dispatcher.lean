import Veronex.Inference.World

/-! # One pass of `queue_dispatcher_loop`

`application/use_cases/inference/dispatcher.rs`. A pass peeks the queue, loads the jobs it sees from
the instance's own map or else from Postgres, sorts them and tries them until one is dispatched.
What `filter_candidates` and `score_and_claim` find depends on the providers and is a choice.
-/
namespace Veronex
set_option autoImplicit false

def LOCALITY_BONUS_MS : ℚ := 20000

/-- A loaded job of the window. `submitted` is kept for the statements: the job was loaded from an
entry with a TPM reservation, which only `submit` makes. -/
structure Candidate where
  uuid : Uuid
  zsetScore : ℕ
  job : InferenceJob
  geminiTier : Option String
  keyTier : Option KeyTier
  submitted : Bool

/-- `zset_score - locality - age`. -/
def Candidate.finalScore (c : Candidate) (now : Millis) (loaded : String → Bool)
    (perfFactor : ℚ) : ℚ :=
  let locality := if loaded c.job.modelName.asStr then LOCALITY_BONUS_MS else 0
  let wait : ℚ := max ((now : ℚ) - c.zsetScore) 0
  c.zsetScore - locality - wait * (1 / 4) * perfFactor

/-- `adaptive_k`. -/
def adaptiveK (len : ℕ) : ℕ :=
  if ZSET_PEEK_K * 3 < len then min (len / 3) ZSET_PEEK_K_MAX else ZSET_PEEK_K

/-- The entry made for a job that is not in memory. -/
def adoptedEntry (w : World) (inst : InstanceId) (id : Uuid) (job : InferenceJob) : JobEntry :=
  { job, status := job.status, tokens := [], done := false, apiKeyId := none
    notify := w.cell .notify inst id 0, cancelNotify := w.cell .cancelNotify inst id 1
    geminiTier := none, keyTier := none, tpmReservationMinute := none
    assignedProviderId := none, visionAnalysis := none
    persistedToS3 := w.cell .persistedToS3 inst id 2 }

/-- The steps of `fail_job_no_provider` and of the clean-up before it. -/
inductive FailPc
  | lease
  | misses
  | decrPending
  | entry
  | notify (cell : Cell)
  | row
  deriving DecidableEq

inductive DispatchPc
  | len
  | peek (k : ℕ)
  | load (now : Millis) (todo : List (Uuid × ℕ)) (scored : List Candidate)
  | fetch (now : Millis) (id : Uuid) (score : ℕ) (todo : List (Uuid × ℕ)) (scored : List Candidate)
  | dropMissing (now : Millis) (id : Uuid) (todo : List (Uuid × ℕ)) (scored : List Candidate)
  | adopt (now : Millis) (id : Uuid) (score : ℕ) (job : InferenceJob) (todo : List (Uuid × ℕ))
      (scored : List Candidate)
  | sort (now : Millis) (scored : List Candidate)
  | attempt (rest : List Candidate)
  | countMiss (c : Candidate) (rest : List Candidate)
  | claimToFail (c : Candidate) (rest : List Candidate)
  | failJob (c : Candidate) (rest : List Candidate) (pc : FailPc)
  | resetMisses (c : Candidate) (provider : Option (ProviderId × Bool)) (rest : List Candidate)
  | claim (c : Candidate) (provider : ProviderId × Bool) (rest : List Candidate)
  | assign (c : Candidate) (provider : ProviderId × Bool)
  | setOwner (c : Candidate) (provider : ProviderId × Bool)
  | finished

structure Dispatch where
  inst : InstanceId
  pc : DispatchPc

namespace Dispatch

def goto (d : Dispatch) (pc : DispatchPc) : Dispatch := { d with pc }

/-- `fail_job_no_provider`. -/
def failStep (w : World) (d : Dispatch) (c : Candidate) (rest : List Candidate) (pc : FailPc) :
    Moved Dispatch :=
  let next pc := d.goto (.failJob c rest pc)
  let reason := "no eligible provider for this model"
  match pc with
  | .lease => { access := .leaseRemove c.uuid, next := next .misses }
  | .misses => { access := .removeNoProvider c.uuid, next := next .decrPending }
  | .decrPending => { access := .incrPending (-1), next := next .entry }
  | .entry =>
    match w.jobs d.inst c.uuid with
    | none => { access := .read, next := next .row }
    | some e =>
      { access := .updateEntry d.inst c.uuid (.failed reason "no_eligible_provider")
        next := next (.notify e.notify) }
  | .notify cell => { access := .notifyOne cell, next := next .row }
  | .row =>
    { access := .failRow c.uuid "no_eligible_provider" (some reason), next := d.goto (.attempt rest)
      spawned := [.cleanup d.inst c.uuid (w.now + JOB_CLEANUP_DELAY)] }

/-- Loads the next job of the window, from memory if it is there. -/
def loadStep (w : World) (d : Dispatch) (now : Millis) (scored : List Candidate) :
    List (Uuid × ℕ) → Moved Dispatch
  | [] => { access := .read, next := d.goto (if scored.isEmpty then .finished else .sort now scored) }
  | (id, score) :: todo =>
    match w.jobs d.inst id with
    | some e =>
      let c : Candidate :=
        { uuid := id, zsetScore := score, job := e.job, geminiTier := e.geminiTier
          keyTier := e.keyTier, submitted := e.tpmReservationMinute.isSome }
      { access := .read, next := d.goto (.load now todo (scored ++ [c])) }
    | none => { access := .read, next := d.goto (.fetch now id score todo scored) }

/-- Looks for a provider for the best candidate left. -/
def attemptStep (d : Dispatch) (choice : Choice) : List Candidate → Option (Moved Dispatch)
  | [] => some { access := .read, next := d.goto .finished }
  | c :: rest =>
    match choice with
    | .noCandidates => some { access := .read, next := d.goto (.countMiss c rest) }
    | .busy => some { access := .read, next := d.goto (.resetMisses c none rest) }
    | .provider id isFreeTier =>
      some { access := .read, next := d.goto (.resetMisses c (some (id, isFreeTier)) rest) }
    | _ => none

def step (w : World) (d : Dispatch) (choice : Choice) : Option (Moved Dispatch) :=
  match d.pc with
  | .len => some { access := .read, next := d.goto (.peek (adaptiveK w.queue.zcard)) }
  | .peek k =>
    let window := w.zsetPeek k
    some { access := .read
           next := d.goto (if window = [] then .finished else .load w.now window []) }
  | .load now todo scored => some (loadStep w d now scored todo)
  | .fetch now id score todo scored =>
    match w.getJob id with
    | .ok (some job) => some { access := .read, next := d.goto (.adopt now id score job todo scored) }
    | .ok none => some { access := .read, next := d.goto (.dropMissing now id todo scored) }
    | .error _ => some { access := .read, next := d.goto (.load now todo scored) }
  | .dropMissing now id todo scored =>
    some { access := .zsetCancel id "", next := d.goto (.load now todo scored) }
  | .adopt now id score job todo scored =>
    let c : Candidate :=
      { uuid := id, zsetScore := score, job, geminiTier := none, keyTier := none
        submitted := false }
    some { access := .orInsertEntry d.inst id (adoptedEntry w d.inst id job)
           next := d.goto (.load now todo (scored ++ [c])) }
  | .sort now scored =>
    match choice with
    | .scores loaded perfFactor =>
      let sorted := scored.insertionSort fun a b =>
        a.finalScore now loaded perfFactor ≤ b.finalScore now loaded perfFactor
      some { access := .read, next := d.goto (.attempt sorted) }
    | _ => none
  | .attempt rest => attemptStep d choice rest
  | .countMiss c rest =>
    let attempts := w.noProviderAttempts c.uuid + 1
    some { access := .incrNoProvider c.uuid
           next := d.goto
             (if attempts < MAX_NO_PROVIDER_ATTEMPTS then .attempt rest else .claimToFail c rest) }
  | .claimToFail c rest =>
    let claimed := (w.queue.zsetClaim w.active c.uuid c.job.modelName.asStr w.now).2.2
    some { access := .zsetClaim c.uuid c.job.modelName.asStr w.now
           next := d.goto (if claimed then .failJob c rest .lease else .attempt rest) }
  | .failJob c rest pc => some (failStep w d c rest pc)
  | .resetMisses c provider rest =>
    some { access := .removeNoProvider c.uuid
           next := d.goto (match provider with
             | some p => .claim c p rest
             | none => .attempt rest) }
  | .claim c provider rest =>
    let claimed := (w.queue.zsetClaim w.active c.uuid c.job.modelName.asStr w.now).2.2
    some { access := .zsetClaim c.uuid c.job.modelName.asStr w.now
           next := d.goto (if claimed then .assign c provider else .attempt rest) }
  | .assign c provider =>
    some { access := .updateEntry d.inst c.uuid (.assigned provider.1)
           next := d.goto (.setOwner c provider) }
  | .setOwner c provider =>
    some { access := .setOwner c.uuid d.inst, next := d.goto .finished
           spawned := [.run { inst := d.inst, uuid := c.uuid, job := c.job, providerId := provider.1
                              isFreeTier := provider.2 }] }
  | .finished => none

end Dispatch

end Veronex
