import Veronex.Queue.Scripts
import Mathlib.Tactic.Common

/-! # The demand counters and the side hashes

The three scripts of the queue are called from seven places (`submit`, `recover_pending_jobs`, the
lease reaper, the dispatcher's claims, user cancel, the dispatcher's removal of a job without a row
and `queue_wait_cancel_pass`). A run is a list of such calls; the model name of a job never changes
after `submit`, so the calls of one run share it (`modelOf`).

The side hashes follow the sorted set whatever is called (`reached_indexed`). The demand counters
do exactly until the first call that `Drifts` (`demand_accurate_iff`).
-/
namespace Veronex
set_option autoImplicit false

/-! ## The calls -/

structure QueueState where
  queue : Queue
  active : JobMap Millis

def QueueState.empty : QueueState := { queue := Queue.empty, active := ∅ }

/-- A script with its arguments. -/
inductive Script
  | enqueue (jobId : Uuid) (score : ℕ) (model : String) (nowMs : Millis) (maxSize : ℕ)
      (maxPerModel : ℤ)
  | claim (jobId : Uuid) (model : String) (nowMs : Millis)
  | cancel (jobId : Uuid) (model : String)

def Script.run (s : QueueState) : Script → QueueState
  | .enqueue id score model now maxSize maxPerModel =>
    { s with queue := (s.queue.zsetEnqueue id score model now maxSize maxPerModel).1 }
  | .claim id model now =>
    let r := s.queue.zsetClaim s.active id model now
    { queue := r.1, active := r.2.1 }
  | .cancel id model => { s with queue := (s.queue.zsetCancel id model).1 }

/-- A call of a script, by the place in the source that makes it. -/
inductive QueueCall
  /-- `submit`, with the score it computed from the tier. -/
  | submit (jobId : Uuid) (score : ℕ) (nowMs : Millis)
  | recover (jobId : Uuid) (nowMs : Millis)
  /-- `processing_reaper_pass`, which enqueues without limits. -/
  | reap (jobId : Uuid) (score : ℕ) (nowMs : Millis)
  /-- Either of the dispatcher's two claims. -/
  | claim (jobId : Uuid) (nowMs : Millis)
  /-- User cancel, on an instance that has an entry for the job or on one that has none. -/
  | cancel (jobId : Uuid) (inJobs : Bool)
  /-- The dispatcher found no row for a queued job. -/
  | cancelMissing (jobId : Uuid)
  /-- `queue_wait_cancel_pass`, whose `HMGET` found the job's model or nil. -/
  | waitCancel (jobId : Uuid) (indexed : Bool)

section Calls
variable (modelOf : Uuid → ModelName)

/-- `unwrap_or_default` on the model name. -/
def modelOrDefault (known : Bool) (id : Uuid) : String :=
  if known then (modelOf id).asStr else ""

/-- The script a call runs and the arguments it passes. -/
def QueueCall.script : QueueCall → Script
  | .submit id score now =>
    .enqueue id score (modelOf id).asStr now MAX_QUEUE_SIZE MAX_QUEUE_PER_MODEL
  | .recover id now =>
    .enqueue id (now - TIER_BONUS_PAID) (modelOf id).asStr now MAX_QUEUE_SIZE MAX_QUEUE_PER_MODEL
  | .reap id score now => .enqueue id score (modelOf id).asStr now U64_MAX U64_MAX
  | .claim id now => .claim id (modelOf id).asStr now
  | .cancel id inJobs => .cancel id (modelOrDefault modelOf inJobs id)
  | .cancelMissing id => .cancel id ""
  | .waitCancel id indexed => .cancel id (modelOrDefault modelOf indexed id)

/-- The state after the calls. -/
def reached (calls : List QueueCall) : QueueState :=
  calls.foldl (fun s c => (c.script modelOf).run s) QueueState.empty

/-- The scripts that the calls of a run with these model names can run. -/
def Script.Called : Script → Prop
  | .enqueue id _ model _ _ _ => model = (modelOf id).asStr
  | .claim id model _ => model = (modelOf id).asStr
  | .cancel id model => model = (modelOf id).asStr ∨ model = ""

theorem QueueCall.script_called (c : QueueCall) : (c.script modelOf).Called modelOf := by
  cases c with
  | cancel id inJobs => cases inJobs <;> simp [script, Script.Called, modelOrDefault]
  | waitCancel id indexed => cases indexed <;> simp [script, Script.Called, modelOrDefault]
  | _ => simp [script, Script.Called]

/-! ## The invariant of the side hashes -/

/-- The two hashes have the members of the sorted set as their fields, and `queue:model` maps each
to its model. -/
structure Indexed (q : Queue) : Prop where
  enqueueAt : ∀ id, id ∈ q.enqueueAt ↔ id ∈ q.zset
  model : ∀ id, id ∈ q.model ↔ id ∈ q.zset
  modelOf : ∀ id m, q.model.lookup id = some m → m = (modelOf id).asStr

variable {modelOf} {q : Queue} {id : Uuid}

theorem Indexed.lookup_of_mem (h : Indexed modelOf q) (hm : id ∈ q.zset) :
    q.model.lookup id = some (modelOf id).asStr := by
  have hsome : (q.model.lookup id).isSome := AList.lookup_isSome.mpr ((h.model id).mpr hm)
  obtain ⟨m, hlookup⟩ := Option.isSome_iff_exists.mp hsome
  rw [hlookup, h.modelOf id m hlookup]

theorem Indexed.enqueued (h : Indexed modelOf q) (score : ℕ) (now : Millis) :
    Indexed modelOf (q.enqueued id score (modelOf id).asStr now) := by
  constructor
  · intro j
    simp [Queue.enqueued, h.enqueueAt j]
  · intro j
    simp [Queue.enqueued, h.model j]
  · intro j m hm
    by_cases hj : j = id
    · subst hj
      simpa [Queue.enqueued] using hm.symm
    · rw [Queue.enqueued, AList.lookup_insert_ne hj] at hm
      exact h.modelOf j m hm

theorem Indexed.dequeue (h : Indexed modelOf q) (model : String) :
    Indexed modelOf (q.dequeue id model) := by
  constructor
  · intro j
    simp [Queue.dequeue, h.enqueueAt j]
  · intro j
    simp [Queue.dequeue, h.model j]
  · intro j m hm
    have hj : j ≠ id := by
      rintro rfl
      simp [Queue.dequeue] at hm
    rw [Queue.dequeue, AList.lookup_erase_ne hj] at hm
    exact h.modelOf j m hm

theorem Indexed.run {s : QueueState} (h : Indexed modelOf s.queue) {c : Script}
    (hc : c.Called modelOf) : Indexed modelOf (c.run s).queue := by
  cases c with
  | enqueue id score model now maxSize maxPerModel =>
    have hmodel : model = (modelOf id).asStr := hc
    rw [Script.run, Queue.zsetEnqueue_eq, hmodel]
    split
    · exact h.enqueued score now
    · exact h
  | claim id model now =>
    rw [Script.run, Queue.zsetClaim_eq]
    split
    · exact h.dequeue model
    · exact h
  | cancel id model =>
    rw [Script.run, Queue.zsetCancel_eq]
    split
    · exact h.dequeue model
    · exact h

/-! ## The demand counters -/

/-- The counters and the side hashes agree with the sorted set. -/
def Accounted (q : Queue) : Prop :=
  (∀ m, q.demand m = q.queued m) ∧ (∀ id, id ∈ q.enqueueAt ↔ id ∈ q.zset) ∧
    ∀ id, id ∈ q.model ↔ id ∈ q.zset

theorem Indexed.accounted_iff (h : Indexed modelOf q) :
    Accounted q ↔ ∀ m, q.demand m = q.queued m :=
  ⟨fun ha => ha.1, fun hd => ⟨hd, h.enqueueAt, h.model⟩⟩

/-- An enqueue that is accepted although the job is queued, or a cancel that removes a queued job
under the blank model. -/
def Script.Drifts (q : Queue) : Script → Prop
  | .enqueue id _ model _ maxSize maxPerModel => q.Accepts model maxSize maxPerModel ∧ id ∈ q.zset
  | .claim _ _ _ => False
  | .cancel id model => model = "" ∧ id ∈ q.zset

theorem queued_pos (h : Indexed modelOf q) (hm : id ∈ q.zset) :
    0 < q.queued (modelOf id).asStr :=
  List.countP_pos_iff.mpr ⟨id, AList.mem_keys.mp hm, by simpa using h.lookup_of_mem hm⟩

/-- A dequeue under the job's own model takes one from the counter and one from the count. -/
theorem demand_dequeue (h : Indexed modelOf q) (hd : ∀ m, q.demand m = q.queued m)
    (hm : id ∈ q.zset) (m : String) :
    (q.dequeue id (modelOf id).asStr).demand m = (q.dequeue id (modelOf id).asStr).queued m := by
  have hcount := q.queued_dequeue_of_mem id (modelOf id).asStr m hm
  rw [h.lookup_of_mem hm] at hcount
  have hpos := queued_pos h hm
  rw [Queue.dequeue_demand, Queue.decrDemand]
  by_cases hmod : m = (modelOf id).asStr
  · subst hmod
    have hdm := hd (modelOf id).asStr
    rw [if_pos rfl] at hcount
    rw [Function.update_self]
    omega
  · have hne : ¬ some (modelOf id).asStr = some m := fun e => hmod (Option.some.inj e).symm
    rw [if_neg hne, Nat.add_zero] at hcount
    rw [Function.update_of_ne hmod, hd m, hcount]

theorem demand_enqueued (hd : ∀ m, q.demand m = q.queued m) (hm : id ∉ q.zset)
    (score : ℕ) (model : String) (now : Millis) (m : String) :
    (q.enqueued id score model now).demand m = (q.enqueued id score model now).queued m := by
  rw [q.queued_enqueued_of_notMem id score model m now hm]
  by_cases hmod : m = model
  · subst hmod
    simp [Queue.enqueued, hd m]
  · have hne : ¬ model = m := fun e => hmod e.symm
    simp [Queue.enqueued, Function.update_of_ne hmod, hd m, hne]

/-- A second enqueue of a queued job counts it twice. -/
theorem demand_enqueued_of_mem (h : Indexed modelOf q) (hd : ∀ m, q.demand m = q.queued m)
    (hm : id ∈ q.zset) (score : ℕ) (now : Millis) :
    (q.enqueued id score (modelOf id).asStr now).demand (modelOf id).asStr ≠
      (q.enqueued id score (modelOf id).asStr now).queued (modelOf id).asStr := by
  rw [q.queued_enqueued_of_mem id score _ _ now hm (h.lookup_of_mem hm)]
  have hdm := hd (modelOf id).asStr
  simp only [Queue.enqueued, Function.update_self]
  omega

/-- Removing a job under the blank model leaves the counter of its own model one too high. -/
theorem demand_dequeue_blank (h : Indexed modelOf q) (hd : ∀ m, q.demand m = q.queued m)
    (hm : id ∈ q.zset) :
    (q.dequeue id "").demand (modelOf id).asStr ≠ (q.dequeue id "").queued (modelOf id).asStr := by
  have hcount := q.queued_dequeue_of_mem id "" (modelOf id).asStr hm
  rw [h.lookup_of_mem hm, if_pos rfl] at hcount
  have hdm := hd (modelOf id).asStr
  have hne : (modelOf id).asStr ≠ "" := (modelOf id).property
  have hsame : (q.dequeue id "").demand (modelOf id).asStr = q.demand (modelOf id).asStr := by
    simp [Queue.dequeue, Queue.decrDemand, Function.update_of_ne hne]
  omega

/-- From an accurate state a script keeps the accounts exactly if it does not drift. -/
theorem accounted_run_iff {s : QueueState} (h : Indexed modelOf s.queue) (ha : Accounted s.queue)
    {c : Script} (hc : c.Called modelOf) :
    Accounted (c.run s).queue ↔ ¬ c.Drifts s.queue := by
  rw [(h.run hc).accounted_iff]
  have hd := h.accounted_iff.mp ha
  cases c with
  | enqueue id score model now maxSize maxPerModel =>
    obtain rfl : model = (modelOf id).asStr := hc
    simp only [Script.run, Queue.zsetEnqueue_eq, Script.Drifts]
    by_cases hacc : s.queue.Accepts (modelOf id).asStr maxSize maxPerModel
    · by_cases hm : id ∈ s.queue.zset
      · have hbad := demand_enqueued_of_mem h hd hm score now
        simp only [hacc, hm, and_self, not_true, iff_false, if_true]
        exact fun hall => hbad (hall _)
      · simp only [hacc, hm, and_false, not_false_iff, iff_true, if_true]
        exact demand_enqueued hd hm score _ now
    · simpa only [hacc, false_and, not_false_iff, iff_true, if_false] using hd
  | claim id model now =>
    obtain rfl : model = (modelOf id).asStr := hc
    simp only [Script.run, Queue.zsetClaim_eq, Script.Drifts, not_false_iff, iff_true]
    by_cases hm : id ∈ s.queue.zset
    · simpa only [hm, if_true] using demand_dequeue h hd hm
    · simpa only [hm, if_false] using hd
  | cancel id model =>
    simp only [Script.run, Queue.zsetCancel_eq, Script.Drifts]
    by_cases hm : id ∈ s.queue.zset
    · rcases hc with rfl | rfl
      · have hne : (modelOf id).asStr ≠ "" := (modelOf id).property
        simpa only [hm, hne, if_true, false_and, not_false_iff, iff_true]
          using demand_dequeue h hd hm
      · have hbad := demand_dequeue_blank h hd hm
        simp only [hm, and_self, not_true, iff_false, if_true]
        exact fun hall => hbad (hall _)
    · simpa only [hm, and_false, not_false_iff, iff_true, if_false] using hd

end Calls

/-! ## Runs -/

section Runs
variable (modelOf : Uuid → ModelName)

theorem reached_concat (calls : List QueueCall) (c : QueueCall) :
    reached modelOf (calls ++ [c]) = (c.script modelOf).run (reached modelOf calls) := by
  simp [reached]

theorem reached_indexed (calls : List QueueCall) :
    Indexed modelOf (reached modelOf calls).queue := by
  induction calls using List.reverseRecOn with
  | nil =>
    constructor <;> simp [reached, QueueState.empty, Queue.empty]
  | append_singleton calls c ih =>
    rw [reached_concat]
    exact ih.run (c.script_called modelOf)

theorem empty_accounted : Accounted (reached modelOf []).queue := by
  refine ⟨fun m => ?_, ?_, ?_⟩ <;> simp [reached, QueueState.empty, Queue.empty, Queue.queued]

/-- Every state of a run has accurate counters and hashes exactly if none of its calls is an
accepted enqueue of a job that is still queued or a cancel that removes a queued job under the
blank model. -/
theorem demand_accurate_iff (calls : List QueueCall) :
    (∀ pre, pre <+: calls → Accounted (reached modelOf pre).queue) ↔
      ∀ pre c, pre ++ [c] <+: calls → ¬ (c.script modelOf).Drifts (reached modelOf pre).queue := by
  induction calls using List.reverseRecOn with
  | nil =>
    constructor
    · intro _ pre c hpre
      simp at hpre
    · intro _ pre hpre
      obtain rfl : pre = [] := List.prefix_nil.mp hpre
      exact empty_accounted modelOf
  | append_singleton calls c ih =>
    have hstep : ∀ hacc : Accounted (reached modelOf calls).queue,
        Accounted (reached modelOf (calls ++ [c])).queue ↔
          ¬ (c.script modelOf).Drifts (reached modelOf calls).queue := by
      intro hacc
      rw [reached_concat]
      exact accounted_run_iff (reached_indexed modelOf calls) hacc (c.script_called modelOf)
    constructor
    · intro hall pre d hpre
      rcases List.prefix_concat_iff.mp hpre with heq | hpre
      · obtain ⟨rfl, rfl⟩ : pre = calls ∧ d = c := by simpa using heq
        exact (hstep (hall _ (List.prefix_append ..))).mp (hall _ (List.prefix_refl _))
      · have hbefore := ih.mp fun p hp => hall p (hp.trans (List.prefix_append ..))
        exact hbefore pre d hpre
    · intro hall
      have hbefore := ih.mpr fun p d hp => hall p d (hp.trans (List.prefix_append ..))
      intro pre hpre
      rcases List.prefix_concat_iff.mp hpre with rfl | hpre
      · exact (hstep (hbefore calls (List.prefix_refl _))).mpr (hall calls c (List.prefix_refl _))
      · exact hbefore pre hpre

/-- A job that is still queued when its instance restarts is enqueued, and counted, again. -/
theorem demand_drifts_on_recovery :
    ¬ ∀ (modelOf : Uuid → ModelName) (calls : List QueueCall),
        Accounted (reached modelOf calls).queue := by
  intro hall
  have h := (hall (fun _ => ⟨"m", by decide⟩) [.submit 7 100 100, .recover 7 200]).1 "m"
  revert h
  decide

end Runs

end Veronex
