import Veronex.Domain.Constants
import Mathlib.Data.List.AList
import Mathlib.Data.List.Count
import Mathlib.Logic.Function.Basic

/-! # The Valkey queue and its three atomic scripts

`infrastructure/outbound/valkey_adapter.rs`. The queue is `queue:zset` (job id to score) with the
side hashes `queue:enqueue_at` and `queue:model` and one counter `demand:{model}` per model; the
claim script also writes `queue:active` (job id to lease deadline). Scores and deadlines are
milliseconds and stay far below 2^53, so they are natural numbers here.

`queued_enqueued_of_notMem`, `queued_enqueued_of_mem` and `queued_dequeue_of_mem` say what the
scripts do to the number of queued jobs of a model.
-/
namespace Veronex
set_option autoImplicit false

/-- A sorted set or a hash keyed by job id. -/
abbrev JobMap (β : Type) := AList (fun _ : Uuid => β)

structure Queue where
  zset : JobMap ℕ
  enqueueAt : JobMap Millis
  model : JobMap String
  demand : String → ℤ

namespace Queue

def empty : Queue := { zset := ∅, enqueueAt := ∅, model := ∅, demand := fun _ => 0 }

/-- `ZCARD queue:zset`. -/
def zcard (q : Queue) : ℕ := q.zset.keys.length

/-- Members of `queue:zset` whose entry in `queue:model` is `m`. -/
def queued (q : Queue) (m : String) : ℕ :=
  q.zset.keys.countP fun id => q.model.lookup id = some m

/-- `DECR` with the script's floor at 0. -/
def decrDemand (demand : String → ℤ) (m : String) : String → ℤ :=
  Function.update demand m (max 0 (demand m - 1))

/-- `LUA_ZSET_ENQUEUE`. Returns 1 when enqueued, 0 when the queue is full, -1 when the model's
share of it is. -/
def luaZsetEnqueue (q : Queue) (jobId : Uuid) (score maxSize : ℕ) (nowMs : Millis) (model : String)
    (maxPerModel : ℤ) : Queue × ℤ :=
  if maxSize ≤ q.zcard then (q, 0)
  else if maxPerModel ≤ q.demand model then (q, -1)
  else
    ({ zset := q.zset.insert jobId score
       demand := Function.update q.demand model (q.demand model + 1)
       enqueueAt := q.enqueueAt.insert jobId nowMs
       model := q.model.insert jobId model }, 1)

/-- The part that `LUA_ZSET_CLAIM` and `LUA_ZSET_CANCEL` share: `ZREM`, `DECR` and two `HDEL`. -/
def dequeue (q : Queue) (jobId : Uuid) (model : String) : Queue :=
  { zset := q.zset.erase jobId
    demand := decrDemand q.demand model
    enqueueAt := q.enqueueAt.erase jobId
    model := q.model.erase jobId }

/-- `LUA_ZSET_CLAIM`. Returns 1 when claimed, 0 when the job was no longer queued. -/
def luaZsetClaim (q : Queue) (active : JobMap Millis) (jobId : Uuid) (deadlineMs : Millis)
    (model : String) : Queue × JobMap Millis × ℤ :=
  if jobId ∈ q.zset then (q.dequeue jobId model, active.insert jobId deadlineMs, 1)
  else (q, active, 0)

/-- `LUA_ZSET_CANCEL`. Returns 1 when removed, 0 when the job was not queued. -/
def luaZsetCancel (q : Queue) (jobId : Uuid) (model : String) : Queue × ℤ :=
  if jobId ∈ q.zset then (q.dequeue jobId model, 1) else (q, 0)

/-- `ValkeyAdapter::zset_enqueue`: the queue and `result == 1`. -/
def zsetEnqueue (q : Queue) (jobId : Uuid) (score : ℕ) (model : String) (nowMs : Millis)
    (maxSize : ℕ) (maxPerModel : ℤ) : Queue × Bool :=
  let r := q.luaZsetEnqueue jobId score maxSize nowMs model maxPerModel
  (r.1, r.2 == 1)

/-- `ValkeyAdapter::zset_claim`: the lease lasts `LEASE_TTL_MS` from now. -/
def zsetClaim (q : Queue) (active : JobMap Millis) (jobId : Uuid) (model : String)
    (nowMs : Millis) : Queue × JobMap Millis × Bool :=
  let r := q.luaZsetClaim active jobId (nowMs + LEASE_TTL_MS) model
  (r.1, r.2.1, r.2.2 == 1)

/-- `ValkeyAdapter::zset_cancel`. -/
def zsetCancel (q : Queue) (jobId : Uuid) (model : String) : Queue × Bool :=
  let r := q.luaZsetCancel jobId model
  (r.1, r.2 == 1)

/-! ## What the calls do -/

/-- Whether an enqueue passes both guards of the script. -/
def Accepts (q : Queue) (model : String) (maxSize : ℕ) (maxPerModel : ℤ) : Prop :=
  q.zcard < maxSize ∧ q.demand model < maxPerModel

instance (q : Queue) (model : String) (maxSize : ℕ) (maxPerModel : ℤ) :
    Decidable (q.Accepts model maxSize maxPerModel) :=
  inferInstanceAs (Decidable (_ ∧ _))

/-- The queue after an accepted enqueue. -/
def enqueued (q : Queue) (jobId : Uuid) (score : ℕ) (model : String) (nowMs : Millis) : Queue :=
  { zset := q.zset.insert jobId score
    demand := Function.update q.demand model (q.demand model + 1)
    enqueueAt := q.enqueueAt.insert jobId nowMs
    model := q.model.insert jobId model }

theorem zsetEnqueue_eq (q : Queue) (jobId : Uuid) (score : ℕ) (model : String) (nowMs : Millis)
    (maxSize : ℕ) (maxPerModel : ℤ) :
    q.zsetEnqueue jobId score model nowMs maxSize maxPerModel =
      if q.Accepts model maxSize maxPerModel then (q.enqueued jobId score model nowMs, true)
      else (q, false) := by
  unfold zsetEnqueue luaZsetEnqueue Accepts
  by_cases h1 : maxSize ≤ q.zcard
  · have : ¬ q.zcard < maxSize := by omega
    simp [h1, this]
  · by_cases h2 : maxPerModel ≤ q.demand model
    · have : ¬ q.demand model < maxPerModel := by omega
      simp [h1, h2, this]
    · have h1' : q.zcard < maxSize := by omega
      have h2' : q.demand model < maxPerModel := by omega
      simp [h1, h2, h1', h2', enqueued]

theorem zsetClaim_eq (q : Queue) (active : JobMap Millis) (jobId : Uuid) (model : String)
    (nowMs : Millis) :
    q.zsetClaim active jobId model nowMs =
      if jobId ∈ q.zset then
        (q.dequeue jobId model, active.insert jobId (nowMs + LEASE_TTL_MS), true)
      else (q, active, false) := by
  unfold zsetClaim luaZsetClaim
  split <;> rfl

theorem zsetCancel_eq (q : Queue) (jobId : Uuid) (model : String) :
    q.zsetCancel jobId model =
      if jobId ∈ q.zset then (q.dequeue jobId model, true) else (q, false) := by
  unfold zsetCancel luaZsetCancel
  split <;> rfl

/-! ## Membership and counts -/

section Counts
variable (q : Queue) (id : Uuid) (score : ℕ) (model m : String) (nowMs : Millis)

@[simp] theorem mem_zset_enqueued {j : Uuid} :
    j ∈ (q.enqueued id score model nowMs).zset ↔ j = id ∨ j ∈ q.zset := by
  simp [enqueued]

@[simp] theorem mem_zset_dequeue {j : Uuid} :
    j ∈ (q.dequeue id model).zset ↔ j ≠ id ∧ j ∈ q.zset := by
  simp [dequeue]

@[simp] theorem dequeue_demand :
    (q.dequeue id model).demand = decrDemand q.demand model := rfl

theorem zcard_enqueued_of_notMem (h : id ∉ q.zset) :
    (q.enqueued id score model nowMs).zcard = q.zcard + 1 := by
  have hk : id ∉ q.zset.keys := fun hm => h (AList.mem_keys.mpr hm)
  simp [zcard, enqueued, AList.keys_insert, List.erase_of_not_mem hk]

theorem zcard_dequeue_of_mem (h : id ∈ q.zset) : (q.dequeue id model).zcard + 1 = q.zcard := by
  have hk : id ∈ q.zset.keys := AList.mem_keys.mp h
  have hpos := List.length_pos_of_mem hk
  simp only [zcard, dequeue, AList.keys_erase, List.length_erase_of_mem hk]
  omega

/-- Outside of job `id` an enqueue changes nothing. -/
theorem countP_other_enqueued (h : id ∉ q.zset) :
    q.zset.keys.countP (fun j => (q.enqueued id score model nowMs).model.lookup j = some m) =
      q.queued m := by
  refine List.countP_congr fun j hj => ?_
  have hne : j ≠ id := fun e => h (AList.mem_keys.mpr (e ▸ hj))
  simp [enqueued, AList.lookup_insert_ne hne]

theorem queued_enqueued_of_notMem (h : id ∉ q.zset) :
    (q.enqueued id score model nowMs).queued m = q.queued m + if model = m then 1 else 0 := by
  have hk : id ∉ q.zset.keys := fun hm => h (AList.mem_keys.mpr hm)
  have hkeys : (q.enqueued id score model nowMs).zset.keys = id :: q.zset.keys := by
    simp [enqueued, AList.keys_insert, List.erase_of_not_mem hk]
  rw [queued, hkeys, List.countP_cons, countP_other_enqueued q id score model m nowMs h]
  simp [enqueued]

/-- A member that is enqueued again under the model it has leaves the count as it was. -/
theorem queued_enqueued_of_mem (h : id ∈ q.zset) (hm : q.model.lookup id = some model) :
    (q.enqueued id score model nowMs).queued m = q.queued m := by
  have hk : id ∈ q.zset.keys := AList.mem_keys.mp h
  have hperm : (q.enqueued id score model nowMs).zset.keys.Perm q.zset.keys := by
    simp only [enqueued, AList.keys_insert]
    exact (List.perm_cons_erase hk).symm
  rw [queued, hperm.countP_eq]
  refine List.countP_congr fun j _ => ?_
  by_cases hj : j = id
  · subst hj; simp [enqueued, hm]
  · simp [enqueued, AList.lookup_insert_ne hj]

theorem queued_dequeue_of_mem (h : id ∈ q.zset) :
    (q.dequeue id model).queued m + (if q.model.lookup id = some m then 1 else 0) = q.queued m := by
  have hk : id ∈ q.zset.keys := AList.mem_keys.mp h
  have hcount : (q.dequeue id model).queued m =
      (q.zset.keys.erase id).countP fun j => q.model.lookup j = some m := by
    simp only [queued, dequeue, AList.keys_erase]
    refine List.countP_congr fun j hj => ?_
    have hne : j ≠ id := by
      rintro rfl
      exact (q.zset.keys_nodup.not_mem_erase) hj
    simp [AList.lookup_erase_ne hne]
  rw [hcount, queued, (List.perm_cons_erase hk).countP_eq, List.countP_cons]
  simp

end Counts

end Queue

end Veronex
