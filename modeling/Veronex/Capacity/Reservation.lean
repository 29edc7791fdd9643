import Veronex.Capacity.VramPool
import Veronex.Foundation.Pool
import Veronex.Foundation.Transition
import Mathlib.Logic.Relation

/-! # Reservations step by step

`VramPool::try_reserve`, `DistributedVramPool::try_reserve` and `Drop for VramPermit` as their
atomic accesses, in the order of the source; any number of calls interleave, and `set_total_vram`,
`set_model_profile`, `mark_model_loaded` and `mark_model_unloaded` come in between.

The loads of `should_block` decide and write nothing, so they are one step that sees any values:
other calls may have written between them. `tryReserve_alone`: without interleaving the accesses of
a call are `ProviderVramState.tryReserve`.
-/
namespace Veronex
set_option autoImplicit false
open Concurrency

def MAX_CAS_RETRIES : ℕ := 16

/-- Where a call and then its permit are. -/
inductive ReservePc
  /-- `get_or_create`. -/
  | enter
  | loadTotal
  /-- The unprobed branch: `entry(..).or_insert_with(..)` and `should_block`. -/
  | unprobedEntry
  | unprobedActive
  | unprobedTotal
  /-- The probed branch: `models.get(..)`, the cost and `should_block`. -/
  | probedEntry (total : ℕ)
  | loadKv (total : ℕ) (cost : ReserveCost) (retries : ℕ)
  | loadWeight (total : ℕ) (cost : ReserveCost) (retries curKv : ℕ)
  | loadSafety (total : ℕ) (cost : ReserveCost) (retries curKv loaded : ℕ)
  | bumpLoad
  | bumpStore (curSafety : ℕ)
  | cas (total : ℕ) (cost : ReserveCost) (retries curKv : ℕ)
  | markLoading (cost : ReserveCost)
  | trackKv (cost : ReserveCost)
  | trackActive (cost : ReserveCost)
  | trackTotal (cost : ReserveCost)
  | refused
  /-- The permit of the local pool, before the distributed pool takes it apart. -/
  | granted (permit : VramPermit)
  | held (permit : VramPermit)
  | dropKv (permit : VramPermit)
  | dropActive (permit : VramPermit)
  | dropLastActive (permit : VramPermit)
  | dropTotal (permit : VramPermit)
  | dropped

/-- A call of `try_reserve`, of the distributed pool or of the local one. -/
structure Reservation where
  id : ProviderId
  model : String
  distributed : Bool
  pc : ReservePc

/-- What the surroundings decide: what the loads of `should_block` return, the time and the id of
the lease. -/
structure Surroundings where
  seen : ModelState
  now : Millis
  lease : Uuid

namespace Reservation
variable (r : Reservation)

def goto (pc : ReservePc) : Reservation := { r with pc }

/-- The accesses of `try_reserve`, on the state of its provider. -/
def reserveStep (pool : VramPool) (env : Surroundings) (state : ProviderVramState) :
    Option (ProviderVramState × ReservePc) :=
  match r.pc with
  | .enter => some (state, .loadTotal)
  | .loadTotal =>
    some (state, if state.totalMb = 0 then .unprobedEntry else .probedEntry state.totalMb)
  | .unprobedEntry =>
    let ms := state.modelOr r.model (.new 0 false 0 1)
    let (blocked, probeCounter) :=
      shouldBlock { env.seen with probeCounter := ms.probeCounter } pool.probePermits pool.probeRate
    some (state.setModel r.model { ms with probeCounter },
      if blocked then .refused else .unprobedActive)
  | .unprobedActive =>
    some (state.modifyModel r.model fun ms => { ms with activeCount := ms.activeCount + 1 },
      .unprobedTotal)
  | .unprobedTotal =>
    some ({ state with totalActiveCount := state.totalActiveCount + 1 },
      .granted (.withLastActive 0 r.id r.model))
  | .probedEntry total =>
    let cost := reserveCost (state.models.lookup r.model)
    match state.models.lookup r.model with
    | none => some (state, .loadKv total cost 0)
    | some ms =>
      let (blocked, probeCounter) :=
        shouldBlock { env.seen with probeCounter := ms.probeCounter } pool.probePermits
          pool.probeRate
      some (state.setModel r.model { ms with probeCounter },
        if blocked then .refused else .loadKv total cost 0)
  | .loadKv total cost retries => some (state, .loadWeight total cost retries state.reservedKvMb)
  | .loadWeight total cost retries curKv =>
    some (state, .loadSafety total cost retries curKv state.cachedLoadedWeightMb)
  | .loadSafety total cost retries curKv loaded =>
    if availableFor total loaded curKv state.safetyPermil cost.weightCost < i64 cost.kvMb then
      some (state, if cost.needLoadWeight then .refused else .bumpLoad)
    else some (state, .cas total cost retries curKv)
  | .bumpLoad => some (state, .bumpStore state.safetyPermil)
  | .bumpStore curSafety =>
    some ({ state with safetyPermil := min (curSafety + OOM_SAFETY_BUMP_PERMIL) 500 }, .refused)
  | .cas total cost retries curKv =>
    if state.reservedKvMb = curKv then
      some ({ state with reservedKvMb := curKv + cost.kvMb },
        if cost.needLoadWeight then .markLoading cost else .trackKv cost)
    else
      some (state,
        if retries + 1 < MAX_CAS_RETRIES then .loadKv total cost (retries + 1) else .refused)
  | .markLoading cost => some (state.markLoading r.model cost, .trackKv cost)
  | .trackKv cost =>
    let ms := state.modelOr r.model (.new cost.weightCost cost.needLoadWeight cost.kvMb 1)
    some (state.setModel r.model { ms with activeKvMb := ms.activeKvMb + cost.kvMb },
      .trackActive cost)
  | .trackActive cost =>
    some (state.modifyModel r.model fun ms => { ms with activeCount := ms.activeCount + 1 },
      .trackTotal cost)
  | .trackTotal cost =>
    some ({ state with totalActiveCount := state.totalActiveCount + 1 },
      .granted (.withLastActive cost.kvMb r.id r.model))
  | _ => none

/-- The re-wrapping of the distributed pool, and `Drop for VramPermit`. -/
def permitStep (pool : VramPool) (env : Surroundings) : Option (VramPool × ReservePc) :=
  match r.pc with
  | .granted permit =>
    if r.distributed then
      match permit.intoParts with
      | some (reservedKv, activeCount, provActive, kvMb) =>
        some (pool, .held (.combined kvMb reservedKv activeCount env.lease provActive))
      | none => some (pool, .refused)
    else some (pool, .held permit)
  | .dropKv permit => some (pool.dropKv permit, .dropActive permit)
  | .dropActive permit => some (pool.dropActive permit, .dropLastActive permit)
  | .dropLastActive permit => some (pool.dropLastActive permit env.now, .dropTotal permit)
  | .dropTotal permit => some (pool.dropTotal permit, .dropped)
  | _ => none

def step (pool : VramPool) (env : Surroundings) : Option (VramPool × Reservation) :=
  match r.reserveStep pool env (pool.provider r.id) with
  | some (state, pc) => some (pool.setProvider r.id state, r.goto pc)
  | none => (r.permitStep pool env).map fun (pool', pc) => (pool', r.goto pc)

end Reservation

/-! ## A call that is not interleaved -/

namespace Reservation
variable (r : Reservation) (pool : VramPool)
open ProviderVramState

/-- What `should_block` sees when no other call writes. -/
def aloneEnv (model : String) (state : ProviderVramState) : Surroundings :=
  { seen := state.modelOr model (.new 0 false 0 1), now := 0, lease := 0 }

/-- One access of a call after the other. -/
def Alone (s t : ProviderVramState × ReservePc) : Prop :=
  (r.goto s.2).reserveStep pool (aloneEnv r.model s.1) s.1 = some t

/-- Where a call ends with the result of `try_reserve`. -/
def result : Option ℕ → ReservePc
  | none => .refused
  | some kvMb => .granted (.withLastActive kvMb r.id r.model)

variable {r pool}
open Relation (ReflTransGen)

theorem alone_unprobed (state : ProviderVramState) :
    ReflTransGen (r.Alone pool) (state, .unprobedEntry)
      ((state.tryReserveUnprobed r.model pool.probePermits pool.probeRate).1,
        r.result (state.tryReserveUnprobed r.model pool.probePermits pool.probeRate).2) := by
  unfold tryReserveUnprobed
  dsimp only
  set ms := state.modelOr r.model (.new 0 false 0 1) with hms
  have hentry : r.Alone pool (state, .unprobedEntry)
      (state.setModel r.model
          { ms with probeCounter := (shouldBlock ms pool.probePermits pool.probeRate).2 },
        if (shouldBlock ms pool.probePermits pool.probeRate).1 then .refused
        else .unprobedActive) := rfl
  refine .head hentry ?_
  cases (shouldBlock ms pool.probePermits pool.probeRate).1 with
  | true => exact .refl
  | false =>
    refine .head rfl (.single ?_)
    simp only [Alone, goto, reserveStep, modifyModel_setModel, Bool.false_eq_true, if_false]
    rfl

/-- From the CAS on, a call that needs no second try does what `grant` does. -/
theorem alone_grant (state : ProviderVramState) (total : ℕ) (cost : ReserveCost) :
    ReflTransGen (r.Alone pool) (state, .cas total cost 0 state.reservedKvMb)
      (state.grant r.model cost, r.result (some cost.kvMb)) := by
  set reserved : ProviderVramState :=
    { state with reservedKvMb := state.reservedKvMb + cost.kvMb } with hreserved
  have htrack : ∀ before : ProviderVramState,
      ReflTransGen (r.Alone pool) (before, .trackKv cost)
        (before.track r.model cost, r.result (some cost.kvMb)) := by
    intro before
    refine .head rfl (.head rfl (.single ?_))
    simp only [Alone, goto, reserveStep, modifyModel_setModel, track]
    rfl
  have hcas : r.Alone pool (state, .cas total cost 0 state.reservedKvMb)
      (reserved, if cost.needLoadWeight then .markLoading cost else .trackKv cost) := by
    simp [Alone, goto, reserveStep, hreserved]
  refine .head hcas ?_
  unfold grant
  cases cost.needLoadWeight with
  | true => exact .head rfl (htrack (reserved.markLoading r.model cost))
  | false => exact htrack reserved

/-- The loads, the test and what follows, once the limit check has passed. -/
theorem alone_casLoop (state : ProviderVramState) (cost : ReserveCost) :
    ReflTransGen (r.Alone pool) (state, .loadKv state.totalMb cost 0)
      ((state.casLoop r.model cost).1, r.result (state.casLoop r.model cost).2) := by
  have hsafety : (r.goto (.loadSafety state.totalMb cost 0 state.reservedKvMb
      state.cachedLoadedWeightMb)).reserveStep pool (aloneEnv r.model state) state =
      if state.available cost < i64 cost.kvMb then
        some (state, if cost.needLoadWeight then .refused else .bumpLoad)
      else some (state, .cas state.totalMb cost 0 state.reservedKvMb) := rfl
  unfold casLoop
  by_cases hshort : state.available cost < i64 cost.kvMb
  · rw [if_pos hshort] at hsafety ⊢
    refine .head rfl (.head rfl (.head hsafety ?_))
    cases cost.needLoadWeight with
    | true => exact .refl
    | false => exact .head rfl (.single rfl)
  · rw [if_neg hshort] at hsafety ⊢
    exact .head rfl (.head rfl (.head hsafety (alone_grant state state.totalMb cost)))

theorem alone_probed (state : ProviderVramState) :
    ReflTransGen (r.Alone pool) (state, .probedEntry state.totalMb)
      ((state.tryReserveProbed r.model pool.probePermits pool.probeRate).1,
        r.result (state.tryReserveProbed r.model pool.probePermits pool.probeRate).2) := by
  unfold tryReserveProbed checkLimit
  cases hlookup : state.models.lookup r.model with
  | none =>
    have hentry : r.Alone pool (state, .probedEntry state.totalMb)
        (state, .loadKv state.totalMb (reserveCost none) 0) := by
      simp [Alone, goto, reserveStep, hlookup]
    generalize reserveCost none = cost at hentry ⊢
    simp only [Bool.false_eq_true, if_false]
    exact .head hentry (alone_casLoop state cost)
  | some ms =>
    set counted := state.setModel r.model
      { ms with probeCounter := (shouldBlock ms pool.probePermits pool.probeRate).2 } with hcounted
    have hentry : r.Alone pool (state, .probedEntry state.totalMb)
        (counted,
          if (shouldBlock ms pool.probePermits pool.probeRate).1 then .refused
          else .loadKv state.totalMb (reserveCost (some ms)) 0) := by
      simp [Alone, goto, reserveStep, aloneEnv, modelOr, hlookup, hcounted]
    dsimp only
    generalize reserveCost (some ms) = cost at hentry ⊢
    refine .head hentry ?_
    cases (shouldBlock ms pool.probePermits pool.probeRate).1 with
    | true => exact .refl
    | false =>
      simp only [Bool.false_eq_true, if_false]
      exact alone_casLoop counted cost

/-- Without interleaving, the accesses of a call are `try_reserve` as one function. -/
theorem tryReserve_alone (state : ProviderVramState) :
    ReflTransGen (r.Alone pool) (state, .enter)
      ((state.tryReserve r.model pool.probePermits pool.probeRate).1,
        r.result (state.tryReserve r.model pool.probePermits pool.probeRate).2) := by
  unfold tryReserve
  by_cases hprobed : state.totalMb = 0
  · have htotal : r.Alone pool (state, .loadTotal) (state, .unprobedEntry) := by
      simp [Alone, goto, reserveStep, hprobed]
    rw [if_pos hprobed]
    exact .head rfl (.head htotal (alone_unprobed state))
  · have htotal : r.Alone pool (state, .loadTotal) (state, .probedEntry state.totalMb) := by
      simp [Alone, goto, reserveStep, hprobed]
    rw [if_neg hprobed]
    exact .head rfl (.head htotal (alone_probed state))

end Reservation

/-! ## The system -/

structure Reservations where
  pool : VramPool
  calls : List Reservation

/-- The calls that may come between the steps of reservations. -/
def PoolCall.isUpdate : PoolCall → Bool
  | .tryReserve .. | .dropPermit .. => false
  | .setTotalVram .. | .setModelProfile .. | .markModelLoaded .. | .markModelUnloaded .. => true

inductive ReserveAction
  | request (id : ProviderId) (model : String) (distributed : Bool)
  | step (k : ℕ) (env : Surroundings)
  /-- The owner of a permit lets it go. -/
  | drop (k : ℕ)
  | update (c : PoolCall)

namespace Reservations

def start : Reservations := { pool := VramPool.new, calls := [] }

def step (s : Reservations) : ReserveAction → Option Reservations
  | .request id model distributed =>
    some { s with calls := s.calls ++ [{ id, model, distributed, pc := .enter }] }
  | .step k env => do
    let r ← s.calls[k]?
    let (pool, r') ← r.step s.pool env
    return { pool, calls := advance s.calls k r' [] }
  | .drop k => do
    let r ← s.calls[k]?
    match r.pc with
    | .held permit => return { s with calls := advance s.calls k (r.goto (.dropKv permit)) [] }
    | _ => none
  | .update c => if c.isUpdate then some { s with pool := s.pool.call c } else none

/-- Reachable from a new pool by any interleaving. -/
def Reachable (s : Reservations) : Prop := Run step (fun _ _ => True) start s

end Reservations

end Veronex
