import Veronex.Domain.Values
import Veronex.Foundation.Totals
import Mathlib.Data.Finset.Basic
import Mathlib.Data.Int.Lemmas

/-! # The VRAM pool of an instance

`infrastructure/outbound/capacity/vram_pool.rs` and the permit of
`application/ports/outbound/concurrency_port.rs`. A `DashMap` is a finite map; no entry of the
pool's maps of providers and models is ever removed, so a provider, or a provider and a model, name
the atomics an `Arc` of them was cloned from.

Counters of live permits are natural numbers. The sums and casts of a single call that can leave
their machine word are written out: `i64` for the signed arithmetic of the admission test, `% U64`
and `% U32` for `fetch_add`. `try_reserve` is here the call that no other thread interleaves with;
`Capacity.Reservation` has its single steps.
-/
namespace Veronex
set_option autoImplicit false
open Concurrency

def U64 : ℕ := 2 ^ 64
def U32 : ℕ := 2 ^ 32

/-- The value an `i64` holds after a cast or an operation: two's complement. -/
def i64 (x : ℤ) : ℤ := x.bmod U64

def I64_MAX : ℤ := 2 ^ 63 - 1

theorem i64_of_bounds {x : ℤ} (hlo : -2 ^ 63 ≤ x) (hhi : x < 2 ^ 63) : i64 x = x := by
  refine Int.bmod_eq_of_le ?_ ?_
  · simp only [U64]; omega
  · simp only [U64]; omega

/-! ## The state -/

/-- `ModelState`: a model on a provider. -/
structure ModelState where
  weightMb : ℕ
  isLoaded : Bool
  kvPerRequestMb : ℕ
  activeKvMb : ℕ
  activeCount : ℕ
  /-- 0: unlimited. -/
  maxConcurrent : ℕ
  baselineTps : ℕ
  baselineP95Ms : ℕ
  probeCounter : ℕ
  lastActiveAt : Millis
  isPreloading : Bool
  sampleCount : ℕ
  learningEpochStartedAt : Millis
  dispatchBlocked : Bool
  /-- 0: no cap. -/
  governorCap : ℕ
  stableCycleCount : ℕ

/-- `ModelState::new`. -/
def ModelState.new (weightMb : ℕ) (isLoaded : Bool) (kvPerRequestMb maxConcurrent : ℕ) :
    ModelState :=
  { weightMb, isLoaded, kvPerRequestMb, activeKvMb := 0, activeCount := 0, maxConcurrent
    baselineTps := 0, baselineP95Ms := 0, probeCounter := 0, lastActiveAt := 0
    isPreloading := false, sampleCount := 0, learningEpochStartedAt := 0, dispatchBlocked := false
    governorCap := 0, stableCycleCount := 0 }

/-- `ModelVramProfile`, the two fields the pool takes from it. -/
structure ModelVramProfile where
  weightMb : ℕ
  kvPerRequestMb : ℕ

abbrev ModelMap := AList (fun _ : String => ModelState)

structure ProviderVramState where
  /-- 0: not probed. -/
  totalMb : ℕ
  reservedKvMb : ℕ
  safetyPermil : ℕ
  models : ModelMap
  cachedLoadedWeightMb : ℕ
  totalActiveCount : ℕ

def DEFAULT_BUFFER_MB : ℕ := 512
def DEFAULT_SAFETY_PERMIL : ℕ := 100
def OOM_SAFETY_BUMP_PERMIL : ℕ := 50

/-- What `get_or_create` inserts. -/
def ProviderVramState.fresh : ProviderVramState :=
  { totalMb := 0, reservedKvMb := 0, safetyPermil := DEFAULT_SAFETY_PERMIL, models := ∅
    cachedLoadedWeightMb := 0, totalActiveCount := 0 }

structure VramPool where
  providers : AList (fun _ : ProviderId => ProviderVramState)
  probePermits : ℤ
  probeRate : ℕ
  loadedModelsGlobal : Finset String
  loadedModelRefcounts : AList (fun _ : String => ℕ)

def VramPool.new : VramPool :=
  { providers := ∅, probePermits := 1, probeRate := 3, loadedModelsGlobal := ∅
    loadedModelRefcounts := ∅ }

/-- `VramPermit`; an `Arc` is the provider, or the provider and the model, whose atomic it is. -/
structure VramPermit where
  kvMb : ℕ
  reservedKv : Option ProviderId
  activeCount : Option (ProviderId × String)
  /-- `release_tx`: the lease that is released when the permit is dropped. -/
  releaseTx : Option Uuid
  lastActiveAt : Option (ProviderId × String)
  providerActiveCount : Option ProviderId
  deriving DecidableEq

/-- `VramPermit::with_last_active`. -/
def VramPermit.withLastActive (kvMb : ℕ) (provider : ProviderId) (model : String) : VramPermit :=
  { kvMb, reservedKv := some provider, activeCount := some (provider, model), releaseTx := none
    lastActiveAt := some (provider, model), providerActiveCount := some provider }

/-- `VramPermit::combined`. -/
def VramPermit.combined (kvMb : ℕ) (reservedKv : ProviderId) (activeCount : ProviderId × String)
    (lease : Uuid) (providerActiveCount : ProviderId) : VramPermit :=
  { kvMb, reservedKv := some reservedKv, activeCount := some activeCount, releaseTx := some lease
    lastActiveAt := none, providerActiveCount := some providerActiveCount }

/-- `VramPermit::into_parts`: the permit is forgotten, not dropped. -/
def VramPermit.intoParts (permit : VramPermit) :
    Option (ProviderId × (ProviderId × String) × ProviderId × ℕ) :=
  match permit.reservedKv, permit.activeCount, permit.providerActiveCount with
  | some r, some a, some pa => some (r, a, pa, permit.kvMb)
  | _, _, _ => none

/-! ## Admission -/

/-- `VramPool::should_block`, with what it leaves the model's probe counter at. -/
def shouldBlock (ms : ModelState) (probePermits : ℤ) (probeRate : ℕ) : Bool × ℕ :=
  if ms.dispatchBlocked then (true, ms.probeCounter)
  else if ms.maxConcurrent = 0 then (false, ms.probeCounter)
  else
    let limit := if 0 < ms.governorCap then min ms.maxConcurrent ms.governorCap else ms.maxConcurrent
    let counted := (ms.probeCounter + 1) % U32
    if 0 < probePermits then
      -- saturating_add
      let effective := min (limit + probePermits.toNat) (U32 - 1)
      if effective ≤ ms.activeCount then (true, ms.probeCounter)
      else if limit ≤ ms.activeCount then
        if probeRate = 0 then (true, ms.probeCounter)
        else (!decide (probeRate ∣ ms.probeCounter), counted)
      else (false, ms.probeCounter)
    else if probePermits < 0 then
      if limit ≤ ms.activeCount then (true, ms.probeCounter)
      else
        let effective := (max ((limit : ℤ) + probePermits) 1).toNat
        if effective ≤ ms.activeCount ∧ 0 < probeRate then
          (decide (probeRate ∣ ms.probeCounter), counted)
        else (false, ms.probeCounter)
    else (decide (limit ≤ ms.activeCount), ms.probeCounter)

/-- What a reservation of a probed provider asks for. -/
structure ReserveCost where
  kvMb : ℕ
  needLoadWeight : Bool
  weightCost : ℕ

/-- `kv_mb`, `need_load_weight` and `weight_cost` for the model's entry. -/
def reserveCost : Option ModelState → ReserveCost
  | some ms =>
    if ms.isLoaded then
      { kvMb := max ms.kvPerRequestMb 32, needLoadWeight := false, weightCost := 0 }
    else
      { kvMb := max ms.kvPerRequestMb 32, needLoadWeight := true, weightCost := ms.weightMb }
  | none => { kvMb := 128, needLoadWeight := true, weightCost := 2048 }

/-- `safety` of the CAS loop. -/
def safetyMb (total safetyPermil : ℕ) : ℤ := (i64 (i64 total * safetyPermil)).tdiv 1000

/-- `available` of the CAS loop: with more loaded than the provider has, memory is unified. -/
def availableFor (total loaded curKv safetyPermil weightCost : ℕ) : ℤ :=
  if i64 total < i64 (loaded + weightCost) then I64_MAX
  else i64 (total - loaded - curKv - DEFAULT_BUFFER_MB - safetyMb total safetyPermil - weightCost)

/-- `compute_available`. -/
def computeAvailable (state : ProviderVramState) : ℤ :=
  if i64 state.totalMb = 0 then I64_MAX
  else
    i64 (state.totalMb - state.cachedLoadedWeightMb - state.reservedKvMb - DEFAULT_BUFFER_MB -
      safetyMb state.totalMb state.safetyPermil)

namespace ProviderVramState
variable (state : ProviderVramState) (model : String)

def setModel (ms : ModelState) : ProviderVramState :=
  { state with models := state.models.insert model ms }

/-- The entry of a model the pool knows, changed in place. -/
def modifyModel (f : ModelState → ModelState) : ProviderVramState :=
  match state.models.lookup model with
  | some ms => state.setModel model (f ms)
  | none => state

/-- `entry(..).or_insert_with(..)`. -/
def modelOr (ms : ModelState) : ModelState := (state.models.lookup model).getD ms

/-- What `try_reserve` subtracts its cost from, if the values are all read now. -/
def available (cost : ReserveCost) : ℤ :=
  availableFor state.totalMb state.cachedLoadedWeightMb state.reservedKvMb state.safetyPermil
    cost.weightCost

/-- The rejection of a loaded model raises the safety margin. -/
def bumpSafety : ProviderVramState :=
  { state with safetyPermil := min (state.safetyPermil + OOM_SAFETY_BUMP_PERMIL) 500 }

/-- `and_modify(is_loaded = true).or_insert_with(..)`. -/
def markLoading (cost : ReserveCost) : ProviderVramState :=
  match state.models.lookup model with
  | some ms => state.setModel model { ms with isLoaded := true }
  | none => state.setModel model (.new cost.weightCost true cost.kvMb 1)

/-- The per-model counters of a grant. -/
def track (cost : ReserveCost) : ProviderVramState :=
  let ms := state.modelOr model (.new cost.weightCost cost.needLoadWeight cost.kvMb 1)
  { state.setModel model
      { ms with activeKvMb := ms.activeKvMb + cost.kvMb, activeCount := ms.activeCount + 1 } with
    totalActiveCount := state.totalActiveCount + 1 }

/-- Everything a grant of a probed provider writes. -/
def grant (cost : ReserveCost) : ProviderVramState :=
  let reserved := { state with reservedKvMb := state.reservedKvMb + cost.kvMb }
  (if cost.needLoadWeight then reserved.markLoading model cost else reserved).track model cost

/-- The unprobed branch of `try_reserve`. -/
def tryReserveUnprobed (probePermits : ℤ) (probeRate : ℕ) : ProviderVramState × Option ℕ :=
  let ms := state.modelOr model (.new 0 false 0 1)
  let (blocked, probeCounter) := shouldBlock ms probePermits probeRate
  if blocked then (state.setModel model { ms with probeCounter }, none)
  else
    ({ state.setModel model { ms with probeCounter, activeCount := ms.activeCount + 1 } with
       totalActiveCount := state.totalActiveCount + 1 }, some 0)

/-- `should_block` where the model has an entry. -/
def checkLimit (probePermits : ℤ) (probeRate : ℕ) : ProviderVramState × Bool :=
  match state.models.lookup model with
  | some ms =>
    let (blocked, probeCounter) := shouldBlock ms probePermits probeRate
    (state.setModel model { ms with probeCounter }, blocked)
  | none => (state, false)

/-- The CAS loop and what follows it: the first CAS succeeds. -/
def casLoop (cost : ReserveCost) : ProviderVramState × Option ℕ :=
  if state.available cost < i64 cost.kvMb then
    (if cost.needLoadWeight then state else state.bumpSafety, none)
  else (state.grant model cost, some cost.kvMb)

/-- The probed branch of `try_reserve`. -/
def tryReserveProbed (probePermits : ℤ) (probeRate : ℕ) : ProviderVramState × Option ℕ :=
  let cost := reserveCost (state.models.lookup model)
  let (state', blocked) := state.checkLimit model probePermits probeRate
  if blocked then (state', none) else state'.casLoop model cost

/-- `try_reserve` on the state of the provider; the result is the permit's `kv_mb`. -/
def tryReserve (probePermits : ℤ) (probeRate : ℕ) : ProviderVramState × Option ℕ :=
  if state.totalMb = 0 then state.tryReserveUnprobed model probePermits probeRate
  else state.tryReserveProbed model probePermits probeRate

/-- The cache of a provider after `mark_model_loaded` has adjusted it. -/
def adjustedCache (weightMb : ℕ) : ℕ :=
  match state.models.lookup model with
  | some ms =>
    if ms.isLoaded then
      -- saturating_sub: nothing is added for a smaller weight
      if ms.weightMb ≠ weightMb then (state.cachedLoadedWeightMb + (weightMb - ms.weightMb)) % U64
      else state.cachedLoadedWeightMb
    else (state.cachedLoadedWeightMb + weightMb) % U64
  | none => (state.cachedLoadedWeightMb + weightMb) % U64

/-- The entry of the model after `mark_model_loaded`. -/
def loadedModel (weightMb : ℕ) (now : Millis) : ModelState :=
  match state.models.lookup model with
  | some ms =>
    { ms with
      isLoaded := true, weightMb
      lastActiveAt := if ms.lastActiveAt = 0 then now else ms.lastActiveAt }
  | none => { ModelState.new weightMb true 128 0 with lastActiveAt := now }

/-- The provider's part of `mark_model_loaded`. -/
def load (weightMb : ℕ) (now : Millis) : ProviderVramState :=
  { state with cachedLoadedWeightMb := state.adjustedCache model weightMb }.setModel model
    (state.loadedModel model weightMb now)

/-- The entry of a model after `mark_model_unloaded`. -/
def unloadedModel (ms : ModelState) (now : Millis) : ModelState :=
  { ms with
    isLoaded := false, sampleCount := 0, isPreloading := false, baselineTps := 0
    baselineP95Ms := 0, stableCycleCount := 0, learningEpochStartedAt := now }

/-- The provider's part of `mark_model_unloaded`, and `was_loaded`. -/
def unload (now : Millis) : ProviderVramState × Bool :=
  match state.models.lookup model with
  | some ms =>
    let cache := state.cachedLoadedWeightMb
    let cache' := if ms.isLoaded then cache - min ms.weightMb cache else cache
    ({ state with cachedLoadedWeightMb := cache' }.setModel model (unloadedModel ms now),
      ms.isLoaded)
  | none => (state, false)

/-- The provider's part of `set_model_profile`. -/
def setProfile (profile : ModelVramProfile) : ProviderVramState :=
  match state.models.lookup model with
  | some ms =>
    state.setModel model
      { ms with weightMb := profile.weightMb, kvPerRequestMb := profile.kvPerRequestMb }
  | none => state.setModel model (.new profile.weightMb false profile.kvPerRequestMb 0)

/-- The `saturating_sub`s of a dropped permit, on ℕ. -/
def subReserved (kvMb : ℕ) : ProviderVramState :=
  { state with reservedKvMb := state.reservedKvMb - kvMb }

def subActive : ProviderVramState :=
  state.modifyModel model fun ms => { ms with activeCount := ms.activeCount - 1 }

def subTotal : ProviderVramState := { state with totalActiveCount := state.totalActiveCount - 1 }

/-- The `last_active_at` of a dropped permit. -/
def touch (now : Millis) : ProviderVramState :=
  state.modifyModel model fun ms => { ms with lastActiveAt := now }

@[simp] theorem setModel_lookup (ms : ModelState) :
    (state.setModel model ms).models.lookup model = some ms := AList.lookup_insert _

theorem modifyModel_setModel (ms : ModelState) (f : ModelState → ModelState) :
    (state.setModel model ms).modifyModel model f = state.setModel model (f ms) := by
  rw [modifyModel, setModel_lookup]
  show (state.setModel model ms).setModel model (f ms) = _
  simp [setModel, AList.insert_insert]

end ProviderVramState

/-! ## The calls of the pool -/

namespace VramPool
variable (pool : VramPool)

/-- The state of a provider, fresh where `get_or_create` would insert it. -/
def provider (id : ProviderId) : ProviderVramState :=
  (pool.providers.lookup id).getD .fresh

def setProvider (id : ProviderId) (state : ProviderVramState) : VramPool :=
  { pool with providers := pool.providers.insert id state }

@[simp] theorem provider_setProvider (id : ProviderId) (state : ProviderVramState) (j : ProviderId) :
    (pool.setProvider id state).provider j = if j = id then state else pool.provider j := by
  unfold provider setProvider
  by_cases hj : j = id
  · subst hj
    simp
  · simp [AList.lookup_insert_ne hj, hj]

/-- `try_reserve`. -/
def tryReserve (id : ProviderId) (model : String) : VramPool × Option VramPermit :=
  let (state, granted) := (pool.provider id).tryReserve model pool.probePermits pool.probeRate
  (pool.setProvider id state, granted.map fun kvMb => .withLastActive kvMb id model)

def dropKv (permit : VramPermit) : VramPool :=
  match permit.reservedKv with
  | some id => pool.setProvider id ((pool.provider id).subReserved permit.kvMb)
  | none => pool

def dropActive (permit : VramPermit) : VramPool :=
  match permit.activeCount with
  | some (id, model) => pool.setProvider id ((pool.provider id).subActive model)
  | none => pool

def dropLastActive (permit : VramPermit) (now : Millis) : VramPool :=
  match permit.lastActiveAt with
  | some (id, model) => pool.setProvider id ((pool.provider id).touch model now)
  | none => pool

def dropTotal (permit : VramPermit) : VramPool :=
  match permit.providerActiveCount with
  | some id => pool.setProvider id (pool.provider id).subTotal
  | none => pool

/-- `Drop for VramPermit`. -/
def drop (permit : VramPermit) (now : Millis) : VramPool :=
  (((pool.dropKv permit).dropActive permit).dropLastActive permit now).dropTotal permit

/-- `set_total_vram`. -/
def setTotalVram (id : ProviderId) (totalMb : ℕ) : VramPool :=
  pool.setProvider id { pool.provider id with totalMb }

/-- `set_model_profile`. -/
def setModelProfile (id : ProviderId) (model : String) (profile : ModelVramProfile) : VramPool :=
  pool.setProvider id ((pool.provider id).setProfile model profile)

/-- The global set and refcount of `mark_model_loaded`. -/
def countLoad (model : String) : VramPool :=
  { pool with
    loadedModelsGlobal := insert model pool.loadedModelsGlobal
    loadedModelRefcounts := pool.loadedModelRefcounts.insert model
      ((pool.loadedModelRefcounts.lookup model).elim 1 (· + 1)) }

/-- `mark_model_loaded`. -/
def markModelLoaded (id : ProviderId) (model : String) (weightMb : ℕ) (now : Millis) : VramPool :=
  (pool.setProvider id ((pool.provider id).load model weightMb now)).countLoad model

/-- The refcount part of `mark_model_unloaded`; `fetch_sub` returns the value before. -/
def countUnload (model : String) : VramPool :=
  let stillLoaded := (pool.loadedModelRefcounts.lookup model).getD 0
  if stillLoaded ≤ 1 then
    { pool with
      loadedModelsGlobal := pool.loadedModelsGlobal.erase model
      loadedModelRefcounts := pool.loadedModelRefcounts.erase model }
  else
    { pool with loadedModelRefcounts := pool.loadedModelRefcounts.insert model (stillLoaded - 1) }

@[simp] theorem provider_countLoad (model : String) (j : ProviderId) :
    (pool.countLoad model).provider j = pool.provider j := rfl

@[simp] theorem provider_countUnload (model : String) (j : ProviderId) :
    (pool.countUnload model).provider j = pool.provider j := by
  unfold countUnload
  dsimp only
  split <;> rfl

/-- `mark_model_unloaded`. -/
def markModelUnloaded (id : ProviderId) (model : String) (now : Millis) : VramPool :=
  let (state, wasLoaded) := (pool.provider id).unload model now
  let pool' := pool.setProvider id state
  if wasLoaded then pool'.countUnload model else pool'

/-- `is_model_loaded`. -/
def isModelLoaded (model : String) : Bool := decide (model ∈ pool.loadedModelsGlobal)

end VramPool

/-! ## Runs of calls -/

/-- A call of the pool that runs to its end before the next one. -/
inductive PoolCall
  | tryReserve (id : ProviderId) (model : String)
  | dropPermit (permit : VramPermit) (now : Millis)
  | setTotalVram (id : ProviderId) (totalMb : ℕ)
  | setModelProfile (id : ProviderId) (model : String) (profile : ModelVramProfile)
  | markModelLoaded (id : ProviderId) (model : String) (weightMb : ℕ) (now : Millis)
  | markModelUnloaded (id : ProviderId) (model : String) (now : Millis)

def VramPool.call (pool : VramPool) : PoolCall → VramPool
  | .tryReserve id model => (pool.tryReserve id model).1
  | .dropPermit permit now => pool.drop permit now
  | .setTotalVram id totalMb => pool.setTotalVram id totalMb
  | .setModelProfile id model profile => pool.setModelProfile id model profile
  | .markModelLoaded id model weightMb now => pool.markModelLoaded id model weightMb now
  | .markModelUnloaded id model now => pool.markModelUnloaded id model now

end Veronex
