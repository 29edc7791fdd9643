import Veronex.Capacity.Governor
import Veronex.Capacity.LoadedModels
import Veronex.Dispatch.Scoring
import Veronex.Foundation.Trace

/-! # The placement planner

`planner_tick` of `application/use_cases/placement_planner.rs`, on the pool, the thermal map and the
circuit breaker of an instance while no other thread writes them and the clock stands still. The
preloads it spawns run after it.

`last_server_iff`: when a tick leaves an Ollama provider out of standby.
-/
namespace Veronex
set_option autoImplicit false
open Concurrency

def EVICT_IDLE_SECS : ℕ := 180
def STANDBY_EVICT_IDLE_SECS : ℕ := 30
def TRANSITION_GUARD_SECS : ℕ := 30
def SCALE_OUT_HOLDDOWN_SECS : ℕ := 60

/-- More than 80% of the capacity. Capacities are below 2^32, where the rounding of `f64` does not
change the comparison. -/
def isScaleOutNeeded (demand eligibleCapacity : ℕ) : Bool := 4 * eligibleCapacity < 5 * demand

def shouldEvict (idleSecs : ℕ) (isStandby : Bool) : Bool :=
  (if isStandby then STANDBY_EVICT_IDLE_SECS else EVICT_IDLE_SECS) ≤ idleSecs

inductive LockKey
  | scaleoutDecision (model : String)
  | preloadLock (model : String) (id : ProviderId)
  deriving DecidableEq

/-- The order a hash map is iterated in. -/
structure HashOrder where
  order : List String → List String
  perm : ∀ names, (order names).Perm names

/-- What a tick is told by the registry, Valkey and the model repository. -/
structure PlannerView where
  allProviders : List LlmProvider
  /-- The demand counters, 0 for one that is not read as a number. -/
  demand : String → ℕ
  /-- `zset_len`, 0 after an error. -/
  queueLen : ℕ
  /-- `providers_for_model`, empty after an error. -/
  ollamaModelRepo : Option (String → List ProviderId)
  modelDemandOrder : HashOrder
  scaleOutNeededOrder : HashOrder
  setOk : LockKey → Bool
  delOk : LockKey → Bool

def PlannerView.ollamaProviders (v : PlannerView) : List LlmProvider :=
  v.allProviders.filter fun p => p.providerType = .ollama

/-- What the planner reads and writes, beside what scoring does. -/
structure Planner extends Scoring where
  nowMs : Millis
  transitionUntil : ProviderId → Millis
  isPulling : ProviderId → String → Bool
  preloadFailedAt : ProviderId → String → Millis
  scaleOutHolddown : ProviderId → Option Millis
  /-- The lock keys Valkey has a value for. -/
  locked : LockKey → Bool

/-! ## The pool calls -/

namespace Planner
variable (s : Planner) (id : ProviderId) (model : String)

def inTransition : Bool := s.transitionUntil id ≠ 0 ∧ s.nowMs < s.transitionUntil id

def isPreloading : Bool :=
  ((s.pool.provider id).models.lookup model).elim false ModelState.isPreloading

def isPreloadExcluded : Bool :=
  s.preloadFailedAt id model ≠ 0 ∧ s.nowMs - s.preloadFailedAt id model < 300000

def activeRequests : ℕ := (s.pool.provider id).activeRequests model

def isDispatchBlocked : Bool :=
  ((s.pool.provider id).models.lookup model).elim false ModelState.dispatchBlocked

def modelWeightMb : ℕ := ((s.pool.provider id).models.lookup model).elim 0 ModelState.weightMb

/-- A model that was never active is idle for ever. -/
def idleSinceSecs : ℕ :=
  let last := ((s.pool.provider id).models.lookup model).elim 0 ModelState.lastActiveAt
  if last = 0 then U64 - 1 else (s.nowMs - last) / 1000

/-- Soft, Hard or Cooldown. -/
def isThrottled : Bool :=
  match s.thermal.get id with
  | .soft | .hard | .cooldown => true
  | _ => false

end Planner

/-! ## Pass 0 -/

/-- What pass 0 computes. -/
structure PlannerSnapshot where
  scaleOutCandidates : List LlmProvider
  /-- The models with demand, in the order of `model_demand`. -/
  modelDemand : List String
  eligibleCapacity : String → Option ℕ
  /-- In the order of `scale_out_needed`. -/
  scaleOutNeeded : List String

namespace Planner
variable (s : Planner)

/-- The healthy providers with free VRAM; asking the circuit breaker may change it. -/
def scaleOutCandidates : List LlmProvider → Planner → Planner × List LlmProvider
  | [], s => (s, [])
  | p :: rest, s =>
    if s.isThrottled p.id then scaleOutCandidates rest s
    else
      let (cb, allowed) := s.cb.isAllowed p.id s.now
      let free := s.availableVramMb p.id
      let (s', candidates) := scaleOutCandidates rest { s with cb }
      (s', if allowed ∧ 0 < free then p :: candidates else candidates)

/-- The capacity a provider adds to each of its loaded models. -/
def addCapacity (x : Planner × (String → Option ℕ)) (p : LlmProvider) :
    Planner × (String → Option ℕ) :=
  let (s, capacity) := x
  if s.isThrottled p.id then (s, capacity)
  else
    let (cb, allowed) := s.cb.isAllowed p.id s.now
    let s := { s with cb }
    if allowed = false then (s, capacity)
    else
      let names := (s.loadedModelNames p.id).filter fun model =>
        !s.isPulling p.id model && !s.isDispatchBlocked p.id model
      (s, names.foldl (fun capacity model =>
        Function.update capacity model
          (some (((capacity model).getD 0 + s.maxConcurrent p.id model) % U32))) capacity)

def allModels (v : PlannerView) : List String :=
  (v.ollamaProviders.flatMap fun p => s.loadedModelNames p.id).dedup

/-- The models in `model_demand`. -/
def demanded (v : PlannerView) : List String :=
  (s.allModels v).filter fun model => 0 < v.demand model

def snapshot (v : PlannerView) : Planner × PlannerSnapshot :=
  let (s₁, scaleOutCandidates) := scaleOutCandidates v.ollamaProviders s
  let (s₂, eligibleCapacity) := v.ollamaProviders.foldl addCapacity (s₁, fun _ => none)
  let needed := (s.demanded v).filter fun model =>
    isScaleOutNeeded (v.demand model) ((eligibleCapacity model).getD 0)
  (s₂, { scaleOutCandidates, eligibleCapacity
         modelDemand := v.modelDemandOrder.order (s.demanded v)
         scaleOutNeeded := v.scaleOutNeededOrder.order needed })

end Planner

/-! ## The steps -/

/-- A tick after pass 0. -/
structure PlannerTick where
  state : Planner
  provisionalFree : ProviderId → Option ℕ
  scaleOutServers : List ProviderId
  /-- The preloads that are spawned. -/
  preloads : List (ProviderId × String)
  /-- The providers `cancel_jobs_for_provider` is called for. -/
  drained : List ProviderId

namespace PlannerTick
variable (v : PlannerView) (x : PlannerSnapshot) (t : PlannerTick)

/-- The Hard gate watchdog. -/
def watchdog (t : PlannerTick) (p : LlmProvider) : PlannerTick :=
  let s := t.state
  if s.thermal.get p.id ≠ .hard then t
  else if s.providerActiveRequests p.id = 0 then
    { t with state := { s with thermal := s.thermal.setCooldown p.id } }
  else
    match (s.thermal.states p.id).bind ThrottleState.hardSince with
    | some since =>
      let elapsed := (s.thermal.now - since) / 1000
      if 60 ≤ elapsed ∧ elapsed < 90 then { t with drained := t.drained ++ [p.id] } else t
    | none => t

def free (id : ProviderId) : ℕ := (t.provisionalFree id).getD 0

def hasDemand (id : ProviderId) : Bool :=
  (t.state.loadedModelNames id).any fun model => model ∈ x.modelDemand

/-- The provider has the most free VRAM for a model that needs another server. -/
def isBestForScaleout (p : LlmProvider) : Bool :=
  x.scaleOutNeeded.any fun model =>
    if t.free p.id = 0 ∨ model ∈ t.state.loadedModelNames p.id then false
    else x.scaleOutCandidates.all fun c =>
      c.id = p.id ∨ model ∈ t.state.loadedModelNames c.id ∨ t.free c.id ≤ t.free p.id

/-- Sets or clears the standby flag of a provider, which is then in transition. -/
def setStandby (id : ProviderId) (value : Bool) : PlannerTick :=
  let until' := t.state.nowMs + TRANSITION_GUARD_SECS * 1000
  { t with
    state := { t.state with
      toScoring := t.state.toScoring.setStandby id value
      transitionUntil := Function.update t.state.transitionUntil id until' } }

/-- Step ④: STANDBY recovery. -/
def recover (t : PlannerTick) (p : LlmProvider) : PlannerTick :=
  if t.state.isStandby p.id = false then t
  else if t.state.inTransition p.id then t
  else if t.hasDemand x p.id ∨ t.isBestForScaleout x p ∨ 0 < v.queueLen then
    { t.setStandby p.id false with scaleOutServers := p.id :: t.scaleOutServers }
  else t

def tryAcquireLock (key : LockKey) : PlannerTick × Bool :=
  if t.state.locked key then (t, false)
  else if v.setOk key then
    ({ t with state := { t.state with locked := Function.update t.state.locked key true } }, true)
  else (t, false)

def kvDel (key : LockKey) : PlannerTick :=
  if v.delOk key then
    { t with state := { t.state with locked := Function.update t.state.locked key false } }
  else t

/-- The weight of a model, or 2 GB, is taken from what the provider has free. -/
def reserveFree (id : ProviderId) (model : String) : PlannerTick :=
  match t.provisionalFree id with
  | some free =>
    let weight := t.state.modelWeightMb id model
    let estimate := if 0 < weight then weight else 2048
    { t with provisionalFree := Function.update t.provisionalFree id (some (free - estimate)) }
  | none => t

/-- A preload is spawned; the provider is used this cycle. -/
def spawnPreload (id : ProviderId) (model : String) : PlannerTick :=
  { t with
    scaleOutServers := id :: t.scaleOutServers
    preloads := t.preloads ++ [(id, model)] }

/-- `max_by_key`: the most free VRAM, then the smaller id. -/
def bestServer (model : String) : Option LlmProvider :=
  let modelProviders := match v.ollamaModelRepo with
    | some repo => repo model
    | none => x.scaleOutCandidates.map LlmProvider.id
  let eligible := x.scaleOutCandidates.filter fun p =>
    p.id ∈ modelProviders ∧ model ∉ t.state.loadedModelNames p.id ∧
      !t.state.isPreloading p.id model ∧ !t.state.isPulling p.id model ∧
      !t.state.isPreloadExcluded p.id model ∧ !t.state.inTransition p.id ∧ 0 < t.free p.id
  eligible.foldl (fun best p =>
    match best with
    | none => some p
    | some b =>
      if t.free b.id < t.free p.id ∨ t.free b.id = t.free p.id ∧ p.id ≤ b.id then some p
      else some b) none

/-- Step ①: Scale-Out for a model. -/
def scaleOut (t : PlannerTick) (model : String) : PlannerTick :=
  let preloadingCount := (v.ollamaProviders.filter fun p => t.state.isPreloading p.id model).length
  let avgMc := max ((x.eligibleCapacity model).getD 1) 1
  -- the quotient rounded up
  let neededServers := (v.demand model + avgMc - 1) / avgMc
  if neededServers ≤ preloadingCount then t
  else
    match t.bestServer v x model with
    | none => t
    | some server =>
      let decisionKey := .scaleoutDecision model
      match t.tryAcquireLock v decisionKey with
      | (t, false) => t
      | (t, true) =>
        match t.tryAcquireLock v (.preloadLock model server.id) with
        | (t, false) => t.kvDel v decisionKey
        | (t, true) =>
          let until' := t.state.nowMs + SCALE_OUT_HOLDDOWN_SECS * 1000
          let t := (t.reserveFree server.id model).spawnPreload server.id model
          { t with state := { t.state with
              scaleOutHolddown := Function.update t.state.scaleOutHolddown server.id (some until') } }

/-- A provider is passed over by Step ②. -/
def skipsPreload (model : String) (id : ProviderId) : Bool :=
  let eligible := match v.ollamaModelRepo with
    | some repo => repo model
    | none => v.ollamaProviders.map LlmProvider.id
  id ∉ eligible ∨ t.state.isThrottled id ∨ t.state.isStandby id ∨
    model ∈ t.state.loadedModelNames id ∨ t.state.isPreloading id model ∨
    t.state.isPulling id model ∨ t.state.isPreloadExcluded id model ∨
    (t.provisionalFree id).getD (t.state.availableVramMb id) = 0

/-- Step ② for a model that does not need another server: one preload. -/
def preloadOn (model : String) : List LlmProvider → PlannerTick → PlannerTick
  | [], t => t
  | p :: rest, t =>
    if t.skipsPreload v model p.id then preloadOn model rest t
    else
      match t.tryAcquireLock v (.preloadLock model p.id) with
      | (t, false) => preloadOn model rest t
      | (t, true) => (t.reserveFree p.id model).spawnPreload p.id model

/-- Step ②: Preload. -/
def preload (t : PlannerTick) (model : String) : PlannerTick :=
  if model ∈ x.scaleOutNeeded then t else preloadOn v model v.ollamaProviders t

/-- Step ③ for a loaded model. -/
def evictable (id : ProviderId) (model : String) : Bool :=
  model ∉ x.modelDemand ∧ t.state.activeRequests id model = 0 ∧ !t.state.isPreloading id model ∧
    !t.state.isPulling id model ∧
    shouldEvict (t.state.idleSinceSecs id model) (t.state.isStandby id)

def evictModel (id : ProviderId) (t : PlannerTick) (model : String) : PlannerTick :=
  if t.evictable x id model then
    { t with state := { t.state with
        pool := t.state.pool.markModelUnloaded id model t.state.nowMs } }
  else t

/-- Step ③: Evict. -/
def evict (t : PlannerTick) (p : LlmProvider) : PlannerTick :=
  (t.state.loadedModelNames p.id).foldl (evictModel x p.id) t

/-- Step ⑤: Scale-In. -/
def scaleIn (t : PlannerTick) (p : LlmProvider) : PlannerTick :=
  let s := t.state
  let loaded := s.loadedModelNames p.id
  if p.id ∈ t.scaleOutServers then t
  else if (s.scaleOutHolddown p.id).isSome then t
  else if loaded.isEmpty then t
  else if t.hasDemand x p.id then t
  else if 0 < s.providerActiveRequests p.id then t
  else if loaded.any fun model => s.isPreloading p.id model then t
  else if s.isStandby p.id ∨ s.inTransition p.id then t
  else t.setStandby p.id true

end PlannerTick

namespace Planner
variable (s : Planner) (v : PlannerView)

/-- The hold-downs that have expired are dropped. -/
def dropHolddowns : Planner :=
  { s with scaleOutHolddown := fun id => (s.scaleOutHolddown id).filter fun until' => s.nowMs < until' }

/-- Pass 0 and the watchdog. -/
def start : PlannerTick × PlannerSnapshot :=
  let (s, x) := s.dropHolddowns.snapshot v
  let provisionalFree := fun id =>
    if (x.scaleOutCandidates.map LlmProvider.id).contains id then some (s.availableVramMb id)
    else none
  let t : PlannerTick :=
    { state := s, provisionalFree, scaleOutServers := [], preloads := [], drained := [] }
  (v.ollamaProviders.foldl PlannerTick.watchdog t, x)

/-- Steps ④, ① and ②. -/
def placed : PlannerTick :=
  let (t, x) := s.start v
  let recovered := v.ollamaProviders.foldl (PlannerTick.recover v x) t
  let scaledOut := x.scaleOutNeeded.foldl (PlannerTick.scaleOut v x) recovered
  x.modelDemand.foldl (PlannerTick.preload v x) scaledOut

def plannerTick : Planner :=
  if v.ollamaProviders.isEmpty then s.dropHolddowns
  else
    let x := (s.start v).2
    let evicted := v.ollamaProviders.foldl (PlannerTick.evict x) (s.placed v)
    if 1 < v.ollamaProviders.length ∧ v.queueLen = 0 then
      (v.ollamaProviders.foldl (PlannerTick.scaleIn x) evicted).state
    else evicted.state

end Planner

/-! ## What pass 0 leaves alone -/

/-- Only the circuit breaker, the thermal map and the lock keys may differ. -/
structure Planner.SameFleet (s s' : Planner) : Prop where
  pool : s'.pool = s.pool
  isStandby : s'.isStandby = s.isStandby
  nowMs : s'.nowMs = s.nowMs
  transitionUntil : s'.transitionUntil = s.transitionUntil
  isPulling : s'.isPulling = s.isPulling

namespace Planner
variable {s s' s'' : Planner} {v : PlannerView} {id : ProviderId} {model : String}

theorem SameFleet.refl (s : Planner) : s.SameFleet s := ⟨rfl, rfl, rfl, rfl, rfl⟩

theorem SameFleet.trans (h : s.SameFleet s') (h' : s'.SameFleet s'') : s.SameFleet s'' where
  pool := h'.pool.trans h.pool
  isStandby := h'.isStandby.trans h.isStandby
  nowMs := h'.nowMs.trans h.nowMs
  transitionUntil := h'.transitionUntil.trans h.transitionUntil
  isPulling := h'.isPulling.trans h.isPulling

/-- Pass 0 only asks the circuit breaker. -/
theorem scaleOutCandidates_eq (l : List LlmProvider) (s : Planner) :
    ∃ cb, (scaleOutCandidates l s).1 = { s with cb } := by
  induction l generalizing s with
  | nil => exact ⟨s.cb, rfl⟩
  | cons p l ih =>
    unfold scaleOutCandidates
    split
    · exact ih s
    · exact ih _

theorem addCapacity_eq (x : Planner × (String → Option ℕ)) (p : LlmProvider) :
    ∃ cb, (addCapacity x p).1 = { x.1 with cb } := by
  unfold addCapacity
  dsimp only
  split
  · exact ⟨x.1.cb, rfl⟩
  · split
    · exact ⟨_, rfl⟩
    · exact ⟨_, rfl⟩

theorem snapshot_eq (s : Planner) (v : PlannerView) :
    ∃ cb, (s.snapshot v).1 = { s with cb } :=
  foldl_invariant (I := fun x : Planner × (String → Option ℕ) => ∃ cb, x.1 = { s with cb })
    (s := ((scaleOutCandidates v.ollamaProviders s).1, fun _ => none))
    (scaleOutCandidates_eq v.ollamaProviders s)
    (fun x p hx => by
      obtain ⟨cb, heq⟩ := addCapacity_eq x p
      obtain ⟨cb', heq'⟩ := hx
      exact ⟨cb, heq.trans (by rw [heq'])⟩) v.ollamaProviders

theorem snapshot_sameFleet (s : Planner) (v : PlannerView) :
    s.SameFleet (s.snapshot v).1 ∧ (s.snapshot v).1.scaleOutHolddown = s.scaleOutHolddown := by
  obtain ⟨cb, heq⟩ := snapshot_eq s v
  rw [heq]
  exact ⟨⟨rfl, rfl, rfl, rfl, rfl⟩, rfl⟩

/-- A model a provider has loaded is in `model_demand` if its counter is positive. -/
theorem mem_modelDemand (hp : id ∈ v.ollamaProviders.map LlmProvider.id)
    (hloaded : model ∈ s.loadedModelNames id) :
    model ∈ (s.snapshot v).2.modelDemand ↔ 0 < v.demand model := by
  have hall : model ∈ s.allModels v := by
    obtain ⟨p, hmem, rfl⟩ := List.mem_map.mp hp
    exact List.mem_dedup.mpr (List.mem_flatMap.mpr ⟨p, hmem, hloaded⟩)
  have horder : model ∈ (s.snapshot v).2.modelDemand ↔ model ∈ s.demanded v :=
    (v.modelDemandOrder.perm (s.demanded v)).mem_iff
  rw [horder, demanded, List.mem_filter]
  simp [hall]

end Planner

/-! ## The watchdog and Step ④ -/

namespace PlannerTick
variable {v : PlannerView} {x : PlannerSnapshot} {t₀ t : PlannerTick} {id : ProviderId}
  {model : String}

/-- The watchdog only writes the thermal map, and has jobs cancelled. -/
theorem watchdog_eq (t : PlannerTick) (p : LlmProvider) : ∃ thermal drained,
    t.watchdog p = { t with state := { t.state with thermal }, drained } := by
  unfold watchdog
  dsimp only
  split
  · exact ⟨t.state.thermal, t.drained, rfl⟩
  split
  · exact ⟨_, t.drained, rfl⟩
  split
  · split
    · exact ⟨t.state.thermal, _, rfl⟩
    · exact ⟨t.state.thermal, t.drained, rfl⟩
  · exact ⟨t.state.thermal, t.drained, rfl⟩

theorem recover_cases (t : PlannerTick) (p : LlmProvider) : t.recover v x p = t ∨
    t.recover v x p =
      { t.setStandby p.id false with scaleOutServers := p.id :: t.scaleOutServers } := by
  unfold recover
  split
  · exact .inl rfl
  split
  · exact .inl rfl
  split
  · exact .inr rfl
  · exact .inl rfl

/-- Step ④ wakes a provider that is in standby. -/
def wakes (v : PlannerView) (x : PlannerSnapshot) (t : PlannerTick) (p : LlmProvider) : Bool :=
  !t.state.inTransition p.id &&
    (t.hasDemand x p.id || t.isBestForScaleout x p || decide (0 < v.queueLen))

/-- Step ④ has gone from `t₀` to `t`. -/
structure Recovering (t₀ t : PlannerTick) : Prop where
  pool : t.state.pool = t₀.state.pool
  nowMs : t.state.nowMs = t₀.state.nowMs
  isPulling : t.state.isPulling = t₀.state.isPulling
  holddown : t.state.scaleOutHolddown = t₀.state.scaleOutHolddown
  provisionalFree : t.provisionalFree = t₀.provisionalFree
  asleep : ∀ id, t.state.isStandby id = true → t₀.state.isStandby id = true
  transition : ∀ id, t.state.isStandby id = t₀.state.isStandby id →
    t.state.transitionUntil id = t₀.state.transitionUntil id
  used : ∀ id, t.state.isStandby id ≠ t₀.state.isStandby id → id ∈ t.scaleOutServers

theorem Recovering.refl (t : PlannerTick) : Recovering t t where
  pool := rfl
  nowMs := rfl
  isPulling := rfl
  holddown := rfl
  provisionalFree := rfl
  asleep := fun _ h => h
  transition := fun _ _ => rfl
  used := fun _ h => absurd rfl h

theorem Recovering.wakes_eq (h : Recovering t₀ t) (p : LlmProvider)
    (hstandby : t.state.isStandby p.id = true) : t.wakes v x p = t₀.wakes v x p := by
  have hkept : t.state.isStandby p.id = t₀.state.isStandby p.id :=
    hstandby.trans (h.asleep _ hstandby).symm
  have hloaded : t.state.loadedModelNames = t₀.state.loadedModelNames := by
    funext j
    rw [Scoring.loadedModelNames, h.pool, Scoring.loadedModelNames]
  have hfree : t.free = t₀.free := by
    funext j
    rw [free, h.provisionalFree, free]
  simp only [wakes, hasDemand, isBestForScaleout, Planner.inTransition, hloaded, hfree, h.nowMs,
    h.transition _ hkept]

theorem setStandby_isStandby (t : PlannerTick) (id : ProviderId) (value : Bool) (j : ProviderId) :
    (t.setStandby id value).state.isStandby j = if j = id then value else t.state.isStandby j :=
  Function.update_apply ..

theorem setStandby_transitionUntil (t : PlannerTick) (value : Bool) {j : ProviderId} (h : j ≠ id) :
    (t.setStandby id value).state.transitionUntil j = t.state.transitionUntil j :=
  Function.update_of_ne h ..

theorem recover_eq (t : PlannerTick) (p : LlmProvider) :
    t.recover v x p =
      if t.state.isStandby p.id = true ∧ t.wakes v x p = true then
        { t.setStandby p.id false with scaleOutServers := p.id :: t.scaleOutServers }
      else t := by
  unfold recover wakes
  cases t.state.isStandby p.id <;> cases t.state.inTransition p.id <;> simp [or_assoc]

theorem recover_recovering (h : Recovering t₀ t) (p : LlmProvider) :
    Recovering t₀ (t.recover v x p) := by
  rw [recover_eq]
  split
  · next hwoken =>
    refine ⟨h.pool, h.nowMs, h.isPulling, h.holddown, h.provisionalFree, ?_, ?_, ?_⟩
    · intro j hj
      have hflag := setStandby_isStandby t p.id false j
      by_cases hp : j = p.id
      · rw [if_pos hp] at hflag
        exact absurd (hj.symm.trans hflag) (by decide)
      · rw [if_neg hp] at hflag
        exact h.asleep j (hflag.symm.trans hj)
    · intro j hj
      have hflag := setStandby_isStandby t p.id false j
      by_cases hp : j = p.id
      · rw [if_pos hp] at hflag
        have hslept := h.asleep _ hwoken.1
        rw [← hp] at hslept
        exact absurd (hslept.symm.trans (hj.symm.trans hflag)) (by decide)
      · rw [if_neg hp] at hflag
        exact (setStandby_transitionUntil t false hp).trans (h.transition j (hflag.symm.trans hj))
    · intro j hj
      by_cases hp : j = p.id
      · exact hp ▸ List.mem_cons_self
      · have hflag := setStandby_isStandby t p.id false j
        rw [if_neg hp] at hflag
        exact List.mem_cons_of_mem _ (h.used j fun heq => hj (hflag.trans heq))
  · exact h

/-- Step ④ wakes exactly the providers it has a reason to wake. -/
theorem recovered_isStandby (t₀ : PlannerTick) (l : List LlmProvider) (id : ProviderId) :
    (!(l.foldl (recover v x) t₀).state.isStandby id) =
      (!t₀.state.isStandby id || l.any fun p => decide (p.id = id) && t₀.wakes v x p) := by
  refine foldl_marked (I := Recovering t₀) (fun t id => !t.state.isStandby id) LlmProvider.id
    (t₀.wakes v x) (.refl t₀) (fun t p h => ⟨recover_recovering h p, fun k => ?_⟩) l id
  rw [recover_eq]
  cases hstandby : t.state.isStandby p.id with
  | false =>
    by_cases hk : p.id = k
    · subst hk
      simp [hstandby]
    · simp [hk]
  | true =>
    rw [h.wakes_eq p hstandby]
    cases hwakes : t₀.wakes v x p with
    | false => simp
    | true =>
      rw [if_pos ⟨rfl, rfl⟩, Bool.and_true]
      have hflag := setStandby_isStandby t p.id false k
      show (!(t.setStandby p.id false).state.isStandby k) = _
      rw [hflag]
      by_cases hk : p.id = k
      · simp [hk]
      · simp [hk, Ne.symm hk]

/-! ## Steps ① and ② -/

/-- Only the locks may differ. -/
def SameButLocks (t t' : PlannerTick) : Prop :=
  ∃ locked, t' = { t with state := { t.state with locked } }

theorem SameButLocks.refl (t : PlannerTick) : SameButLocks t t := ⟨t.state.locked, rfl⟩

theorem SameButLocks.trans {t' t'' : PlannerTick} (h : SameButLocks t t')
    (h' : SameButLocks t' t'') : SameButLocks t t'' := by
  obtain ⟨locked, rfl⟩ := h
  obtain ⟨locked', rfl⟩ := h'
  exact ⟨locked', rfl⟩

theorem tryAcquireLock_locks (t : PlannerTick) (key : LockKey) :
    SameButLocks t (t.tryAcquireLock v key).1 := by
  unfold tryAcquireLock
  split
  · exact .refl t
  · split
    · exact ⟨_, rfl⟩
    · exact .refl t

theorem kvDel_locks (t : PlannerTick) (key : LockKey) : SameButLocks t (t.kvDel v key) := by
  unfold kvDel
  split
  · exact ⟨_, rfl⟩
  · exact .refl t

/-- Step ① takes locks, and may spawn a preload on the best server. -/
theorem scaleOut_cases (t : PlannerTick) (model : String) :
    SameButLocks t (t.scaleOut v x model) ∨
      ∃ (t' : PlannerTick) (server : LlmProvider) (until' : Millis),
        SameButLocks t t' ∧ t.bestServer v x model = some server ∧
        let spawned := (t'.reserveFree server.id model).spawnPreload server.id model
        t.scaleOut v x model =
          { spawned with state := { spawned.state with
              scaleOutHolddown :=
                Function.update spawned.state.scaleOutHolddown server.id (some until') } } := by
  unfold scaleOut
  dsimp only
  split
  · exact .inl (.refl t)
  split
  · exact .inl (.refl t)
  next server hbest =>
  have hdecision := tryAcquireLock_locks (v := v) t (.scaleoutDecision model)
  generalize t.tryAcquireLock v (.scaleoutDecision model) = decision at hdecision ⊢
  obtain ⟨t₁, acquired⟩ := decision
  cases acquired with
  | false => exact .inl hdecision
  | true =>
    have hpreload := tryAcquireLock_locks (v := v) t₁ (.preloadLock model server.id)
    dsimp only
    generalize t₁.tryAcquireLock v (.preloadLock model server.id) = lock at hpreload ⊢
    obtain ⟨t₂, acquired⟩ := lock
    cases acquired with
    | false => exact .inl ((hdecision.trans hpreload).trans (kvDel_locks t₂ _))
    | true => exact .inr ⟨t₂, server, _, hdecision.trans hpreload, hbest, rfl⟩

/-- Step ② takes locks, and may spawn a preload on a provider it does not pass over. -/
theorem preloadOn_cases (model : String) (l : List LlmProvider) (t : PlannerTick) :
    SameButLocks t (preloadOn v model l t) ∨
      ∃ (t' : PlannerTick) (p : LlmProvider), SameButLocks t t' ∧
        t'.skipsPreload v model p.id = false ∧
        preloadOn v model l t = (t'.reserveFree p.id model).spawnPreload p.id model := by
  induction l generalizing t with
  | nil => exact .inl (.refl t)
  | cons p l ih =>
    unfold preloadOn
    split
    · exact ih t
    next hskips =>
    have hlock := tryAcquireLock_locks (v := v) t (.preloadLock model p.id)
    generalize t.tryAcquireLock v (.preloadLock model p.id) = lock at hlock ⊢
    obtain ⟨t₁, acquired⟩ := lock
    cases acquired with
    | false =>
      rcases ih t₁ with hlocks | ⟨t', p', hlocks, hspawned⟩
      · exact .inl (hlock.trans hlocks)
      · exact .inr ⟨t', p', hlock.trans hlocks, hspawned⟩
    | true =>
      have hsame : t₁.skipsPreload v model p.id = t.skipsPreload v model p.id := by
        obtain ⟨locked, rfl⟩ := hlock
        rfl
      exact .inr ⟨t₁, p, hlock, hsame.trans (Bool.eq_false_of_not_eq_true hskips), rfl⟩

/-- A step that only takes locks, provisional memory and servers. -/
structure Places (t t' : PlannerTick) : Prop where
  fleet : t.state.SameFleet t'.state
  servers : ∀ id ∈ t.scaleOutServers, id ∈ t'.scaleOutServers
  /-- A hold-down is only begun for a server of the cycle. -/
  holddown : ∀ id, t'.state.scaleOutHolddown id = t.state.scaleOutHolddown id ∨
    id ∈ t'.scaleOutServers

theorem Places.refl (t : PlannerTick) : Places t t :=
  ⟨.refl _, fun _ h => h, fun _ => .inl rfl⟩

theorem Places.trans {t' t'' : PlannerTick} (h : Places t t') (h' : Places t' t'') :
    Places t t'' := by
  refine ⟨h.fleet.trans h'.fleet, fun id hid => h'.servers id (h.servers id hid), fun id => ?_⟩
  rcases h'.holddown id with heq | hused
  · rcases h.holddown id with heq' | hused
    · exact .inl (heq.trans heq')
    · exact .inr (h'.servers id hused)
  · exact .inr hused

theorem SameButLocks.places {t' : PlannerTick} (h : SameButLocks t t') : Places t t' := by
  obtain ⟨locked, rfl⟩ := h
  exact ⟨⟨rfl, rfl, rfl, rfl, rfl⟩, fun _ h => h, fun _ => .inl rfl⟩

theorem reserveFree_places (t : PlannerTick) (id : ProviderId) (model : String) :
    Places t (t.reserveFree id model) := by
  unfold reserveFree
  split
  · exact ⟨⟨rfl, rfl, rfl, rfl, rfl⟩, fun _ h => h, fun _ => .inl rfl⟩
  · exact .refl t

theorem spawnPreload_places (t : PlannerTick) (id : ProviderId) (model : String) :
    Places t (t.spawnPreload id model) :=
  ⟨⟨rfl, rfl, rfl, rfl, rfl⟩, fun _ h => List.mem_cons_of_mem _ h, fun _ => .inl rfl⟩

theorem scaleOut_places (t : PlannerTick) (model : String) : Places t (t.scaleOut v x model) := by
  rcases scaleOut_cases (v := v) (x := x) t model with hlocks |
    ⟨t', server, until', hlocks, -, heq⟩
  · exact hlocks.places
  · rw [heq]
    have hspawned := (reserveFree_places t' server.id model).trans
      (spawnPreload_places _ server.id model)
    refine (hlocks.places.trans hspawned).trans ?_
    refine ⟨⟨rfl, rfl, rfl, rfl, rfl⟩, fun _ h => h, fun id => ?_⟩
    by_cases hid : id = server.id
    · exact .inr (hid ▸ List.mem_cons_self)
    · exact .inl (Function.update_of_ne hid ..)

theorem preloadOn_places (model : String) (l : List LlmProvider) (t : PlannerTick) :
    Places t (preloadOn v model l t) := by
  rcases preloadOn_cases (v := v) model l t with hlocks | ⟨t', p, hlocks, -, heq⟩
  · exact hlocks.places
  · rw [heq]
    exact (hlocks.places.trans (reserveFree_places t' p.id model)).trans
      (spawnPreload_places _ p.id model)

theorem preload_places (t : PlannerTick) (model : String) : Places t (t.preload v x model) := by
  unfold preload
  split
  · exact .refl t
  · exact preloadOn_places model _ t

/-! ## Step ③ -/

/-- Step ③ has gone from `t₀` to `t` and has been at the models `visited`. -/
structure Evicting (x : PlannerSnapshot) (t₀ t : PlannerTick)
    (visited : ProviderId → String → Prop) : Prop where
  isStandby : t.state.isStandby = t₀.state.isStandby
  nowMs : t.state.nowMs = t₀.state.nowMs
  transitionUntil : t.state.transitionUntil = t₀.state.transitionUntil
  isPulling : t.state.isPulling = t₀.state.isPulling
  holddown : t.state.scaleOutHolddown = t₀.state.scaleOutHolddown
  servers : t.scaleOutServers = t₀.scaleOutServers
  active : ∀ id, t.state.providerActiveRequests id = t₀.state.providerActiveRequests id
  loaded : ∀ id model, model ∈ t.state.loadedModelNames id ↔
    model ∈ t₀.state.loadedModelNames id ∧ ¬ (visited id model ∧ t₀.evictable x id model = true)
  /-- The entry of a model that is still loaded. -/
  entry : ∀ id model, model ∈ t.state.loadedModelNames id →
    (t.state.pool.provider id).models.lookup model = (t₀.state.pool.provider id).models.lookup model

theorem Evicting.refl (t : PlannerTick) : Evicting x t t fun _ _ => False where
  isStandby := rfl
  nowMs := rfl
  transitionUntil := rfl
  isPulling := rfl
  holddown := rfl
  servers := rfl
  active := fun _ => rfl
  loaded := fun _ _ => by simp
  entry := fun _ _ _ => rfl

theorem Evicting.congr {visited visited' : ProviderId → String → Prop}
    (h : Evicting x t₀ t visited) (hloaded : ∀ id model, model ∈ t.state.loadedModelNames id ↔
      model ∈ t₀.state.loadedModelNames id ∧
        ¬ (visited' id model ∧ t₀.evictable x id model = true)) :
    Evicting x t₀ t visited' :=
  { h with loaded := hloaded }

theorem mem_loadedModelNames {s : Scoring} : model ∈ s.loadedModelNames id ↔
    ∃ ms, (s.pool.provider id).models.lookup model = some ms ∧ ms.isLoaded :=
  ProviderVramState.mem_loadedModelNames

/-- Evictability is read from the entry of the model. -/
theorem Evicting.evictable_eq {visited : ProviderId → String → Prop} (h : Evicting x t₀ t visited)
    (hloaded : model ∈ t.state.loadedModelNames id) :
    t.evictable x id model = t₀.evictable x id model := by
  have hentry := h.entry id model hloaded
  have hactive : t.state.activeRequests id model = t₀.state.activeRequests id model := by
    simp only [Planner.activeRequests, ProviderVramState.activeRequests, hentry]
  have hpreloading : t.state.isPreloading id model = t₀.state.isPreloading id model := by
    simp only [Planner.isPreloading, hentry]
  have hidle : t.state.idleSinceSecs id model = t₀.state.idleSinceSecs id model := by
    simp only [Planner.idleSinceSecs, hentry, h.nowMs]
  rw [evictable, evictable, hactive, hpreloading, hidle, h.isPulling, h.isStandby]

/-- Unloading a model leaves the other entries. -/
theorem markModelUnloaded_lookup (pool : VramPool) (now : Millis) {j : ProviderId} {m : String}
    (h : ¬ (j = id ∧ m = model)) :
    ((pool.markModelUnloaded id model now).provider j).models.lookup m =
      (pool.provider j).models.lookup m := by
  rw [VramPool.provider_markModelUnloaded, VramPool.provider_setProvider]
  by_cases hj : j = id
  · have hm : m ≠ model := fun hm => h ⟨hj, hm⟩
    rw [if_pos hj, hj]
    unfold ProviderVramState.unload
    split
    · exact AList.lookup_insert_ne hm
    · rfl
  · rw [if_neg hj]

theorem markModelUnloaded_loaded (pool : VramPool) (id : ProviderId) (model : String)
    (now : Millis) : model ∉ ((pool.markModelUnloaded id model now).provider id).loadedModelNames := by
  rw [VramPool.provider_markModelUnloaded, VramPool.provider_setProvider, if_pos rfl,
    ProviderVramState.mem_loadedModelNames]
  rintro ⟨ms, hlookup, hloaded⟩
  have hflag := (VramPool.unload_flags (pool.provider id) model now).2 model
  rw [if_pos rfl, ProviderVramState.hasLoaded, hlookup] at hflag
  exact absurd (hloaded.symm.trans hflag) (by decide)

theorem markModelUnloaded_active (pool : VramPool) (id : ProviderId) (model : String)
    (now : Millis) (j : ProviderId) :
    ((pool.markModelUnloaded id model now).provider j).totalActiveCount =
      (pool.provider j).totalActiveCount := by
  rw [VramPool.provider_markModelUnloaded, VramPool.provider_setProvider]
  split
  · next hj =>
    rw [hj]
    unfold ProviderVramState.unload
    split
    · rfl
    · rfl
  · rfl

theorem evictModel_evicting {visited : ProviderId → String → Prop} (h : Evicting x t₀ t visited)
    (id : ProviderId) (model : String) :
    Evicting x t₀ (t.evictModel x id model)
      fun j m => visited j m ∨ j = id ∧ m = model := by
  have hagrees : model ∈ t.state.loadedModelNames id →
      t.evictable x id model = t₀.evictable x id model := h.evictable_eq
  have hbefore := h.loaded
  unfold evictModel
  split
  · next hevict =>
    have hother : ∀ j m, ¬ (j = id ∧ m = model) →
        (((t.state.pool.markModelUnloaded id model t.state.nowMs).provider j).models.lookup m =
          (t.state.pool.provider j).models.lookup m) :=
      fun j m hne => markModelUnloaded_lookup t.state.pool t.state.nowMs hne
    have hnames : ∀ j m, ¬ (j = id ∧ m = model) →
        (m ∈ ((t.state.pool.markModelUnloaded id model t.state.nowMs).provider j).loadedModelNames ↔
          m ∈ t.state.loadedModelNames j) := by
      intro j m hne
      rw [ProviderVramState.mem_loadedModelNames, hother j m hne]
      exact ProviderVramState.mem_loadedModelNames.symm
    have hgone := markModelUnloaded_loaded t.state.pool id model t.state.nowMs
    refine ⟨h.isStandby, h.nowMs, h.transitionUntil, h.isPulling, h.holddown, h.servers, ?_, ?_, ?_⟩
    · intro j
      exact (markModelUnloaded_active t.state.pool id model t.state.nowMs j).trans (h.active j)
    · intro j m
      by_cases hne : j = id ∧ m = model
      · obtain ⟨rfl, rfl⟩ := hne
        refine iff_of_false hgone ?_
        rintro ⟨hloaded, hkept⟩
        by_cases hstill : m ∈ t.state.loadedModelNames j
        · exact hkept ⟨.inr ⟨rfl, rfl⟩, hagrees hstill ▸ hevict⟩
        · refine hstill ((hbefore j m).mpr ⟨hloaded, fun hvisited => ?_⟩)
          exact hkept ⟨.inl hvisited.1, hvisited.2⟩
      · refine (hnames j m hne).trans ((hbefore j m).trans ?_)
        simp [hne]
    · intro j m hloaded
      by_cases hne : j = id ∧ m = model
      · obtain ⟨rfl, rfl⟩ := hne
        exact absurd hloaded hgone
      · exact (hother j m hne).trans (h.entry j m ((hnames j m hne).mp hloaded))
  · next hkept =>
    refine h.congr fun j m => ?_
    rw [hbefore]
    by_cases hne : j = id ∧ m = model
    · obtain ⟨rfl, rfl⟩ := hne
      refine and_congr_right fun hloaded => not_congr ?_
      constructor
      · exact fun hvisited => ⟨.inl hvisited.1, hvisited.2⟩
      · rintro ⟨-, hevict⟩
        by_contra hnot
        have hstill := (hbefore j m).mpr ⟨hloaded, hnot⟩
        exact hkept ((hagrees hstill).trans hevict)
    · simp [hne]

theorem evict_evicting {visited : ProviderId → String → Prop} (h : Evicting x t₀ t visited)
    (p : LlmProvider) :
    Evicting x t₀ (t.evict x p) fun j m => visited j m ∨ j = p.id := by
  have hnames : ∀ (names : List String) (t' : PlannerTick) (seen : ProviderId → String → Prop),
      Evicting x t₀ t' seen → Evicting x t₀ (names.foldl (evictModel x p.id) t')
        fun j m => seen j m ∨ j = p.id ∧ m ∈ names := by
    intro names
    induction names with
    | nil =>
      intro t' seen h
      refine h.congr fun j m => ?_
      rw [h.loaded]
      simp
    | cons name names ih =>
      intro t' seen h
      have hrest := ih _ _ (evictModel_evicting h p.id name)
      refine hrest.congr fun j m => ?_
      rw [hrest.loaded, or_assoc, ← and_or_left, List.mem_cons]
  have hall := hnames (t.state.loadedModelNames p.id) t visited h
  refine hall.congr fun j m => (hall.loaded j m).trans ?_
  refine and_congr_right fun hloaded => not_congr ⟨?_, ?_⟩
  · rintro ⟨hvisited | ⟨hj, -⟩, hevict⟩
    · exact ⟨.inl hvisited, hevict⟩
    · exact ⟨.inr hj, hevict⟩
  · rintro ⟨hvisited | rfl, hevict⟩
    · exact ⟨.inl hvisited, hevict⟩
    · by_cases hstill : m ∈ t.state.loadedModelNames p.id
      · exact ⟨.inr ⟨rfl, hstill⟩, hevict⟩
      · have hgone := (h.loaded p.id m).not.mp hstill
        have hvisited : visited p.id m ∧ t₀.evictable x p.id m = true := by
          by_contra hnot
          exact hgone ⟨hloaded, hnot⟩
        exact ⟨.inl hvisited.1, hevict⟩

/-- Step ③ unloads the evictable models of the providers it visits. -/
theorem evicted_evicting (t₀ : PlannerTick) (l : List LlmProvider) :
    Evicting x t₀ (l.foldl (evict x) t₀) fun j _ => j ∈ l.map LlmProvider.id := by
  induction l using List.reverseRecOn with
  | nil => simpa using Evicting.refl t₀
  | append_singleton l p ih =>
    rw [List.foldl_concat]
    simpa using evict_evicting ih p

/-! ## Step ⑤ -/

/-- Step ⑤ marks a provider that is not in standby. -/
def marks (x : PlannerSnapshot) (t : PlannerTick) (id : ProviderId) : Bool :=
  !(decide (id ∈ t.scaleOutServers) || (t.state.scaleOutHolddown id).isSome ||
    t.state.inTransition id || decide (0 < t.state.providerActiveRequests id) ||
    (t.hasDemand x id ||
      (t.state.loadedModelNames id).any fun model => t.state.isPreloading id model) ||
    (t.state.loadedModelNames id).isEmpty)

theorem scaleIn_eq (t : PlannerTick) (p : LlmProvider) :
    t.scaleIn x p =
      if t.state.isStandby p.id = false ∧ t.marks x p.id = true then t.setStandby p.id true
      else t := by
  unfold scaleIn marks
  by_cases hserver : p.id ∈ t.scaleOutServers
  · simp [hserver]
  by_cases hheld : (t.state.scaleOutHolddown p.id).isSome
  · simp [hserver, hheld]
  by_cases hempty : (t.state.loadedModelNames p.id).isEmpty
  · simp [hserver, hheld, hempty]
  by_cases hdemand : t.hasDemand x p.id
  · simp [hserver, hheld, hempty, hdemand]
  by_cases hactive : 0 < t.state.providerActiveRequests p.id
  · simp [hserver, hheld, hempty, hdemand, hactive]
  by_cases hpreloading :
      (t.state.loadedModelNames p.id).any fun model => t.state.isPreloading p.id model
  · simp [hserver, hheld, hempty, hdemand, hactive, hpreloading]
  cases hstandby : t.state.isStandby p.id <;> cases htransition : t.state.inTransition p.id <;>
    simp [hserver, hheld, hempty, hdemand, hactive, hpreloading, hstandby, htransition]

/-- Step ⑤ has gone from `t₀` to `t`. -/
structure ScalingIn (t₀ t : PlannerTick) : Prop where
  pool : t.state.pool = t₀.state.pool
  nowMs : t.state.nowMs = t₀.state.nowMs
  holddown : t.state.scaleOutHolddown = t₀.state.scaleOutHolddown
  servers : t.scaleOutServers = t₀.scaleOutServers
  /-- A provider that is still awake has not been touched. -/
  awake : ∀ id, t.state.isStandby id = false →
    t.state.transitionUntil id = t₀.state.transitionUntil id

theorem ScalingIn.refl (t : PlannerTick) : ScalingIn t t := ⟨rfl, rfl, rfl, rfl, fun _ _ => rfl⟩

theorem ScalingIn.marks_eq (h : ScalingIn t₀ t) (hawake : t.state.isStandby id = false) :
    t.marks x id = t₀.marks x id := by
  have hloaded : t.state.loadedModelNames = t₀.state.loadedModelNames := by
    funext j
    rw [Scoring.loadedModelNames, h.pool, Scoring.loadedModelNames]
  have hpreloading : t.state.isPreloading = t₀.state.isPreloading := by
    funext j model
    rw [Planner.isPreloading, h.pool, Planner.isPreloading]
  have hactive : t.state.providerActiveRequests = t₀.state.providerActiveRequests := by
    funext j
    rw [Scoring.providerActiveRequests, h.pool, Scoring.providerActiveRequests]
  simp only [marks, hasDemand, Planner.inTransition, hloaded, hpreloading, hactive, h.servers,
    h.holddown, h.nowMs, h.awake id hawake]

theorem scaleIn_scalingIn (h : ScalingIn t₀ t) (p : LlmProvider) :
    ScalingIn t₀ (t.scaleIn x p) := by
  rw [scaleIn_eq]
  split
  · refine ⟨h.pool, h.nowMs, h.holddown, h.servers, fun j hj => ?_⟩
    have hflag := setStandby_isStandby t p.id true j
    by_cases hp : j = p.id
    · rw [if_pos hp] at hflag
      exact absurd (hj.symm.trans hflag) (by decide)
    · rw [if_neg hp] at hflag
      exact (setStandby_transitionUntil t true hp).trans (h.awake j (hflag.symm.trans hj))
  · exact h

/-- Step ⑤ marks exactly the providers that no guard keeps. -/
theorem scaledIn_isStandby (t₀ : PlannerTick) (l : List LlmProvider) (id : ProviderId) :
    (l.foldl (scaleIn x) t₀).state.isStandby id =
      (t₀.state.isStandby id || l.any fun p => decide (p.id = id) && t₀.marks x p.id) := by
  refine foldl_marked (I := ScalingIn t₀) (fun t id => t.state.isStandby id) LlmProvider.id
    (fun p => t₀.marks x p.id) (.refl t₀) (fun t p h => ⟨scaleIn_scalingIn h p, fun k => ?_⟩) l id
  rw [scaleIn_eq]
  cases hstandby : t.state.isStandby p.id with
  | true =>
    by_cases hk : p.id = k
    · subst hk
      simp [hstandby]
    · simp [hk]
  | false =>
    rw [h.marks_eq hstandby]
    cases hmarks : t₀.marks x p.id with
    | false => simp
    | true =>
      rw [if_pos ⟨rfl, rfl⟩, Bool.and_true, setStandby_isStandby]
      by_cases hk : p.id = k
      · simp [hk]
      · simp [hk, Ne.symm hk]

end PlannerTick

/-! ## The tick -/

namespace Planner
variable (s : Planner) (v : PlannerView)

/-- Step ④ has a reason to take the provider out of standby, apart from jobs that wait. -/
def Wakes (p : LlmProvider) : Prop :=
  s.isStandby p.id = true ∧ s.inTransition p.id = false ∧
    ((∃ model ∈ s.loadedModelNames p.id, 0 < v.demand model) ∨
      (s.start v).1.isBestForScaleout (s.start v).2 p = true)

/-- Step ⑤ has a reason to pass over a provider that is not in standby. -/
def Spared (id : ProviderId) : Prop :=
  id ∈ (s.placed v).scaleOutServers ∨
  (∃ until', s.scaleOutHolddown id = some until' ∧ s.nowMs < until') ∨
  s.inTransition id = true ∨
  0 < s.providerActiveRequests id ∨
  (∃ model ∈ s.loadedModelNames id, 0 < v.demand model ∨ s.isPreloading id model = true) ∨
  ∀ model ∈ s.loadedModelNames id, s.activeRequests id model = 0 ∧
    s.isPulling id model = false ∧ EVICT_IDLE_SECS ≤ s.idleSinceSecs id model

variable {s v} {id : ProviderId}

theorem start_sameFleet (s : Planner) (v : PlannerView) :
    s.SameFleet (s.start v).1.state ∧
      (s.start v).1.state.scaleOutHolddown = s.dropHolddowns.scaleOutHolddown := by
  have hdropped : s.SameFleet s.dropHolddowns := ⟨rfl, rfl, rfl, rfl, rfl⟩
  obtain ⟨hsnapshot, hheld⟩ := snapshot_sameFleet s.dropHolddowns v
  have hwatch : ∀ (t : PlannerTick) p, s.SameFleet t.state ∧
      t.state.scaleOutHolddown = s.dropHolddowns.scaleOutHolddown →
      s.SameFleet (t.watchdog p).state ∧
        (t.watchdog p).state.scaleOutHolddown = s.dropHolddowns.scaleOutHolddown := by
    rintro t p ⟨hfleet, hheld⟩
    obtain ⟨thermal, drained, heq⟩ := t.watchdog_eq p
    rw [heq]
    exact ⟨⟨hfleet.pool, hfleet.isStandby, hfleet.nowMs, hfleet.transitionUntil, hfleet.isPulling⟩,
      hheld⟩
  exact foldl_invariant (I := fun t : PlannerTick => s.SameFleet t.state ∧
    t.state.scaleOutHolddown = s.dropHolddowns.scaleOutHolddown)
    ⟨hdropped.trans hsnapshot, hheld⟩ hwatch v.ollamaProviders

/-- The tick after Step ④. -/
def recovered (s : Planner) (v : PlannerView) : PlannerTick :=
  v.ollamaProviders.foldl (PlannerTick.recover v (s.start v).2) (s.start v).1

theorem recovered_recovering (s : Planner) (v : PlannerView) :
    PlannerTick.Recovering (s.start v).1 (s.recovered v) :=
  foldl_invariant (I := PlannerTick.Recovering (s.start v).1) (.refl _)
    (fun _ p h => PlannerTick.recover_recovering h p) v.ollamaProviders

theorem placed_places (s : Planner) (v : PlannerView) :
    PlannerTick.Places (s.recovered v) (s.placed v) := by
  have hscaled : PlannerTick.Places (s.recovered v)
      ((s.start v).2.scaleOutNeeded.foldl (PlannerTick.scaleOut v (s.start v).2) (s.recovered v)) :=
    foldl_invariant (I := PlannerTick.Places (s.recovered v)) (.refl _)
      (fun t model h => h.trans (PlannerTick.scaleOut_places t model)) _
  exact foldl_invariant (I := PlannerTick.Places (s.recovered v)) hscaled
    (fun t model h => h.trans (PlannerTick.preload_places t model)) _

theorem placed_pool (s : Planner) (v : PlannerView) :
    (s.placed v).state.pool = s.pool ∧ (s.placed v).state.nowMs = s.nowMs ∧
      (s.placed v).state.isPulling = s.isPulling := by
  obtain ⟨hfleet, -⟩ := start_sameFleet s v
  have hrecovered := recovered_recovering s v
  have hplaced := (placed_places s v).fleet
  exact ⟨hplaced.pool.trans (hrecovered.pool.trans hfleet.pool),
    hplaced.nowMs.trans (hrecovered.nowMs.trans hfleet.nowMs),
    hplaced.isPulling.trans (hrecovered.isPulling.trans hfleet.isPulling)⟩

theorem mem_start_modelDemand {p : LlmProvider} (hp : p ∈ v.ollamaProviders) {model : String}
    (hloaded : model ∈ s.loadedModelNames p.id) :
    model ∈ (s.start v).2.modelDemand ↔ 0 < v.demand model :=
  mem_modelDemand (s := s.dropHolddowns) (List.mem_map_of_mem hp) hloaded

theorem start_wakes_iff (hqueue : v.queueLen = 0) {p : LlmProvider} (hp : p ∈ v.ollamaProviders) :
    (s.isStandby p.id = true ∧ (s.start v).1.wakes v (s.start v).2 p = true) ↔ s.Wakes v p := by
  obtain ⟨hfleet, -⟩ := start_sameFleet s v
  have hloaded : (s.start v).1.state.loadedModelNames p.id = s.loadedModelNames p.id := by
    rw [Scoring.loadedModelNames, hfleet.pool, Scoring.loadedModelNames]
  have htransition : (s.start v).1.state.inTransition p.id = s.inTransition p.id := by
    rw [inTransition, hfleet.transitionUntil, hfleet.nowMs, inTransition]
  have hdemand : (s.start v).1.hasDemand (s.start v).2 p.id = true ↔
      ∃ model ∈ s.loadedModelNames p.id, 0 < v.demand model := by
    rw [PlannerTick.hasDemand, hloaded, List.any_eq_true]
    refine exists_congr fun model => and_congr_right fun hmem => ?_
    rw [decide_eq_true_iff]
    exact mem_start_modelDemand hp hmem
  simp only [PlannerTick.wakes, Wakes, htransition, Bool.and_eq_true, Bool.or_eq_true, hdemand,
    hqueue, Bool.not_eq_true', decide_eq_true_iff, Nat.lt_irrefl, or_false]

/-- Before Step ⑤ exactly those providers are awake that were, or that Step ④ has woken. -/
theorem placed_isStandby (hqueue : v.queueLen = 0) (id : ProviderId) :
    (s.placed v).state.isStandby id = false ↔
      s.isStandby id = false ∨ ∃ p ∈ v.ollamaProviders, p.id = id ∧ s.Wakes v p := by
  obtain ⟨hfleet, -⟩ := start_sameFleet s v
  have hflag := PlannerTick.recovered_isStandby (v := v) (x := (s.start v).2) (s.start v).1
    v.ollamaProviders id
  have hplaced : (s.placed v).state.isStandby id = (s.recovered v).state.isStandby id := by
    rw [(placed_places s v).fleet.isStandby]
  have hstart : (s.start v).1.state.isStandby id = s.isStandby id := by rw [hfleet.isStandby]
  have hwoken : (∃ p ∈ v.ollamaProviders, p.id = id ∧ s.Wakes v p) ↔
      ∃ p ∈ v.ollamaProviders, p.id = id ∧ s.isStandby id = true ∧
        (s.start v).1.wakes v (s.start v).2 p = true := by
    refine exists_congr fun p => and_congr_right fun hp => and_congr_right fun hid => ?_
    rw [← hid]
    exact (start_wakes_iff hqueue hp).symm
  rw [hplaced, hwoken, ← Bool.not_eq_true', recovered, hflag, hstart]
  cases s.isStandby id <;> simp

/-- The tick before Step ⑤. -/
def evicted (s : Planner) (v : PlannerView) : PlannerTick :=
  v.ollamaProviders.foldl (PlannerTick.evict (s.start v).2) (s.placed v)

theorem evicted_evicting (s : Planner) (v : PlannerView) :
    PlannerTick.Evicting (s.start v).2 (s.placed v) (s.evicted v)
      fun id _ => id ∈ v.ollamaProviders.map LlmProvider.id :=
  PlannerTick.evicted_evicting (s.placed v) v.ollamaProviders

/-- A server that Step ④ has woken is used this cycle. -/
theorem mem_servers_of_woken (hslept : s.isStandby id = true)
    (hawake : (s.placed v).state.isStandby id = false) : id ∈ (s.placed v).scaleOutServers := by
  have hplaced := placed_places s v
  refine hplaced.servers id ((recovered_recovering s v).used id ?_)
  rw [← hplaced.fleet.isStandby, hawake, (start_sameFleet s v).1.isStandby, hslept]
  decide

theorem evicted_loaded_iff {p : LlmProvider} (hp : p ∈ v.ollamaProviders) (hid : p.id = id)
    {model : String} : model ∈ (s.evicted v).state.loadedModelNames id ↔
    model ∈ s.loadedModelNames id ∧ ¬ (s.placed v).evictable (s.start v).2 id model = true := by
  have hvisited : id ∈ v.ollamaProviders.map LlmProvider.id := hid ▸ List.mem_map_of_mem hp
  have hnames : (s.placed v).state.loadedModelNames id = s.loadedModelNames id := by
    rw [Scoring.loadedModelNames, (placed_pool s v).1, Scoring.loadedModelNames]
  rw [(evicted_evicting s v).loaded id model, hnames]
  simp [hvisited]

/-- Only servers of this cycle are held down besides those that were. -/
theorem evicted_holddown : (id ∈ (s.placed v).scaleOutServers ∨
    ((s.evicted v).state.scaleOutHolddown id).isSome = true) ↔
    (id ∈ (s.placed v).scaleOutServers ∨
      ∃ until', s.scaleOutHolddown id = some until' ∧ s.nowMs < until') := by
  have hstart : ((s.recovered v).state.scaleOutHolddown id).isSome = true ↔
      ∃ until', s.scaleOutHolddown id = some until' ∧ s.nowMs < until' := by
    rw [(recovered_recovering s v).holddown, (start_sameFleet s v).2]
    show ((s.scaleOutHolddown id).filter fun until' => s.nowMs < until').isSome = true ↔ _
    cases s.scaleOutHolddown id with
    | none => simp
    | some until' => simp [Option.filter_some]
  rw [(evicted_evicting s v).holddown, ← hstart]
  rcases (placed_places s v).holddown id with heq | hused
  · rw [heq]
  · simp [hused]

section Awake
variable (hawake : s.isStandby id = false)
include hawake

theorem placed_awake : (s.placed v).state.isStandby id = false ∧
    (s.placed v).state.transitionUntil id = s.transitionUntil id := by
  obtain ⟨hfleet, -⟩ := start_sameFleet s v
  have hrecovered := recovered_recovering s v
  have hplaced := (placed_places s v).fleet
  have hflag : (s.recovered v).state.isStandby id = false := by
    cases hslept : (s.recovered v).state.isStandby id with
    | false => rfl
    | true =>
      have hstart := hrecovered.asleep id hslept
      rw [hfleet.isStandby, hawake] at hstart
      exact hstart.symm
  have hsame : (s.recovered v).state.isStandby id = (s.start v).1.state.isStandby id := by
    rw [hflag, hfleet.isStandby, hawake]
  refine ⟨by rw [hplaced.isStandby, hflag], ?_⟩
  rw [hplaced.transitionUntil, hrecovered.transition id hsame, hfleet.transitionUntil]

theorem placed_evictable_iff {p : LlmProvider} (hp : p ∈ v.ollamaProviders) (hid : p.id = id)
    {model : String} (hloaded : model ∈ s.loadedModelNames id) :
    (s.placed v).evictable (s.start v).2 id model = true ↔
      ¬ (0 < v.demand model ∨ s.isPreloading id model = true) ∧
        s.activeRequests id model = 0 ∧ s.isPulling id model = false ∧
          EVICT_IDLE_SECS ≤ s.idleSinceSecs id model := by
  obtain ⟨hpool, hnow, hpulling⟩ := placed_pool s v
  have hdemand : model ∈ (s.start v).2.modelDemand ↔ 0 < v.demand model := by
    subst hid
    exact mem_start_modelDemand hp hloaded
  have hactive : (s.placed v).state.activeRequests id model = s.activeRequests id model := by
    rw [activeRequests, hpool, activeRequests]
  have hpreloading : (s.placed v).state.isPreloading id model = s.isPreloading id model := by
    rw [isPreloading, hpool, isPreloading]
  have hidle : (s.placed v).state.idleSinceSecs id model = s.idleSinceSecs id model := by
    rw [idleSinceSecs, hpool, hnow, idleSinceSecs]
  rw [PlannerTick.evictable, hactive, hpreloading, hidle, hpulling, (placed_awake hawake).1,
    decide_eq_true_iff, hdemand]
  simp [shouldEvict]
  tauto

section Evicted
variable {p : LlmProvider} (hp : p ∈ v.ollamaProviders) (hid : p.id = id)
include hp hid

/-- No model with demand is evicted. -/
theorem evicted_hasDemand : (s.evicted v).hasDemand (s.start v).2 id = true ↔
    ∃ model ∈ s.loadedModelNames id, 0 < v.demand model := by
  rw [PlannerTick.hasDemand, List.any_eq_true]
  refine exists_congr fun model => ?_
  rw [evicted_loaded_iff hp hid, and_assoc]
  refine and_congr_right fun hmem => ?_
  have hmodel : model ∈ (s.start v).2.modelDemand ↔ 0 < v.demand model := by
    subst hid
    exact mem_start_modelDemand hp hmem
  rw [decide_eq_true_iff, hmodel, placed_evictable_iff hawake hp hid hmem]
  exact and_iff_right_of_imp fun hdemand h => h.1 (.inl hdemand)

/-- No model that is preloading is evicted. -/
theorem evicted_isPreloading : (((s.evicted v).state.loadedModelNames id).any fun model =>
    (s.evicted v).state.isPreloading id model) = true ↔
    ∃ model ∈ s.loadedModelNames id, s.isPreloading id model = true := by
  have hentry : ∀ model ∈ (s.evicted v).state.loadedModelNames id,
      (s.evicted v).state.isPreloading id model = s.isPreloading id model := by
    intro model hmem
    rw [isPreloading, (evicted_evicting s v).entry id model hmem, (placed_pool s v).1, isPreloading]
  rw [List.any_eq_true]
  refine exists_congr fun model => ?_
  constructor
  · rintro ⟨hmem, hpre⟩
    exact ⟨((evicted_loaded_iff hp hid).mp hmem).1, hentry model hmem ▸ hpre⟩
  · rintro ⟨hmem, hpre⟩
    have hstill : model ∈ (s.evicted v).state.loadedModelNames id := by
      rw [evicted_loaded_iff hp hid, placed_evictable_iff hawake hp hid hmem]
      exact ⟨hmem, fun h => h.1 (.inr hpre)⟩
    exact ⟨hstill, (hentry model hstill).trans hpre⟩

/-- Every model is evicted, unless one has demand or is preloading. -/
theorem evicted_isEmpty (hidle : ¬ ∃ model ∈ s.loadedModelNames id,
      0 < v.demand model ∨ s.isPreloading id model = true) :
    ((s.evicted v).state.loadedModelNames id).isEmpty = true ↔
      ∀ model ∈ s.loadedModelNames id, s.activeRequests id model = 0 ∧
        s.isPulling id model = false ∧ EVICT_IDLE_SECS ≤ s.idleSinceSecs id model := by
  rw [List.isEmpty_iff, List.eq_nil_iff_forall_not_mem]
  refine forall_congr' fun model => ?_
  rw [evicted_loaded_iff hp hid, not_and, not_not]
  refine imp_congr_right fun hmem => ?_
  rw [placed_evictable_iff hawake hp hid hmem]
  exact and_iff_right fun h => hidle ⟨model, hmem, h⟩

end Evicted

/-- A provider that was awake is passed over by Step ⑤ exactly if it is spared. -/
theorem evicted_marks_iff {p : LlmProvider} (hp : p ∈ v.ollamaProviders) (hid : p.id = id) :
    (s.evicted v).marks (s.start v).2 id = false ↔ s.Spared v id := by
  have hevicting := evicted_evicting s v
  have hactive : (s.evicted v).state.providerActiveRequests id = s.providerActiveRequests id := by
    rw [hevicting.active, Scoring.providerActiveRequests, (placed_pool s v).1,
      Scoring.providerActiveRequests]
  have htransition : (s.evicted v).state.inTransition id = s.inTransition id := by
    rw [inTransition, hevicting.transitionUntil, hevicting.nowMs, (placed_pool s v).2.1,
      (placed_awake hawake).2, inTransition]
  have hbusy : (∃ model ∈ s.loadedModelNames id,
        0 < v.demand model ∨ s.isPreloading id model = true) ↔
      (∃ model ∈ s.loadedModelNames id, 0 < v.demand model) ∨
        ∃ model ∈ s.loadedModelNames id, s.isPreloading id model = true := by
    simp only [and_or_left, exists_or]
  have hidle : ((∃ model ∈ s.loadedModelNames id,
        0 < v.demand model ∨ s.isPreloading id model = true) ∨
      ((s.evicted v).state.loadedModelNames id).isEmpty = true) ↔
      (∃ model ∈ s.loadedModelNames id,
        0 < v.demand model ∨ s.isPreloading id model = true) ∨
      ∀ model ∈ s.loadedModelNames id, s.activeRequests id model = 0 ∧
        s.isPulling id model = false ∧ EVICT_IDLE_SECS ≤ s.idleSinceSecs id model :=
    or_congr_right' fun h => evicted_isEmpty hawake hp hid h
  unfold Spared
  rw [PlannerTick.marks, Bool.not_eq_false', hactive, htransition, hevicting.servers]
  simp only [Bool.or_eq_true, decide_eq_true_iff]
  rw [evicted_hasDemand hawake hp hid, evicted_isPreloading hawake hp hid, ← hbusy, or_assoc, hidle,
    evicted_holddown]
  simp only [or_assoc]

end Awake

theorem plannerTick_eq (s : Planner) (v : PlannerView) (hne : v.ollamaProviders ≠ []) :
    s.plannerTick v =
      if 1 < v.ollamaProviders.length ∧ v.queueLen = 0 then
        (v.ollamaProviders.foldl (PlannerTick.scaleIn (s.start v).2) (s.evicted v)).state
      else (s.evicted v).state := by
  unfold plannerTick
  rw [if_neg (by simpa using hne)]
  rfl

theorem evicted_isStandby (s : Planner) (v : PlannerView) :
    (s.evicted v).state.isStandby = (s.placed v).state.isStandby :=
  (evicted_evicting s v).isStandby

/-- A tick with Step ⑤ leaves a provider awake exactly if one is awake before it and not marked. -/
theorem scaledIn_awake_iff :
    (∃ p ∈ v.ollamaProviders,
      (v.ollamaProviders.foldl (PlannerTick.scaleIn (s.start v).2) (s.evicted v)).state.isStandby
        p.id = false) ↔
      ∃ p ∈ v.ollamaProviders, (s.placed v).state.isStandby p.id = false ∧
        (s.evicted v).marks (s.start v).2 p.id = false := by
  refine exists_congr fun p => and_congr_right fun hp => ?_
  rw [PlannerTick.scaledIn_isStandby, evicted_isStandby, Bool.or_eq_false_iff]
  refine and_congr_right fun _ => ?_
  rw [List.any_eq_false]
  constructor
  · intro h
    simpa using h p hp
  · intro h q hq
    by_cases hid : q.id = p.id
    · simp [hid, h]
    · simp [hid]

/-- A tick that starts with an Ollama provider out of standby ends with one exactly if jobs are
queued, or there is no other provider, or one is woken, or one that is awake is spared. -/
theorem last_server_iff (s : Planner) (v : PlannerView)
    (hawake : ∃ p ∈ v.ollamaProviders, s.isStandby p.id = false) :
    (∃ p ∈ v.ollamaProviders, (s.plannerTick v).isStandby p.id = false) ↔
      0 < v.queueLen ∨ v.ollamaProviders.length = 1 ∨
        ∃ p ∈ v.ollamaProviders,
          s.Wakes v p ∨ s.isStandby p.id = false ∧ s.Spared v p.id := by
  obtain ⟨p₀, hp₀, hawake₀⟩ := hawake
  have hne : v.ollamaProviders ≠ [] := List.ne_nil_of_mem hp₀
  have hlen : 0 < v.ollamaProviders.length := List.length_pos_of_mem hp₀
  rw [plannerTick_eq s v hne]
  by_cases hstep : 1 < v.ollamaProviders.length ∧ v.queueLen = 0
  · obtain ⟨hmany, hqueue⟩ := hstep
    rw [if_pos ⟨hmany, hqueue⟩, scaledIn_awake_iff]
    have hrest : ∀ q : Prop, 0 < v.queueLen ∨ v.ollamaProviders.length = 1 ∨ q ↔ q := by
      intro q
      simp [hqueue, hmany.ne']
    rw [hrest]
    constructor
    · rintro ⟨p, hp, hstandby, hmarks⟩
      cases hslept : s.isStandby p.id with
      | false => exact ⟨p, hp, .inr ⟨hslept, (evicted_marks_iff hslept hp rfl).mp hmarks⟩⟩
      | true =>
        rcases (placed_isStandby hqueue p.id).mp hstandby with hnot | ⟨q, hq, -, hwakes⟩
        · rw [hslept] at hnot
          cases hnot
        · exact ⟨q, hq, .inl hwakes⟩
    · rintro ⟨p, hp, hwakes | ⟨hslept, hspared⟩⟩
      · have hstandby : (s.placed v).state.isStandby p.id = false :=
          (placed_isStandby hqueue p.id).mpr (.inr ⟨p, hp, rfl, hwakes⟩)
        have hserver : p.id ∈ (s.evicted v).scaleOutServers := by
          rw [(evicted_evicting s v).servers]
          exact mem_servers_of_woken hwakes.1 hstandby
        refine ⟨p, hp, hstandby, ?_⟩
        simp [PlannerTick.marks, hserver]
      · exact ⟨p, hp, (placed_awake hslept).1, (evicted_marks_iff hslept hp rfl).mpr hspared⟩
  · rw [if_neg hstep]
    refine iff_of_true ⟨p₀, hp₀, ?_⟩ ?_
    · rw [evicted_isStandby]
      exact (placed_awake hawake₀).1
    · by_cases hqueue : v.queueLen = 0
      · exact .inr (.inl (by omega))
      · exact .inl (by omega)

/-! ## Two idle providers -/

/-- Providers 1 and 2, each with a model loaded that was used `idle` ms before the tick. -/
def idlePair (idle : ProviderId → Millis) : Planner :=
  let loaded (id : ProviderId) := ProviderVramState.fresh.setModel "m"
    { ModelState.new 0 true 128 1 with lastActiveAt := 1000000 - idle id }
  { now := 0
    pool := (VramPool.new.setProvider 1 (loaded 1)).setProvider 2 (loaded 2)
    thermal := .new 300, cb := .new, isStandby := fun _ => false
    preHardMaxConcurrent := fun _ _ => 0, apuMaxConcurrentCache := fun _ => 4
    nowMs := 1000000, transitionUntil := fun _ => 0, isPulling := fun _ _ => false
    preloadFailedAt := fun _ _ => 0, scaleOutHolddown := fun _ => none, locked := fun _ => false }

/-- No demand and no queued jobs. -/
def quietView : PlannerView :=
  { allProviders := [ollamaProvider 1, ollamaProvider 2], demand := fun _ => 0, queueLen := 0
    ollamaModelRepo := none
    modelDemandOrder := { order := fun names => names, perm := fun _ => .refl _ }
    scaleOutNeededOrder := { order := fun names => names, perm := fun _ => .refl _ }
    setOk := fun _ => true, delOk := fun _ => true }

/-- The model of provider 1 has been idle for long: it is evicted and the provider stays awake. -/
theorem evicted_server_protected :
    ∃ p ∈ quietView.ollamaProviders,
      ((idlePair fun id => if id = 1 then 200000 else 10000).plannerTick quietView).isStandby p.id =
        false := by
  have hfirst : ollamaProvider 1 ∈ quietView.ollamaProviders := List.mem_cons_self
  refine (last_server_iff _ quietView ⟨ollamaProvider 1, hfirst, rfl⟩).mpr ?_
  refine .inr (.inr ⟨ollamaProvider 1, hfirst, .inr ⟨rfl, ?_⟩⟩)
  refine .inr (.inr (.inr (.inr (.inr ?_))))
  decide +kernel

/-- Both have been idle for ten seconds: both are marked. -/
theorem idle_providers_all_marked :
    ¬ ∀ (s : Planner) (v : PlannerView), (∃ p ∈ v.ollamaProviders, s.isStandby p.id = false) →
      ∃ p ∈ v.ollamaProviders, (s.plannerTick v).isStandby p.id = false := by
  intro hall
  have hafter := hall (idlePair fun _ => 10000) quietView
    ⟨ollamaProvider 1, List.mem_cons_self, rfl⟩
  revert hafter
  decide +kernel

end Planner

end Veronex
