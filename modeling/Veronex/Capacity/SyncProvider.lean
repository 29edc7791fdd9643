import Veronex.Capacity.Governor

/-! # `sync_provider`

`infrastructure/outbound/capacity/analyzer.rs`: a pass over a provider, as far as the pool is
concerned. What the pass hears from the database, Valkey, the provider and the analyzer model is its
`SyncReport`; a call that fails is one that reported nothing.

The numbers of `ThroughputStats` are reported as the integers the code casts them to. The `f64`
quotient of two `u32` is below 0.7, or at least 0.9, exactly if the quotient itself is.
-/
namespace Veronex
set_option autoImplicit false

def SAFETY_DECAY_PERMIL : ℕ := 50
def MAX_COMPUTE_CAP : ℕ := 32

/-! ## Reports -/

structure HwMetrics where
  memAvailableMb : ℕ
  vramTotalMb : ℕ
  gpuVendor : String

structure ModelArchProfile where
  numLayers : ℕ
  numKvHeads : ℕ
  headDim : ℕ
  maxCtx : ℕ
  configuredCtx : ℕ

structure ThroughputStats where
  sampleCount : ℕ
  /-- `(avg_tokens_per_sec * 100.0) as u32` -/
  tpsX100 : ℕ
  /-- `(avg_prompt_tokens + avg_output_tokens).max(128.0) as u64` -/
  avgTokens : ℕ
  p95LatencyMs : ℕ
  /-- `p95_latency_ms > 0.0` -/
  p95Positive : Bool

/-- A model of `/api/ps` with its architecture and its statistics. -/
structure RunningModel where
  name : String
  sizeVram : ℕ
  arch : ModelArchProfile
  stats : ThroughputStats

/-- `ThroughputStats::default()`: no job in the last hour. -/
def ThroughputStats.none : ThroughputStats :=
  { sampleCount := 0, tpsX100 := 0, avgTokens := 128, p95LatencyMs := 0, p95Positive := false }

/-- A model of which only the name is known. -/
def RunningModel.unknown (name : String) : RunningModel :=
  { name, sizeVram := 0, stats := .none
    arch := { numLayers := 0, numKvHeads := 0, headDim := 0, maxCtx := 0, configuredCtx := 0 } }

/-- What a provider that is online adds to a report. -/
structure OnlineReport where
  agentTotalVramMb : Option ℕ
  hw : Option HwMetrics
  queue : QueueView
  psModels : List RunningModel
  /-- A provider lists a running model once. -/
  psNodup : (psModels.map RunningModel.name).Nodup
  /-- The batch recommendation, if `analyzer_model` is set and answered. -/
  recommendations : List (String × ℕ)

structure SyncReport where
  now : Millis
  numParallel : ℕ
  /-- The callers pass `num_parallel.max(1)`. -/
  numParallel_pos : 0 < numParallel
  providerTotalVramMb : ℤ
  /-- `safety_permil` of the budget row. -/
  budget : Option ℕ
  /-- `max_concurrent` of the profile rows. -/
  profiles : List (String × ℤ)
  /-- None after a failed health check. -/
  online : Option OnlineReport

/-- A provider of the pool with the atomics that only `sync_provider` and scoring read. -/
structure SyncedProvider where
  state : ProviderVramState
  lastMemAvailableMb : ℕ
  apuMaxConcurrentCache : ℕ

/-- What `get_or_create` inserts. -/
def SyncedProvider.fresh : SyncedProvider :=
  { state := .fresh, lastMemAvailableMb := 0, apuMaxConcurrentCache := 4 }

/-! ## Capacities -/

/-- An APU whose memory is shared with the system. -/
def isApu (drmVramMb memAvailableMb : ℕ) (gpuVendor : String) : Bool :=
  gpuVendor = "amd" ∧ 0 < drmVramMb ∧ drmVramMb * 2 % U64 < memAvailableMb

def resolveVramTotalMb (providerTotalVramMb : ℤ) (agentTotalVramMb : Option ℕ)
    (drmVramMb memAvailableMb : ℕ) (gpuVendor : String) : ℕ :=
  if 0 < providerTotalVramMb then providerTotalVramMb.toNat
  else match agentTotalVramMb.filter (0 < ·) with
    | some v => v
    | none => if isApu drmVramMb memAvailableMb gpuVendor then memAvailableMb else drmVramMb

/-- `compute_kv_per_request_mb`, with one byte per element. -/
def computeKvPerRequestMb (arch : ModelArchProfile) (stats : ThroughputStats) : ℕ :=
  if arch.numLayers = 0 then 128
  else
    let kvBytesPerToken := 2 * arch.numLayers * arch.numKvHeads * arch.headDim % U64
    let effectiveCtx :=
      if 0 < arch.configuredCtx ∧ 0 < arch.maxCtx then min arch.configuredCtx arch.maxCtx
      else if 0 < arch.configuredCtx then arch.configuredCtx
      else if 0 < arch.maxCtx then arch.maxCtx
      else 4096
    let tokens := min stats.avgTokens effectiveCtx
    max (kvBytesPerToken * tokens % U64 / 1048576) 32 % U32

def RunningModel.weightMb (m : RunningModel) : ℕ := m.sizeVram / 1048576

def RunningModel.kvPerReq (m : RunningModel) : ℕ := computeKvPerRequestMb m.arch m.stats

namespace OnlineReport
variable (o : OnlineReport)

def memAvailableMb : ℕ := o.hw.elim 0 HwMetrics.memAvailableMb
def drmVramMb : ℕ := o.hw.elim 0 HwMetrics.vramTotalMb
def gpuVendor : String := o.hw.elim "" HwMetrics.gpuVendor

def vramTotalMb (providerTotalVramMb : ℤ) : ℕ :=
  resolveVramTotalMb providerTotalVramMb o.agentTotalVramMb o.drmVramMb o.memAvailableMb o.gpuVendor

/-- The available memory of an APU is more than 15% off the one observed last. -/
def drifted (last : ℕ) : Bool :=
  isApu o.drmVramMb o.memAvailableMb o.gpuVendor ∧ 0 < o.memAvailableMb ∧ 0 < last ∧
    3 * last < 20 * ((o.memAvailableMb : ℤ) - last).natAbs

end OnlineReport

/-! ## Adaptive concurrency -/

/-- What step 7 knows of a model besides its entry. -/
structure AimdInput where
  numParallel : ℕ
  vramTotalMb : ℕ
  weightMb : ℕ
  kvPerReq : ℕ
  /-- `sum_loaded_max_concurrent` -/
  committed : ℕ
  stats : ThroughputStats
  governorActive : Bool

/-- The limit of a model the preloader has not initialized. -/
def AimdInput.initial (x : AimdInput) : ℕ :=
  let vramSlots :=
    if 0 < x.kvPerReq ∧ x.weightMb < x.vramTotalMb then
      (x.vramTotalMb - x.weightMb) / x.kvPerReq % U32
    else x.numParallel
  min (max (min vramSlots MAX_COMPUTE_CAP - x.committed) 1) x.numParallel

/-- Throughput has dropped by 30%, or the tail latency has doubled. -/
def ThroughputStats.lowers (stats : ThroughputStats) (baselineTps baselineP95Ms : ℕ) : Bool :=
  10 * stats.tpsX100 < 7 * baselineTps ∨
    0 < baselineP95Ms ∧ baselineP95Ms * 2 % U32 < stats.p95LatencyMs

/-- Throughput is maintained. -/
def ThroughputStats.maintains (stats : ThroughputStats) (baselineTps : ℕ) : Bool :=
  9 * baselineTps ≤ 10 * stats.tpsX100

namespace ModelState

/-- `current_limit * 3 / 4`, at least 1. -/
def decreased (limit : ℕ) : ℕ := max (limit * 3 % U32 / 4) 1

/-- Step 7. -/
def aimd (ms : ModelState) (x : AimdInput) : ModelState :=
  let stats := x.stats
  if ms.baselineTps = 0 then
    if 0 < stats.sampleCount then
      { ms with
        baselineTps := stats.tpsX100
        maxConcurrent := if ms.maxConcurrent = 0 then x.initial else ms.maxConcurrent
        baselineP95Ms := if stats.p95Positive then stats.p95LatencyMs else ms.baselineP95Ms }
    else if ms.maxConcurrent = 0 then { ms with maxConcurrent := x.numParallel }
    else ms
  else if 3 ≤ stats.sampleCount ∧ x.governorActive = false then
    if stats.lowers ms.baselineTps ms.baselineP95Ms then
      { ms with stableCycleCount := 0, maxConcurrent := decreased ms.maxConcurrent }
    else if stats.maintains ms.baselineTps then
      let stableCycles := (ms.stableCycleCount + 1) % U32
      let ms' := { ms with
        stableCycleCount := stableCycles
        maxConcurrent := min (min (ms.maxConcurrent + 1) (U32 - 1)) x.numParallel }
      if 3 ≤ stableCycles then
        { ms' with
          baselineTps := max ms.baselineTps stats.tpsX100
          baselineP95Ms :=
            if 0 < ms.baselineP95Ms then min ms.baselineP95Ms stats.p95LatencyMs
            else ms.baselineP95Ms }
      else ms'
    else ms
  else ms

end ModelState

/-! ## The pass -/

namespace ProviderVramState
variable (state : ProviderVramState) (model : String)

def baselineTps : ℕ := (state.models.lookup model).elim 0 ModelState.baselineTps

def baselineP95Ms : ℕ := (state.models.lookup model).elim 0 ModelState.baselineP95Ms

def stableCycleCount : ℕ := (state.models.lookup model).elim 0 ModelState.stableCycleCount

def setBaselineTps (tpsX100 : ℕ) : ProviderVramState :=
  state.setModel model
    { state.modelOr model (.new 0 false 128 1) with baselineTps := tpsX100 }

def setBaselineP95Ms (p95Ms : ℕ) : ProviderVramState :=
  state.setModel model
    { state.modelOr model (.new 0 false 128 1) with baselineP95Ms := p95Ms }

def incrementStableCycleCount : ProviderVramState :=
  state.modifyModel model fun ms => { ms with stableCycleCount := (ms.stableCycleCount + 1) % U32 }

def resetStableCycleCount : ProviderVramState :=
  state.modifyModel model fun ms => { ms with stableCycleCount := 0 }

/-- The learning epoch of a model starts anew. -/
def relearn : ProviderVramState :=
  ((state.resetStableCycleCount model).setBaselineTps model 0).setBaselineP95Ms model 0

def sumLoadedMaxConcurrent : ℕ :=
  ((state.models.entries.filter fun e => e.2.isLoaded).map fun e => e.2.maxConcurrent).sum % U32

/-- Models that are no longer in `/api/ps` are unloaded. -/
def unloadGone (ps : List String) (now : Millis) : ProviderVramState :=
  (state.loadedModelNames.filter fun name => name ∉ ps).foldl (fun state name =>
    (state.unload name now).1) state

/-- The running models are marked loaded. -/
def loadRunning (ps : List RunningModel) (now : Millis) : ProviderVramState :=
  ps.foldl (fun state m => state.load m.name m.weightMb now) state

def decaySafety : ProviderVramState :=
  if DEFAULT_SAFETY_PERMIL < state.safetyPermil then
    { state with
      safetyPermil := max (state.safetyPermil - SAFETY_DECAY_PERMIL) DEFAULT_SAFETY_PERMIL }
  else state

section Entry
variable {state : ProviderVramState} {model : String} {ms : ModelState}

theorem setModel_setModel (ms' : ModelState) :
    (state.setModel model ms).setModel model ms' = state.setModel model ms' := by
  simp [setModel, AList.insert_insert]

theorem setModel_setBaselineTps (tpsX100 : ℕ) :
    (state.setModel model ms).setBaselineTps model tpsX100 =
      state.setModel model { ms with baselineTps := tpsX100 } := by
  simp [setBaselineTps, modelOr, setModel_setModel]

theorem setModel_setBaselineP95Ms (p95Ms : ℕ) :
    (state.setModel model ms).setBaselineP95Ms model p95Ms =
      state.setModel model { ms with baselineP95Ms := p95Ms } := by
  simp [setBaselineP95Ms, modelOr, setModel_setModel]

end Entry

end ProviderVramState

namespace SyncedProvider
variable (p : SyncedProvider)

/-- `set_max_concurrent` -/
def setMaxConcurrent (model : String) (limit : ℕ) : SyncedProvider :=
  let ms := match p.state.models.lookup model with
    | some ms => { ms with maxConcurrent := limit }
    | none => .new 0 false 128 limit
  { p with
    state := p.state.setModel model ms
    apuMaxConcurrentCache := max p.apuMaxConcurrentCache limit }

/-- Step 0: the safety margin, unless it was raised since. -/
def restoreSafety (budget : Option ℕ) : SyncedProvider :=
  match budget with
  | some permil =>
    if p.state.safetyPermil = 100 ∧ permil ≠ 100 then
      { p with state := { p.state with safetyPermil := permil } }
    else p
  | none => p

/-- Step 0b: the learned limit of a model that has none. -/
def restoreLimit (profile : String × ℤ) : SyncedProvider :=
  if 0 < profile.2 ∧ p.state.maxConcurrent profile.1 = 0 then
    p.setMaxConcurrent profile.1 profile.2.toNat
  else p

def restore (r : SyncReport) : SyncedProvider :=
  r.profiles.foldl restoreLimit (p.restoreSafety r.budget)

/-- A drift of the available memory resets what was learned of the loaded models. -/
def trackDrift (o : OnlineReport) : SyncedProvider :=
  if isApu o.drmVramMb o.memAvailableMb o.gpuVendor ∧ 0 < o.memAvailableMb then
    let state := if o.drifted p.lastMemAvailableMb then
        p.state.loadedModelNames.foldl ProviderVramState.relearn p.state
      else p.state
    { p with state, lastMemAvailableMb := o.memAvailableMb % U32 }
  else p

/-- Steps 6 and 7 for a running model. -/
def analyze (r : SyncReport) (o : OnlineReport) (governorActive : Bool) (p : SyncedProvider)
    (m : RunningModel) : SyncedProvider :=
  let state := p.state.setProfile m.name
    { weightMb := m.weightMb, kvPerRequestMb := m.kvPerReq }
  let x : AimdInput :=
    { numParallel := r.numParallel, vramTotalMb := o.vramTotalMb r.providerTotalVramMb
      weightMb := m.weightMb, kvPerReq := m.kvPerReq, committed := state.sumLoadedMaxConcurrent
      stats := m.stats, governorActive }
  let state' := state.modifyModel m.name fun ms => ms.aimd x
  { p with
    state := state'
    apuMaxConcurrentCache :=
      if state'.maxConcurrent m.name = state.maxConcurrent m.name then p.apuMaxConcurrentCache
      else max p.apuMaxConcurrentCache (state'.maxConcurrent m.name) }

/-- A recommendation raises the limit of a model whose throughput is stable, by at most 2. -/
def nudge (numParallel : ℕ) (p : SyncedProvider) (rec : String × ℕ) : SyncedProvider :=
  if rec.2 = 0 then p
  else if p.state.stableCycleCount rec.1 < 3 then p
  else
    let current := p.state.maxConcurrent rec.1
    let ceil := min (current + 2) (U32 - 1)
    let recommended := max (max current (min (min rec.2 numParallel) ceil)) 1
    if recommended = current then p else p.setMaxConcurrent rec.1 recommended

/-- The batch analysis, once there are ten samples. -/
def nudgeAll (r : SyncReport) (o : OnlineReport) : SyncedProvider :=
  if 10 ≤ (o.psModels.map fun m => m.stats.sampleCount).sum then
    o.recommendations.foldl (nudge r.numParallel) p
  else p

/-- The pass over a provider that is online, after the limits were restored. -/
def syncOnline (r : SyncReport) (o : OnlineReport) : SyncedProvider :=
  let probed := { p.state with totalMb := o.vramTotalMb r.providerTotalVramMb }
  let p := trackDrift { p with state := probed.decaySafety } o
  let (state, governorActive) := p.state.governor r.numParallel o.queue
  let state := state.unloadGone (o.psModels.map RunningModel.name) r.now
  let p := { p with state := state.loadRunning o.psModels r.now }
  (o.psModels.foldl (analyze r o governorActive) p).nudgeAll r o

def syncProvider (r : SyncReport) : SyncedProvider :=
  match r.online with
  | some o => (p.restore r).syncOnline r o
  | none => p.restore r

end SyncedProvider

/-! ## The permits

The phases before the governor leave the number of permits that are out.
-/

namespace SyncedProvider
variable {p : SyncedProvider}

theorem restore_total (r : SyncReport) :
    (p.restore r).state.totalActiveCount = p.state.totalActiveCount := by
  have hsafety : (p.restoreSafety r.budget).state.totalActiveCount = p.state.totalActiveCount := by
    unfold restoreSafety
    split
    · split <;> rfl
    · rfl
  have hlimit : ∀ (p : SyncedProvider) (row : String × ℤ),
      (p.restoreLimit row).state.totalActiveCount = p.state.totalActiveCount := by
    intro p row
    unfold restoreLimit
    split <;> rfl
  unfold restore
  rw [← hsafety]
  generalize p.restoreSafety r.budget = p
  induction r.profiles generalizing p with
  | nil => rfl
  | cons row rows ih => rw [List.foldl_cons, ih, hlimit]

theorem trackDrift_total (o : OnlineReport) :
    (p.trackDrift o).state.totalActiveCount = p.state.totalActiveCount := by
  have hrelearn : ∀ (state : ProviderVramState) (model : String),
      (state.relearn model).totalActiveCount = state.totalActiveCount := by
    intro state model
    show (state.resetStableCycleCount model).totalActiveCount = state.totalActiveCount
    unfold ProviderVramState.resetStableCycleCount ProviderVramState.modifyModel
    split <;> rfl
  have hloop : ∀ (names : List String) (state : ProviderVramState),
      (names.foldl ProviderVramState.relearn state).totalActiveCount = state.totalActiveCount := by
    intro names
    induction names with
    | nil => exact fun _ => rfl
    | cons name names ih => exact fun state => (ih _).trans (hrelearn state name)
  unfold trackDrift
  split
  · dsimp only
    split
    · exact hloop _ _
    · rfl
  · rfl

/-- The state the governor of a pass finds. -/
def beforeGovernor (p : SyncedProvider) (r : SyncReport) (o : OnlineReport) : SyncedProvider :=
  let p₀ := p.restore r
  trackDrift { p₀ with
    state := { p₀.state with totalMb := o.vramTotalMb r.providerTotalVramMb }.decaySafety } o

theorem beforeGovernor_total (r : SyncReport) (o : OnlineReport) :
    (p.beforeGovernor r o).state.totalActiveCount = p.state.totalActiveCount := by
  rw [beforeGovernor, trackDrift_total, ← restore_total (p := p) r]
  unfold ProviderVramState.decaySafety
  split <;> rfl

/-- A pass over a provider that is online, from the governor on. -/
theorem syncProvider_eq {r : SyncReport} {o : OnlineReport} (h : r.online = some o) :
    p.syncProvider r =
      (o.psModels.foldl
        (analyze r o ((p.beforeGovernor r o).state.governor r.numParallel o.queue).2)
        { p.beforeGovernor r o with
          state := (((p.beforeGovernor r o).state.governor r.numParallel o.queue).1.unloadGone
            (o.psModels.map RunningModel.name) r.now).loadRunning o.psModels r.now }).nudgeAll
          r o := by
  unfold syncProvider
  rw [h]
  rfl

end SyncedProvider

end Veronex
