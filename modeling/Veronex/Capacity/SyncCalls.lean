import Veronex.Capacity.SyncProvider
import Veronex.Foundation.Program

/-! # `sync_provider` call by call

The pass as the calls of the pool it makes, in the order of the source. Other tasks call the pool
between two of them.

`run_syncCalls`: without interleaving the calls are `SyncedProvider.syncProvider`.
-/
namespace Veronex
set_option autoImplicit false
open Concurrency

/-- The calls of `VramPoolPort` a pass makes for its provider. -/
inductive SyncCall
  | safetyPermil
  | setSafetyPermil (permil : ℕ)
  | decaySafetyPermil
  | setTotalVram (totalMb : ℕ)
  | lastMemAvailableMb
  | setLastMemAvailableMb (mb : ℕ)
  | loadedModelNames
  | markModelLoaded (model : String) (weightMb : ℕ)
  | markModelUnloaded (model : String)
  | setModelProfile (model : String) (profile : ModelVramProfile)
  | providerActiveRequests
  | activeRequests (model : String)
  | setDispatchBlocked (model : String) (value : Bool)
  | setGovernorCap (model : String) (cap : ℕ)
  | maxConcurrent (model : String)
  | setMaxConcurrent (model : String) (limit : ℕ)
  | sumLoadedMaxConcurrent
  | baselineTps (model : String)
  | setBaselineTps (model : String) (tpsX100 : ℕ)
  | baselineP95Ms (model : String)
  | setBaselineP95Ms (model : String) (p95Ms : ℕ)
  | stableCycleCount (model : String)
  | incrementStableCycleCount (model : String)
  | resetStableCycleCount (model : String)

namespace SyncCall

abbrev Reply : SyncCall → Type
  | .loadedModelNames => List String
  | .safetyPermil | .lastMemAvailableMb | .providerActiveRequests | .activeRequests _
  | .maxConcurrent _ | .sumLoadedMaxConcurrent | .baselineTps _ | .baselineP95Ms _
  | .stableCycleCount _ => ℕ
  | _ => Unit

end SyncCall

/-- A call, at the time `now`. -/
def SyncCall.handle (now : Millis) : (c : SyncCall) → SyncedProvider → c.Reply × SyncedProvider
  | .safetyPermil, p => (p.state.safetyPermil, p)
  | .setSafetyPermil permil, p => ((), { p with state.safetyPermil := permil })
  | .decaySafetyPermil, p => ((), { p with state := p.state.decaySafety })
  | .setTotalVram totalMb, p => ((), { p with state.totalMb := totalMb })
  | .lastMemAvailableMb, p => (p.lastMemAvailableMb, p)
  | .setLastMemAvailableMb mb, p => ((), { p with lastMemAvailableMb := mb })
  | .loadedModelNames, p => (p.state.loadedModelNames, p)
  | .markModelLoaded model weightMb, p => ((), { p with state := p.state.load model weightMb now })
  | .markModelUnloaded model, p => ((), { p with state := (p.state.unload model now).1 })
  | .setModelProfile model profile, p => ((), { p with state := p.state.setProfile model profile })
  | .providerActiveRequests, p => (p.state.totalActiveCount, p)
  | .activeRequests model, p => (p.state.activeRequests model, p)
  | .setDispatchBlocked model value, p =>
    ((), { p with state := p.state.setDispatchBlocked model value })
  | .setGovernorCap model cap, p => ((), { p with state := p.state.setGovernorCap model cap })
  | .maxConcurrent model, p => (p.state.maxConcurrent model, p)
  | .setMaxConcurrent model limit, p => ((), p.setMaxConcurrent model limit)
  | .sumLoadedMaxConcurrent, p => (p.state.sumLoadedMaxConcurrent, p)
  | .baselineTps model, p => (p.state.baselineTps model, p)
  | .setBaselineTps model tpsX100, p =>
    ((), { p with state := p.state.setBaselineTps model tpsX100 })
  | .baselineP95Ms model, p => (p.state.baselineP95Ms model, p)
  | .setBaselineP95Ms model p95Ms, p =>
    ((), { p with state := p.state.setBaselineP95Ms model p95Ms })
  | .stableCycleCount model, p => (p.state.stableCycleCount model, p)
  | .incrementStableCycleCount model, p =>
    ((), { p with state := p.state.incrementStableCycleCount model })
  | .resetStableCycleCount model, p => ((), { p with state := p.state.resetStableCycleCount model })

/-! ## The pass -/

abbrev SyncProgram := Program SyncCall SyncCall.Reply

namespace SyncProgram
open SyncCall
open Program (perform forEach keep)

/-- Step 0. -/
def restoreSafety (budget : Option ℕ) : SyncProgram Unit :=
  match budget with
  | some permil => do
    let current ← perform safetyPermil
    if current = 100 ∧ permil ≠ 100 then perform (setSafetyPermil permil)
  | none => pure ()

/-- Step 0b. -/
def restoreLimit (profile : String × ℤ) : SyncProgram Unit :=
  if 0 < profile.2 then do
    let current ← perform (maxConcurrent profile.1)
    if current = 0 then perform (setMaxConcurrent profile.1 profile.2.toNat)
  else pure ()

def restore (r : SyncReport) : SyncProgram Unit := do
  restoreSafety r.budget
  forEach restoreLimit r.profiles

def relearn (model : String) : SyncProgram Unit := do
  perform (resetStableCycleCount model)
  perform (setBaselineTps model 0)
  perform (setBaselineP95Ms model 0)

/-- The drift of the available memory of an APU. -/
def trackDrift (o : OnlineReport) : SyncProgram Unit :=
  if isApu o.drmVramMb o.memAvailableMb o.gpuVendor ∧ 0 < o.memAvailableMb then do
    let last ← perform lastMemAvailableMb
    if o.drifted last then
      let names ← perform loadedModelNames
      forEach relearn names
    perform (setLastMemAvailableMb (o.memAvailableMb % U32))
  else pure ()

def resetModel (model : String) : SyncProgram Unit := do
  perform (setDispatchBlocked model false)
  perform (setGovernorCap model 0)

def isCandidate (q : QueueView) (model : String) : SyncProgram Bool := do
  let active ← perform (activeRequests model)
  pure (0 < active ∨ 0 < q.demand model)

def applyShare : String × Option ℕ → SyncProgram Unit
  | (model, some share) => do
    let limit ← perform (maxConcurrent model)
    perform (setGovernorCap model (min limit share))
  | (model, none) => perform (setDispatchBlocked model true)

def governorShares (numParallel : ℕ) (q : QueueView) (names : List String) :
    List (String × Option ℕ) :=
  let candidates :=
    (names.map fun name => (name, q.oldest name)).insertionSort fun a b => a.2 ≤ b.2
  candidates.zipIdx.map fun (candidate, i) =>
    (candidate.1, governorShare numParallel candidates.length i)

def governor (numParallel : ℕ) (q : QueueView) : SyncProgram Bool := do
  let names ← perform loadedModelNames
  forEach resetModel names
  let active ← perform providerActiveRequests
  if numParallel < active then do
    let names ← perform loadedModelNames
    let names ← keep (isCandidate q) names
    forEach applyShare (governorShares numParallel q names)
    pure true
  else pure false

/-- The models of `/api/ps` against those that are marked loaded. -/
def syncLoaded (o : OnlineReport) : SyncProgram Unit := do
  let names ← perform loadedModelNames
  forEach (fun name => perform (markModelUnloaded name))
    (names.filter fun name => name ∉ o.psModels.map RunningModel.name)
  forEach (fun m => perform (markModelLoaded m.name m.weightMb)) o.psModels

/-- The limit of a model that has none. -/
def initializeLimit (r : SyncReport) (o : OnlineReport) (m : RunningModel) (currentLimit : ℕ) :
    SyncProgram Unit :=
  if currentLimit = 0 then do
    let committed ← perform sumLoadedMaxConcurrent
    perform (setMaxConcurrent m.name
      (AimdInput.initial
        { numParallel := r.numParallel, vramTotalMb := o.vramTotalMb r.providerTotalVramMb
          weightMb := m.weightMb, kvPerReq := m.kvPerReq, committed, stats := m.stats
          governorActive := false }))
  else pure ()

/-- Step 7 for a model without a baseline. -/
def firstSample (r : SyncReport) (o : OnlineReport) (m : RunningModel) (currentLimit : ℕ) :
    SyncProgram Unit :=
  if 0 < m.stats.sampleCount then do
    perform (setBaselineTps m.name m.stats.tpsX100)
    initializeLimit r o m currentLimit
    if m.stats.p95Positive then perform (setBaselineP95Ms m.name m.stats.p95LatencyMs)
  else if currentLimit = 0 then perform (setMaxConcurrent m.name r.numParallel)
  else pure ()

/-- The baselines after a stable cycle. -/
def raiseBaseline (m : RunningModel) (baseline baselineP95 stableCycles : ℕ) : SyncProgram Unit :=
  if 3 ≤ stableCycles then do
    perform (setBaselineTps m.name (max baseline m.stats.tpsX100))
    if 0 < baselineP95 then
      perform (setBaselineP95Ms m.name (min baselineP95 m.stats.p95LatencyMs))
  else pure ()

/-- The new limit of a model with a baseline. -/
def newLimit (r : SyncReport) (m : RunningModel) (baseline baselineP95 currentLimit : ℕ) :
    SyncProgram ℕ :=
  if m.stats.lowers baseline baselineP95 then do
    perform (resetStableCycleCount m.name)
    pure (ModelState.decreased currentLimit)
  else if m.stats.maintains baseline then do
    perform (incrementStableCycleCount m.name)
    let stableCycles ← perform (stableCycleCount m.name)
    raiseBaseline m baseline baselineP95 stableCycles
    pure (min (min (currentLimit + 1) (U32 - 1)) r.numParallel)
  else pure currentLimit

/-- Steps 6 and 7 for a running model. -/
def analyze (r : SyncReport) (o : OnlineReport) (governorActive : Bool) (m : RunningModel) :
    SyncProgram Unit := do
  perform (setModelProfile m.name { weightMb := m.weightMb, kvPerRequestMb := m.kvPerReq })
  let baseline ← perform (baselineTps m.name)
  let currentLimit ← perform (maxConcurrent m.name)
  if baseline = 0 then firstSample r o m currentLimit
  else if 3 ≤ m.stats.sampleCount ∧ governorActive = false then do
    let baselineP95 ← perform (baselineP95Ms m.name)
    let limit ← newLimit r m baseline baselineP95 currentLimit
    if limit ≠ currentLimit then perform (setMaxConcurrent m.name limit)
  else pure ()

/-- Step 8. -/
def nudge (numParallel : ℕ) (rec : String × ℕ) : SyncProgram Unit :=
  if rec.2 = 0 then pure ()
  else do
    let stableCycles ← perform (stableCycleCount rec.1)
    if stableCycles < 3 then pure ()
    else
      let current ← perform (maxConcurrent rec.1)
      let ceil := min (current + 2) (U32 - 1)
      let recommended := max (max current (min (min rec.2 numParallel) ceil)) 1
      if recommended ≠ current then perform (setMaxConcurrent rec.1 recommended)

def syncOnline (r : SyncReport) (o : OnlineReport) : SyncProgram Unit := do
  perform (setTotalVram (o.vramTotalMb r.providerTotalVramMb))
  perform decaySafetyPermil
  trackDrift o
  let governorActive ← governor r.numParallel o.queue
  syncLoaded o
  forEach (analyze r o governorActive) o.psModels
  if 10 ≤ (o.psModels.map fun m => m.stats.sampleCount).sum then
    forEach (nudge r.numParallel) o.recommendations

/-- `sync_provider` -/
def syncCalls (r : SyncReport) : SyncProgram Unit := do
  restore r
  match r.online with
  | some o => syncOnline r o
  | none => pure ()

end SyncProgram

/-! ## A pass that is not interleaved -/

namespace SyncProgram
open SyncCall SyncedProvider
open Program (perform forEach keep)
variable {now : Millis} {p : SyncedProvider}

theorem foldl_state {ι : Type*} (g : ProviderVramState → ι → ProviderVramState) (xs : List ι)
    (p : SyncedProvider) :
    xs.foldl (fun p x => { p with state := g p.state x }) p =
      { p with state := xs.foldl g p.state } := by
  induction xs generalizing p with
  | nil => rfl
  | cons x xs ih => rw [List.foldl_cons, ih, List.foldl_cons]

theorem run_restore (r : SyncReport) :
    ((restore r).run (handle now) p).2 = p.restore r := by
  have hsafety : ((restoreSafety r.budget).run (handle now) p).2 = p.restoreSafety r.budget := by
    unfold restoreSafety SyncedProvider.restoreSafety
    cases r.budget with
    | none => rfl
    | some permil =>
      rw [Program.run_then (a := p.state.safetyPermil) (t := p) rfl, Program.run_ite]
      dsimp only
      split <;> rfl
  have hlimit : ∀ (p : SyncedProvider) (profile : String × ℤ),
      ((restoreLimit profile).run (handle now) p).2 = p.restoreLimit profile := by
    intro p profile
    unfold restoreLimit SyncedProvider.restoreLimit
    by_cases hpos : 0 < profile.2
    · rw [if_pos hpos, Program.run_then (a := p.state.maxConcurrent profile.1) (t := p) rfl,
        Program.run_ite]
      simp only [hpos, true_and]
      split <;> rfl
    · rw [if_neg hpos, if_neg fun h => hpos h.1, Program.run_pure]
  rw [restore, Program.run_bind, Program.run_forEach hlimit, hsafety, SyncedProvider.restore]

theorem run_trackDrift (o : OnlineReport) :
    ((trackDrift o).run (handle now) p).2 = p.trackDrift o := by
  have hrelearn : ∀ (p : SyncedProvider) (model : String),
      ((relearn model).run (handle now) p).2 = { p with state := p.state.relearn model } :=
    fun _ _ => rfl
  have hloop := fun names => (Program.run_forEach (s := p) hrelearn names).trans
    (foldl_state ProviderVramState.relearn names p)
  unfold trackDrift SyncedProvider.trackDrift
  split
  · rw [Program.run_then (a := p.lastMemAvailableMb) (t := p) rfl]
    by_cases hdrift : o.drifted p.lastMemAvailableMb
    · simp only [hdrift, if_true]
      rw [Program.run_then (a := p.state.loadedModelNames) (t := p) rfl, Program.run_bind, hloop]
      rfl
    · simp only [hdrift, if_false, Bool.false_eq_true]
      rfl
  · rfl

theorem run_governor (numParallel : ℕ) (q : QueueView) :
    (governor numParallel q).run (handle now) p =
      ((p.state.governor numParallel q).2,
        { p with state := (p.state.governor numParallel q).1 }) := by
  have hreset : ∀ (p : SyncedProvider) (model : String),
      ((resetModel model).run (handle now) p).2 = { p with state := p.state.resetModel model } :=
    fun _ _ => rfl
  have hshare : ∀ (p : SyncedProvider) (e : String × Option ℕ),
      ((applyShare e).run (handle now) p).2 = { p with state := p.state.applyShare e } := by
    rintro p ⟨model, _ | share⟩ <;> rfl
  have hkeep : ∀ (p : SyncedProvider) (model : String),
      (isCandidate q model).run (handle now) p =
        (decide (0 < p.state.activeRequests model ∨ 0 < q.demand model), p) := fun _ _ => rfl
  have hresets := fun (p : SyncedProvider) names =>
    (Program.run_forEach (s := p) hreset names).trans (foldl_state _ names p)
  have hshares := fun (p : SyncedProvider) shares =>
    (Program.run_forEach (s := p) hshare shares).trans (foldl_state _ shares p)
  unfold governor ProviderVramState.governor
  rw [Program.run_then (a := p.state.loadedModelNames) (t := p) rfl, Program.run_bind, hresets]
  set q' : SyncedProvider := { p with state := p.state.resetGovernor } with hq
  rw [Program.run_then (a := q'.state.totalActiveCount) (t := q') rfl, Program.run_ite]
  dsimp only [q']
  split
  · rw [Program.run_then (a := q'.state.loadedModelNames) (t := q') rfl,
      Program.run_then (Program.run_keep (hkeep q') _), Program.run_bind, hshares]
    rfl
  · rfl

theorem run_syncLoaded (o : OnlineReport) :
    ((syncLoaded o).run (handle now) p).2 =
      { p with
        state := (p.state.unloadGone (o.psModels.map RunningModel.name) now).loadRunning o.psModels
          now } := by
  have hgone : ∀ (p : SyncedProvider) (model : String),
      ((perform (markModelUnloaded model) : SyncProgram Unit).run (handle now) p).2 =
        { p with state := (p.state.unload model now).1 } := fun _ _ => rfl
  have hload : ∀ (p : SyncedProvider) (m : RunningModel),
      ((perform (markModelLoaded m.name m.weightMb) : SyncProgram Unit).run (handle now) p).2 =
        { p with state := p.state.load m.name m.weightMb now } := fun _ _ => rfl
  unfold syncLoaded
  rw [Program.run_bind, Program.run_perform, Program.run_bind, Program.run_forEach hload,
    Program.run_forEach hgone, foldl_state fun state name => (state.unload name now).1,
    foldl_state fun state (m : RunningModel) => state.load m.name m.weightMb now]
  rfl

end SyncProgram

/-! ## The limit of one model -/

namespace SyncedProvider

/-- The provider with an entry for a model. -/
def withEntry (p : SyncedProvider) (model : String) (ms : ModelState) : SyncedProvider :=
  { p with state := p.state.setModel model ms }

/-- `set_max_concurrent` keeps the largest limit. -/
def raise (p : SyncedProvider) (limit : ℕ) : SyncedProvider :=
  { p with apuMaxConcurrentCache := max p.apuMaxConcurrentCache limit }

/-- The provider once the entry has gone from `ms` to `ms'`. -/
def update (p : SyncedProvider) (model : String) (ms ms' : ModelState) : SyncedProvider :=
  if ms'.maxConcurrent = ms.maxConcurrent then p.withEntry model ms'
  else (p.raise ms'.maxConcurrent).withEntry model ms'

variable {p : SyncedProvider} {model : String} {ms ms' : ModelState}

theorem update_eq_raise (h : ms'.maxConcurrent = ms.maxConcurrent → ms'.maxConcurrent = 0) :
    p.update model ms ms' = (p.raise ms'.maxConcurrent).withEntry model ms' := by
  unfold update
  split
  · next heq => simp [h heq, raise]
  · rfl

end SyncedProvider

namespace SyncProgram
open SyncCall SyncedProvider
open ProviderVramState (modifyModel_setModel setModel_setModel setModel_setBaselineTps
  setModel_setBaselineP95Ms)
open Program (perform forEach keep)
variable {now : Millis} {p : SyncedProvider} {ms : ModelState} {m : RunningModel}

theorem handle_setBaselineTps (tpsX100 : ℕ) :
    handle now (.setBaselineTps m.name tpsX100) (p.withEntry m.name ms) =
      ((), p.withEntry m.name { ms with baselineTps := tpsX100 }) := by
  simp only [handle, withEntry, setModel_setBaselineTps]

theorem handle_setBaselineP95Ms (p95Ms : ℕ) :
    handle now (.setBaselineP95Ms m.name p95Ms) (p.withEntry m.name ms) =
      ((), p.withEntry m.name { ms with baselineP95Ms := p95Ms }) := by
  simp only [handle, withEntry, setModel_setBaselineP95Ms]

theorem handle_increment :
    handle now (.incrementStableCycleCount m.name) (p.withEntry m.name ms) =
      ((), p.withEntry m.name
        { ms with stableCycleCount := (ms.stableCycleCount + 1) % U32 }) := by
  simp only [handle, withEntry, ProviderVramState.incrementStableCycleCount,
    modifyModel_setModel]

theorem handle_reset :
    handle now (.resetStableCycleCount m.name) (p.withEntry m.name ms) =
      ((), p.withEntry m.name { ms with stableCycleCount := 0 }) := by
  simp only [handle, withEntry, ProviderVramState.resetStableCycleCount,
    modifyModel_setModel]

theorem handle_setMaxConcurrent (limit : ℕ) :
    handle now (.setMaxConcurrent m.name limit) (p.withEntry m.name ms) =
      ((), (p.raise limit).withEntry m.name { ms with maxConcurrent := limit }) := by
  simp [handle, withEntry, raise, SyncedProvider.setMaxConcurrent, setModel_setModel]

theorem withEntry_reads :
    (p.withEntry m.name ms).state.maxConcurrent m.name = ms.maxConcurrent ∧
      (p.withEntry m.name ms).state.baselineTps m.name = ms.baselineTps ∧
      (p.withEntry m.name ms).state.baselineP95Ms m.name = ms.baselineP95Ms ∧
      (p.withEntry m.name ms).state.stableCycleCount m.name = ms.stableCycleCount := by
  simp [withEntry, ProviderVramState.maxConcurrent, ProviderVramState.baselineTps,
    ProviderVramState.baselineP95Ms, ProviderVramState.stableCycleCount]

theorem withEntry_committed {ms' : ModelState} (hloaded : ms'.isLoaded = ms.isLoaded)
    (hmax : ms'.maxConcurrent = ms.maxConcurrent) :
    (p.withEntry m.name ms').state.sumLoadedMaxConcurrent =
      (p.withEntry m.name ms).state.sumLoadedMaxConcurrent := by
  simp only [withEntry, ProviderVramState.setModel, ProviderVramState.sumLoadedMaxConcurrent,
    AList.entries_insert, List.filter_cons, hloaded]
  cases ms.isLoaded <;> simp [hmax]

theorem run_initializeLimit (r : SyncReport) (o : OnlineReport) (limit : ℕ) :
    ((initializeLimit r o m limit).run (handle now) (p.withEntry m.name ms)) =
      ((), if limit = 0 then
          let x : AimdInput := {
            numParallel := r.numParallel, vramTotalMb := o.vramTotalMb r.providerTotalVramMb
            weightMb := m.weightMb, kvPerReq := m.kvPerReq
            committed := (p.withEntry m.name ms).state.sumLoadedMaxConcurrent, stats := m.stats
            governorActive := false }
          (p.raise x.initial).withEntry m.name { ms with maxConcurrent := x.initial }
        else p.withEntry m.name ms) := by
  unfold initializeLimit
  split
  · rw [Program.run_then (a := (p.withEntry m.name ms).state.sumLoadedMaxConcurrent)
      (t := p.withEntry m.name ms) rfl]
    exact Program.run_perform.trans (handle_setMaxConcurrent _)
  · rfl

theorem run_raiseBaseline (baseline baselineP95 stableCycles : ℕ)
    (hp95 : ms.baselineP95Ms = baselineP95) :
    ((raiseBaseline m baseline baselineP95 stableCycles).run (handle now)
        (p.withEntry m.name ms)) =
      ((), p.withEntry m.name (if 3 ≤ stableCycles then
        { ms with
          baselineTps := max baseline m.stats.tpsX100
          baselineP95Ms := if 0 < baselineP95 then min baselineP95 m.stats.p95LatencyMs
            else baselineP95 } else ms)) := by
  unfold raiseBaseline
  split
  · rw [Program.run_then (Program.run_perform.trans (handle_setBaselineTps _))]
    split
    · exact Program.run_perform.trans (handle_setBaselineP95Ms _)
    · rw [← hp95]
      rfl
  · rfl

theorem run_firstSample (r : SyncReport) (o : OnlineReport) {x : AimdInput}
    (hbaseline : ms.baselineTps = 0) (hx : x = {
      numParallel := r.numParallel, vramTotalMb := o.vramTotalMb r.providerTotalVramMb
      weightMb := m.weightMb, kvPerReq := m.kvPerReq
      committed := (p.withEntry m.name ms).state.sumLoadedMaxConcurrent, stats := m.stats
      governorActive := x.governorActive }) :
    ((firstSample r o m ms.maxConcurrent).run (handle now) (p.withEntry m.name ms)).2 =
      p.update m.name ms (ms.aimd x) := by
  have hcold : (p.withEntry m.name
        { ms with baselineTps := m.stats.tpsX100 }).state.sumLoadedMaxConcurrent =
      (p.withEntry m.name ms).state.sumLoadedMaxConcurrent := withEntry_committed rfl rfl
  have hstats : x.stats = m.stats := by rw [hx]
  have hnum : x.numParallel = r.numParallel := by rw [hx]
  have hinitial : AimdInput.initial
      { numParallel := r.numParallel, vramTotalMb := o.vramTotalMb r.providerTotalVramMb
        weightMb := m.weightMb, kvPerReq := m.kvPerReq
        committed := (p.withEntry m.name ms).state.sumLoadedMaxConcurrent, stats := m.stats
        governorActive := false } = x.initial := by
    rw [hx]
    rfl
  have hp95 : ∀ (p : SyncedProvider) (ms : ModelState),
      ((if m.stats.p95Positive then perform (setBaselineP95Ms m.name m.stats.p95LatencyMs)
          else pure () : SyncProgram Unit).run (handle now) (p.withEntry m.name ms)).2 =
        p.withEntry m.name { ms with
          baselineP95Ms := if m.stats.p95Positive then m.stats.p95LatencyMs
            else ms.baselineP95Ms } := by
    intro p ms
    split
    · rw [Program.run_perform, handle_setBaselineP95Ms]
    · rfl
  unfold firstSample ModelState.aimd
  dsimp only
  rw [if_pos hbaseline, hstats, hnum]
  split
  · rw [Program.run_then (Program.run_perform.trans (handle_setBaselineTps _)),
      Program.run_then (run_initializeLimit r o _), hcold]
    dsimp only
    rw [hinitial]
    by_cases hlimit : ms.maxConcurrent = 0
    · rw [if_pos hlimit, if_pos hlimit, hp95, update_eq_raise]
      intro heq
      exact heq.trans hlimit
    · rw [if_neg hlimit, if_neg hlimit, hp95, SyncedProvider.update, if_pos rfl]
  · by_cases hlimit : ms.maxConcurrent = 0
    · rw [if_pos hlimit, if_pos hlimit, Program.run_perform, handle_setMaxConcurrent,
        update_eq_raise]
      intro heq
      exact heq.trans hlimit
    · rw [if_neg hlimit, if_neg hlimit, SyncedProvider.update, if_pos rfl]
      rfl

/-- The decisions of a model with a baseline: its entry but for the limit, and the new limit. -/
theorem run_newLimit (r : SyncReport) {x : AimdInput} (hstats : x.stats = m.stats)
    (hnum : x.numParallel = r.numParallel) (hbaseline : ms.baselineTps ≠ 0)
    (hsamples : 3 ≤ m.stats.sampleCount ∧ x.governorActive = false) :
    (newLimit r m ms.baselineTps ms.baselineP95Ms ms.maxConcurrent).run (handle now)
        (p.withEntry m.name ms) =
      ((ms.aimd x).maxConcurrent,
        p.withEntry m.name { ms.aimd x with maxConcurrent := ms.maxConcurrent }) := by
  unfold newLimit ModelState.aimd
  dsimp only
  rw [if_neg hbaseline, hstats, hnum, if_pos hsamples]
  split
  · rw [Program.run_then (Program.run_perform.trans handle_reset), Program.run_pure]
  · split
    · have hcycles : (perform (stableCycleCount m.name) : SyncProgram ℕ).run (handle now)
          (p.withEntry m.name { ms with stableCycleCount := (ms.stableCycleCount + 1) % U32 }) =
          ((ms.stableCycleCount + 1) % U32, p.withEntry m.name
            { ms with stableCycleCount := (ms.stableCycleCount + 1) % U32 }) := by
        rw [Program.run_perform, handle, withEntry_reads.2.2.2]
      have hraise : (raiseBaseline m ms.baselineTps ms.baselineP95Ms
          ((ms.stableCycleCount + 1) % U32)).run (handle now) (p.withEntry m.name
            { ms with stableCycleCount := (ms.stableCycleCount + 1) % U32 }) = ((), _) :=
        run_raiseBaseline _ _ _ rfl
      rw [Program.run_then (Program.run_perform.trans handle_increment),
        Program.run_then hcycles, Program.run_then hraise, Program.run_pure]
      split <;> rfl
    · rfl

theorem run_analyze (r : SyncReport) (o : OnlineReport) (governorActive : Bool)
    (m : RunningModel) :
    ((analyze r o governorActive m).run (handle now) p).2 =
      SyncedProvider.analyze r o governorActive p m := by
  obtain ⟨ms, hprofile⟩ : ∃ ms, p.state.setProfile m.name
      { weightMb := m.weightMb, kvPerRequestMb := m.kvPerReq } = p.state.setModel m.name ms := by
    unfold ProviderVramState.setProfile
    split
    · exact ⟨_, rfl⟩
    · exact ⟨_, rfl⟩
  have hhandle : handle now (.setModelProfile m.name
      { weightMb := m.weightMb, kvPerRequestMb := m.kvPerReq }) p = ((), p.withEntry m.name ms) := by
    rw [handle, hprofile]
    rfl
  have htps : (perform (baselineTps m.name) : SyncProgram ℕ).run (handle now)
      (p.withEntry m.name ms) = (ms.baselineTps, p.withEntry m.name ms) := by
    rw [Program.run_perform, handle, withEntry_reads.2.1]
  have hmax : (perform (maxConcurrent m.name) : SyncProgram ℕ).run (handle now)
      (p.withEntry m.name ms) = (ms.maxConcurrent, p.withEntry m.name ms) := by
    rw [Program.run_perform, handle, withEntry_reads.1]
  have hp95 : (perform (baselineP95Ms m.name) : SyncProgram ℕ).run (handle now)
      (p.withEntry m.name ms) = (ms.baselineP95Ms, p.withEntry m.name ms) := by
    rw [Program.run_perform, handle, withEntry_reads.2.2.1]
  set x : AimdInput :=
    { numParallel := r.numParallel, vramTotalMb := o.vramTotalMb r.providerTotalVramMb
      weightMb := m.weightMb, kvPerReq := m.kvPerReq
      committed := (p.withEntry m.name ms).state.sumLoadedMaxConcurrent, stats := m.stats
      governorActive } with hx
  have hanalyze : SyncedProvider.analyze r o governorActive p m = p.update m.name ms (ms.aimd x) := by
    unfold SyncedProvider.analyze
    rw [hprofile]
    dsimp only
    have hread : ∀ e : ModelState, (p.state.setModel m.name e).maxConcurrent m.name =
        e.maxConcurrent := fun e => withEntry_reads.1
    rw [modifyModel_setModel, hread, hread, SyncedProvider.update]
    change ({ p with
      state := p.state.setModel m.name (ms.aimd x)
      apuMaxConcurrentCache :=
        if (ms.aimd x).maxConcurrent = ms.maxConcurrent then p.apuMaxConcurrentCache
        else max p.apuMaxConcurrentCache (ms.aimd x).maxConcurrent } : SyncedProvider) = _
    split <;> rfl
  unfold analyze
  rw [hanalyze, Program.run_then (Program.run_perform.trans hhandle), Program.run_then htps,
    Program.run_then hmax]
  split
  · next hbaseline => exact run_firstSample r o hbaseline rfl
  · next hbaseline =>
    split
    · next hsamples =>
      rw [Program.run_then hp95, Program.run_then (run_newLimit (x := x) r rfl rfl hbaseline hsamples)]
      split
      · next hne =>
        rw [Program.run_perform, handle_setMaxConcurrent, update_eq_raise fun heq => absurd heq hne]
      · next heq =>
        rw [not_not] at heq
        rw [Program.run_pure, SyncedProvider.update, if_pos heq, ← heq]
    · next hsamples =>
      have hsame : ms.aimd x = ms := by
        rw [ModelState.aimd, if_neg hbaseline, if_neg hsamples]
      rw [hsame, SyncedProvider.update, if_pos rfl]
      rfl

theorem run_nudge (numParallel : ℕ) (rec : String × ℕ) :
    ((nudge numParallel rec).run (handle now) p).2 = SyncedProvider.nudge numParallel p rec := by
  unfold nudge SyncedProvider.nudge
  split
  · rfl
  rw [Program.run_then (a := p.state.stableCycleCount rec.1) (t := p) rfl]
  split
  · rfl
  rw [Program.run_then (a := p.state.maxConcurrent rec.1) (t := p) rfl]
  dsimp only
  split
  · rfl
  · next heq =>
    rw [if_pos (not_not.mp heq)]
    rfl

theorem run_syncOnline (r : SyncReport) (o : OnlineReport) :
    ((syncOnline r o).run (handle r.now) p).2 = p.syncOnline r o := by
  unfold syncOnline
  rw [Program.run_bind, Program.run_bind, Program.run_bind, run_trackDrift,
    Program.run_then (run_governor _ _), Program.run_bind, run_syncLoaded, Program.run_bind,
    Program.run_forEach fun p m => run_analyze r o _ m, Program.run_ite, apply_ite Prod.snd,
    Program.run_forEach fun p rec => run_nudge r.numParallel rec]
  rfl

/-- Without interleaving, the calls of a pass are `sync_provider` as one function. -/
theorem run_syncCalls (r : SyncReport) (p : SyncedProvider) :
    ((syncCalls r).run (handle r.now) p).2 = p.syncProvider r := by
  unfold syncCalls SyncedProvider.syncProvider
  rw [Program.run_bind, run_restore]
  cases r.online with
  | none => rfl
  | some o => exact run_syncOnline r o

end SyncProgram

/-! ## Passes beside other tasks -/

/-- A pass of `sync_provider` and what it has still to do. -/
structure SyncPass where
  id : ProviderId
  rest : SyncProgram Unit

/-- The pool with what it keeps of a provider for passes and for scoring. -/
structure SyncedPool where
  pool : VramPool
  lastMemAvailableMb : ProviderId → ℕ
  apuMaxConcurrentCache : ProviderId → ℕ

namespace SyncedPool
variable (s : SyncedPool)

def provider (id : ProviderId) : SyncedProvider :=
  { state := s.pool.provider id, lastMemAvailableMb := s.lastMemAvailableMb id
    apuMaxConcurrentCache := s.apuMaxConcurrentCache id }

def setProvider (id : ProviderId) (p : SyncedProvider) : SyncedPool :=
  { pool := s.pool.setProvider id p.state
    lastMemAvailableMb := Function.update s.lastMemAvailableMb id p.lastMemAvailableMb
    apuMaxConcurrentCache := Function.update s.apuMaxConcurrentCache id p.apuMaxConcurrentCache }

/-- What `mark_model_loaded` and `mark_model_unloaded` do to the counts of the instance. -/
def count (id : ProviderId) (c : SyncCall) (pool : VramPool) : VramPool :=
  match c with
  | .markModelLoaded model _ => pool.countLoad model
  | .markModelUnloaded model =>
    if ((s.pool.provider id).unload model 0).2 then pool.countUnload model else pool
  | _ => pool

/-- A call of a pass over the provider `id`. -/
def handle (id : ProviderId) (now : Millis) (c : SyncCall) : c.Reply × SyncedPool :=
  let (reply, p) := c.handle now (s.provider id)
  let s' := s.setProvider id p
  (reply, { s' with pool := s.count id c s'.pool })

variable {s}

/-- A call changes the state of its provider only. -/
theorem handle_provider (id : ProviderId) (now : Millis) (c : SyncCall) (j : ProviderId) :
    (s.handle id now c).2.pool.provider j =
      if j = id then (c.handle now (s.provider id)).2.state else s.pool.provider j := by
  have hcount : ∀ pool : VramPool, (s.count id c pool).provider j = pool.provider j := by
    intro pool
    unfold count
    split
    · rfl
    · split
      · exact VramPool.provider_countUnload pool _ j
      · rfl
    · rfl
  exact (hcount _).trans (VramPool.provider_setProvider _ id _ j)

end SyncedPool

end Veronex
