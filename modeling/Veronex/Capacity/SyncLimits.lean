import Veronex.Capacity.SyncProvider
import Veronex.Capacity.LoadedWeight
import Veronex.Foundation.Trace

/-! # The limits after a pass

A pass touches the limit of a running model in several places: it restores it from the database,
initializes it, decreases, increases or nudges it. `LimitState` is what these places read of a
model; each phase of the pass has one lemma about it.

`synced_limits_iff`: after every pass of a run the running models have limits between 1 and
`num_parallel`, exactly if no pass keeps a limit that is above its `num_parallel`.
-/
namespace Veronex
set_option autoImplicit false
open Concurrency

/-- The limit and the baselines of a model. -/
structure LimitState where
  maxConcurrent : ℕ
  baselineTps : ℕ
  baselineP95Ms : ℕ

def ModelState.limitState (ms : ModelState) : LimitState :=
  { maxConcurrent := ms.maxConcurrent, baselineTps := ms.baselineTps
    baselineP95Ms := ms.baselineP95Ms }

namespace ProviderVramState
variable {state state' : ProviderVramState} {model j : String} {ms : ModelState}

/-- All 0 for a model without an entry. -/
def limitState (state : ProviderVramState) (model : String) : LimitState :=
  { maxConcurrent := state.maxConcurrent model, baselineTps := state.baselineTps model
    baselineP95Ms := state.baselineP95Ms model }

theorem limitState_of_lookup (h : state.models.lookup model = some ms) :
    state.limitState model = ms.limitState := by
  simp [limitState, maxConcurrent, baselineTps, baselineP95Ms, h, ModelState.limitState]

theorem limitState_of_none (h : state.models.lookup model = none) :
    state.limitState model = { maxConcurrent := 0, baselineTps := 0, baselineP95Ms := 0 } := by
  simp [limitState, maxConcurrent, baselineTps, baselineP95Ms, h]

theorem limitState_congr (h : state'.models.lookup model = state.models.lookup model) :
    state'.limitState model = state.limitState model := by
  simp only [limitState, maxConcurrent, baselineTps, baselineP95Ms, h]

theorem setModel_limitState (ms : ModelState) (j : String) :
    (state.setModel model ms).limitState j =
      if j = model then ms.limitState else state.limitState j := by
  by_cases hj : j = model
  · subst hj
    rw [if_pos rfl, limitState_of_lookup (setModel_lookup state j ms)]
  · rw [if_neg hj]
    exact limitState_congr (AList.lookup_insert_ne hj)

theorem modifyModel_limitState {f : ModelState → ModelState}
    (hf : ∀ ms, (f ms).limitState = ms.limitState) (j : String) :
    (state.modifyModel model f).limitState j = state.limitState j := by
  rw [modifyModel]
  split
  · next ms hlookup =>
    rw [setModel_limitState]
    split
    · next hj => rw [hj, hf, limitState_of_lookup hlookup]
    · rfl
  · rfl

/-! ## The phases that keep it -/

theorem setDispatchBlocked_limitState (value : Bool) (j : String) :
    (state.setDispatchBlocked model value).limitState j = state.limitState j := by
  refine modifyModel_limitState (fun ms => ?_) j
  rfl

theorem setGovernorCap_limitState (cap : ℕ) (j : String) :
    (state.setGovernorCap model cap).limitState j = state.limitState j := by
  refine modifyModel_limitState (fun ms => ?_) j
  rfl

theorem resetGovernor_limitState (j : String) :
    state.resetGovernor.limitState j = state.limitState j := by
  refine foldl_invariant (I := fun s : ProviderVramState => s.limitState j = state.limitState j)
    rfl (fun s model hs => ?_) _
  rw [← hs, resetModel, setGovernorCap_limitState, setDispatchBlocked_limitState]

theorem governor_limitState (numParallel : ℕ) (q : QueueView) (j : String) :
    (state.governor numParallel q).1.limitState j = state.limitState j := by
  unfold governor
  dsimp only
  split
  · refine foldl_invariant (I := fun s : ProviderVramState => s.limitState j = state.limitState j)
      (resetGovernor_limitState j) (fun s e hs => ?_) _
    obtain ⟨model, _ | share⟩ := e
    · exact (setDispatchBlocked_limitState true j).trans hs
    · exact (setGovernorCap_limitState _ j).trans hs
  · exact resetGovernor_limitState j

/-- Only a model that is not running is unloaded. -/
theorem unloadGone_limitState {ps : List String} (hj : j ∈ ps) (now : Millis) :
    (state.unloadGone ps now).limitState j = state.limitState j := by
  unfold unloadGone
  have hnames : ∀ name ∈ state.loadedModelNames.filter (fun name => name ∉ ps), name ≠ j := by
    intro name hname heq
    simp only [List.mem_filter, decide_eq_true_eq] at hname
    exact hname.2 (heq ▸ hj)
  generalize state.loadedModelNames.filter (fun name => name ∉ ps) = names at hnames
  induction names generalizing state with
  | nil => rfl
  | cons name names ih =>
    rw [List.foldl_cons, ih fun n hn => hnames n (List.mem_cons_of_mem _ hn)]
    have hne : j ≠ name := fun heq => hnames name (List.mem_cons_self ..) heq.symm
    unfold unload
    split
    · exact limitState_congr (AList.lookup_insert_ne hne)
    · rfl

theorem load_limitState (weightMb : ℕ) (now : Millis) (j : String) :
    (state.load model weightMb now).limitState j = state.limitState j := by
  rw [load, setModel_limitState]
  split
  · next hj =>
    rw [hj, loadedModel]
    split
    · next ms hlookup => exact (limitState_of_lookup hlookup).symm
    · next hlookup => exact (limitState_of_none hlookup).symm
  · rfl

theorem loadRunning_limitState (ps : List RunningModel) (now : Millis) (j : String) :
    (state.loadRunning ps now).limitState j = state.limitState j :=
  foldl_invariant (I := fun s : ProviderVramState => s.limitState j = state.limitState j) rfl
    (fun _ _ hs => (load_limitState _ now j).trans hs) ps

theorem setProfile_limitState (profile : ModelVramProfile) (j : String) :
    (state.setProfile model profile).limitState j = state.limitState j := by
  unfold setProfile
  split
  · next ms hlookup =>
    rw [setModel_limitState]
    split
    · next hj => rw [hj]; exact (limitState_of_lookup hlookup).symm
    · rfl
  · next hlookup =>
    rw [setModel_limitState]
    split
    · next hj => rw [hj]; exact (limitState_of_none hlookup).symm
    · rfl

end ProviderVramState

/-! ## The phases that change it -/

namespace SyncedProvider
open ProviderVramState
variable {p : SyncedProvider} {model j : String}

theorem setMaxConcurrent_limitState (limit : ℕ) (j : String) :
    (p.setMaxConcurrent model limit).state.limitState j =
      if j = model then { p.state.limitState j with maxConcurrent := limit }
      else p.state.limitState j := by
  unfold setMaxConcurrent
  rw [setModel_limitState]
  split
  · next hj =>
    rw [hj]
    split
    · next ms hlookup => rw [limitState_of_lookup hlookup]; rfl
    · next hlookup => rw [limitState_of_none hlookup]; rfl
  · rfl

/-- The limit that the rows of the database give a model which has none. -/
def restoredLimit (profiles : List (String × ℤ)) (model : String) : ℕ :=
  ((profiles.find? fun row => row.1 = model ∧ 0 < row.2).map fun row => row.2.toNat).getD 0

/-- The limit of a model that a pass goes on from. -/
def limitBefore (p : SyncedProvider) (r : SyncReport) (model : String) : ℕ :=
  if p.state.maxConcurrent model = 0 then restoredLimit r.profiles model
  else p.state.maxConcurrent model

theorem restoreLimits_limitState (profiles : List (String × ℤ)) (j : String) :
    (profiles.foldl restoreLimit p).state.limitState j =
      { p.state.limitState j with
        maxConcurrent :=
          if p.state.maxConcurrent j = 0 then restoredLimit profiles j
          else p.state.maxConcurrent j } := by
  induction profiles generalizing p with
  | nil =>
    have hzero : restoredLimit [] j = 0 := rfl
    rw [List.foldl_nil, hzero]
    by_cases hj : p.state.maxConcurrent j = 0
    · rw [if_pos hj, ← hj]
      rfl
    · rw [if_neg hj]
      rfl
  | cons row profiles ih =>
    rw [List.foldl_cons, ih]
    unfold restoreLimit
    by_cases hrow : 0 < row.2 ∧ p.state.maxConcurrent row.1 = 0
    · have hset : (p.setMaxConcurrent row.1 row.2.toNat).state.limitState j = _ :=
        setMaxConcurrent_limitState row.2.toNat j
      have hmax : (p.setMaxConcurrent row.1 row.2.toNat).state.maxConcurrent j =
          ((p.setMaxConcurrent row.1 row.2.toNat).state.limitState j).maxConcurrent := rfl
      have hpos : row.2.toNat ≠ 0 := by omega
      rw [if_pos hrow, hmax, hset]
      by_cases hj : j = row.1
      · subst hj
        simp [restoredLimit, hrow, hpos]
      · have hname : row.1 ≠ j := fun h => hj h.symm
        rw [if_neg hj]
        simp only [restoredLimit, List.find?_cons, hname, false_and, decide_false]
        rfl
    · rw [if_neg hrow]
      by_cases hj : p.state.maxConcurrent j = 0
      · have hskip : ¬ (row.1 = j ∧ 0 < row.2) := by
          rintro ⟨rfl, hpos⟩
          exact hrow ⟨hpos, hj⟩
        simp [restoredLimit, hskip]
      · rw [if_neg hj, if_neg hj]

theorem restore_limitState (r : SyncReport) (j : String) :
    (p.restore r).state.limitState j =
      { p.state.limitState j with maxConcurrent := p.limitBefore r j } := by
  have hmodels : (p.restoreSafety r.budget).state.models = p.state.models := by
    unfold restoreSafety
    split
    · split <;> rfl
    · rfl
  have hsame : (p.restoreSafety r.budget).state.limitState j = p.state.limitState j :=
    limitState_congr (by rw [hmodels])
  have hmax : (p.restoreSafety r.budget).state.maxConcurrent j = p.state.maxConcurrent j :=
    congrArg LimitState.maxConcurrent hsame
  rw [restore, restoreLimits_limitState, hsame, hmax]
  rfl

end SyncedProvider

namespace ProviderVramState
variable {state : ProviderVramState} {model j : String} {ms : ModelState}

theorem relearn_lookup (h : state.models.lookup model = some ms) :
    ∃ ms', (state.relearn model).models.lookup model = some ms' ∧
      ms'.limitState = { ms.limitState with baselineTps := 0, baselineP95Ms := 0 } := by
  refine ⟨{ ms with stableCycleCount := 0, baselineTps := 0, baselineP95Ms := 0 }, ?_, rfl⟩
  rw [relearn, resetStableCycleCount, modifyModel, h]
  dsimp only
  rw [setModel_setBaselineTps, setModel_setBaselineP95Ms, setModel_lookup]

theorem relearn_lookup_of_ne (hj : j ≠ model) :
    (state.relearn model).models.lookup j = state.models.lookup j := by
  unfold relearn setBaselineP95Ms setBaselineTps setModel
  rw [AList.lookup_insert_ne hj, AList.lookup_insert_ne hj]
  exact modifyModel_lookup_of_ne hj _

theorem foldl_relearn_limitState {names : List String}
    (hknown : ∀ name ∈ names, (state.models.lookup name).isSome) (j : String) :
    (names.foldl relearn state).limitState j =
      if j ∈ names then { state.limitState j with baselineTps := 0, baselineP95Ms := 0 }
      else state.limitState j := by
  induction names generalizing state with
  | nil => simp
  | cons name names ih =>
    obtain ⟨ms, hms⟩ := Option.isSome_iff_exists.mp (hknown name (List.mem_cons_self ..))
    obtain ⟨ms', hms', hlimits⟩ := relearn_lookup hms
    have hstill : ∀ n ∈ names, ((state.relearn name).models.lookup n).isSome := by
      intro n hn
      by_cases heq : n = name
      · rw [heq, hms']
        rfl
      · rw [relearn_lookup_of_ne heq]
        exact hknown n (List.mem_cons_of_mem _ hn)
    rw [List.foldl_cons, ih hstill]
    by_cases heq : j = name
    · subst heq
      rw [limitState_of_lookup hms', hlimits, limitState_of_lookup hms]
      simp
    · rw [limitState_congr (relearn_lookup_of_ne heq)]
      simp [heq]

end ProviderVramState

/-- The memory of an APU has drifted since the last pass. -/
def OnlineReport.drifts (o : OnlineReport) (last : ℕ) : Prop :=
  isApu o.drmVramMb o.memAvailableMb o.gpuVendor ∧ 0 < o.memAvailableMb ∧ o.drifted last

instance (o : OnlineReport) (last : ℕ) : Decidable (o.drifts last) :=
  inferInstanceAs (Decidable (_ ∧ _))

namespace SyncedProvider
open ProviderVramState
variable {p : SyncedProvider} {model j : String}

theorem trackDrift_limitState (o : OnlineReport) (j : String) :
    (p.trackDrift o).state.limitState j =
      if o.drifts p.lastMemAvailableMb ∧ p.state.hasLoaded j then
        { p.state.limitState j with baselineTps := 0, baselineP95Ms := 0 }
      else p.state.limitState j := by
  have hnames : j ∈ p.state.loadedModelNames ↔ p.state.hasLoaded j := by
    rw [mem_loadedModelNames, hasLoaded]
    cases p.state.models.lookup j with
    | none => simp
    | some ms => simp
  have hknown : ∀ name ∈ p.state.loadedModelNames, (p.state.models.lookup name).isSome := by
    intro name hname
    obtain ⟨ms, hms, -⟩ := mem_loadedModelNames.mp hname
    rw [hms]
    rfl
  unfold trackDrift OnlineReport.drifts
  by_cases hapu : isApu o.drmVramMb o.memAvailableMb o.gpuVendor ∧ 0 < o.memAvailableMb
  · rw [if_pos hapu]
    dsimp only
    by_cases hdrift : o.drifted p.lastMemAvailableMb
    · simp only [hdrift, if_true, hapu.1, hapu.2, true_and]
      rw [foldl_relearn_limitState hknown]
      simp only [hnames]
    · simp [hdrift]
  · have hnot : ¬ (isApu o.drmVramMb o.memAvailableMb o.gpuVendor ∧ 0 < o.memAvailableMb ∧
        o.drifted p.lastMemAvailableMb) := fun h => hapu ⟨h.1, h.2.1⟩
    rw [if_neg hapu, if_neg fun h => hnot h.1]

end SyncedProvider

/-! ## One model -/

/-- The limit is between 1 and `num_parallel`. -/
def WithinParallel (limit numParallel : ℕ) : Prop := 1 ≤ limit ∧ limit ≤ numParallel

/-- A model with a baseline has a limit. -/
def LimitState.Limited (l : LimitState) : Prop := l.baselineTps ≠ 0 → l.maxConcurrent ≠ 0

/-- A limit is at most `num_parallel`, or step 7 brings it there. -/
def Settles (numParallel : ℕ) (stats : ThroughputStats) (governorActive : Bool)
    (l : LimitState) : Prop :=
  l.maxConcurrent ≤ numParallel ∨
    l.baselineTps ≠ 0 ∧ 3 ≤ stats.sampleCount ∧ governorActive = false ∧
      if stats.lowers l.baselineTps l.baselineP95Ms then
        ModelState.decreased l.maxConcurrent ≤ numParallel
      else stats.maintains l.baselineTps

namespace ModelState
variable {ms : ModelState} {x : AimdInput}

theorem initial_within (hpos : 0 < x.numParallel) : WithinParallel x.initial x.numParallel := by
  unfold AimdInput.initial WithinParallel
  dsimp only
  omega

theorem decreased_le {limit : ℕ} (hpos : 1 ≤ limit) : decreased limit ≤ limit := by
  have hmod : limit * 3 % U32 ≤ limit * 3 := Nat.mod_le _ _
  unfold decreased
  omega

theorem decreased_pos (limit : ℕ) : 1 ≤ decreased limit := Nat.le_max_right _ _

theorem aimd_limited (hpos : 0 < x.numParallel) (h : ms.limitState.Limited) :
    (ms.aimd x).limitState.Limited ∧ 1 ≤ (ms.aimd x).maxConcurrent := by
  have hinitial := (initial_within hpos).1
  unfold LimitState.Limited limitState at *
  dsimp only at *
  unfold aimd
  dsimp only
  split
  · next hbaseline =>
    split
    · by_cases hlimit : ms.maxConcurrent = 0
      · simp only [hlimit, if_true]
        exact ⟨fun _ => by omega, by omega⟩
      · simp only [hlimit, if_false]
        exact ⟨fun _ => hlimit, by omega⟩
    · split
      · exact ⟨fun _ => by dsimp only; omega, by dsimp only; omega⟩
      · next hlimit => exact ⟨h, by omega⟩
  · next hbaseline =>
    have hlimit := h hbaseline
    split
    · split
      · have hdec := decreased_pos ms.maxConcurrent
        exact ⟨fun _ => by dsimp only; omega, hdec⟩
      · split
        · have hup : 1 ≤ min (min (ms.maxConcurrent + 1) (U32 - 1)) x.numParallel := by
            simp only [U32]
            omega
          split
          · exact ⟨fun _ => by dsimp only; omega, hup⟩
          · exact ⟨fun _ => by dsimp only; omega, hup⟩
        · exact ⟨fun _ => hlimit, by omega⟩
    · exact ⟨fun _ => hlimit, by omega⟩

theorem aimd_within_iff (hpos : 0 < x.numParallel) (h : ms.limitState.Limited) :
    (ms.aimd x).maxConcurrent ≤ x.numParallel ↔
      Settles x.numParallel x.stats x.governorActive ms.limitState := by
  have hinitial := (initial_within hpos).2
  have hsettles : Settles x.numParallel x.stats x.governorActive ms.limitState ↔ ms.maxConcurrent ≤ x.numParallel ∨
      ms.baselineTps ≠ 0 ∧ 3 ≤ x.stats.sampleCount ∧ x.governorActive = false ∧
        if x.stats.lowers ms.baselineTps ms.baselineP95Ms then
          decreased ms.maxConcurrent ≤ x.numParallel
        else x.stats.maintains ms.baselineTps := Iff.rfl
  change ms.baselineTps ≠ 0 → ms.maxConcurrent ≠ 0 at h
  rw [hsettles]
  unfold aimd
  dsimp only
  by_cases hbaseline : ms.baselineTps = 0
  · rw [if_pos hbaseline]
    simp only [hbaseline, ne_eq, not_true_eq_false, false_and, or_false]
    by_cases hlimit : ms.maxConcurrent = 0
    · refine iff_of_true ?_ (by omega)
      simp only [hlimit, if_true]
      split
      · exact hinitial
      · exact le_rfl
    · simp only [hlimit, if_false]
      split <;> rfl
  · have hlimit := h hbaseline
    rw [if_neg hbaseline]
    by_cases hadapt : 3 ≤ x.stats.sampleCount ∧ x.governorActive = false
    · rw [if_pos hadapt]
      simp only [hbaseline, hadapt, ne_eq, not_false_eq_true, true_and]
      by_cases hlower : x.stats.lowers ms.baselineTps ms.baselineP95Ms
      · have hle : decreased ms.maxConcurrent ≤ ms.maxConcurrent := decreased_le (by omega)
        rw [if_pos hlower, if_pos hlower]
        dsimp only
        constructor
        · exact .inr
        · rintro (hsmall | hdec)
          · omega
          · exact hdec
      · rw [if_neg hlower, if_neg hlower]
        by_cases hmaintain : x.stats.maintains ms.baselineTps
        · refine iff_of_true ?_ (.inr hmaintain)
          rw [if_pos hmaintain]
          split
          · exact Nat.min_le_right _ _
          · exact Nat.min_le_right _ _
        · simp [hmaintain]
    · rw [if_neg hadapt]
      constructor
      · exact .inl
      · rintro (hsmall | ⟨-, hsamples, hgovernor, -⟩)
        · exact hsmall
        · exact absurd ⟨hsamples, hgovernor⟩ hadapt

end ModelState

namespace SyncedProvider
open ProviderVramState
variable {p : SyncedProvider} {j : String} {r : SyncReport} {o : OnlineReport} {governorActive : Bool}

/-- Every model with a baseline has a limit. -/
def AllLimited (p : SyncedProvider) : Prop := ∀ model, (p.state.limitState model).Limited

/-- What step 7 of a pass knows of a model. -/
def aimdInput (p : SyncedProvider) (r : SyncReport) (o : OnlineReport) (governorActive : Bool)
    (m : RunningModel) : AimdInput :=
  { numParallel := r.numParallel, vramTotalMb := o.vramTotalMb r.providerTotalVramMb
    weightMb := m.weightMb, kvPerReq := m.kvPerReq
    committed := (p.state.setProfile m.name
      { weightMb := m.weightMb, kvPerRequestMb := m.kvPerReq }).sumLoadedMaxConcurrent
    stats := m.stats, governorActive }

theorem analyze_entry (m : RunningModel) :
    ∃ ms : ModelState, ms.limitState = p.state.limitState m.name ∧
      (analyze r o governorActive p m).state =
        p.state.setModel m.name (ms.aimd (p.aimdInput r o governorActive m)) := by
  obtain ⟨ms, hprofile⟩ : ∃ ms, p.state.setProfile m.name
      { weightMb := m.weightMb, kvPerRequestMb := m.kvPerReq } = p.state.setModel m.name ms := by
    unfold ProviderVramState.setProfile
    split
    · exact ⟨_, rfl⟩
    · exact ⟨_, rfl⟩
  have hlimits : (p.state.setProfile m.name
      { weightMb := m.weightMb, kvPerRequestMb := m.kvPerReq }).limitState m.name = _ :=
    setProfile_limitState _ _
  rw [hprofile, setModel_limitState, if_pos rfl] at hlimits
  refine ⟨ms, hlimits, ?_⟩
  unfold analyze aimdInput
  rw [hprofile]
  exact modifyModel_setModel ..

theorem nudge_limit (numParallel : ℕ) (rec : String × ℕ) (j : String)
    (hpos : 1 ≤ p.state.maxConcurrent j) :
    1 ≤ (nudge numParallel p rec).state.maxConcurrent j ∧
      ((nudge numParallel p rec).state.maxConcurrent j ≤ numParallel ↔
        p.state.maxConcurrent j ≤ numParallel) := by
  unfold nudge
  dsimp only
  split
  · exact ⟨hpos, Iff.rfl⟩
  split
  · exact ⟨hpos, Iff.rfl⟩
  split
  · exact ⟨hpos, Iff.rfl⟩
  · have hset : ∀ limit, (p.setMaxConcurrent rec.1 limit).state.maxConcurrent j =
        if j = rec.1 then limit else p.state.maxConcurrent j := by
      intro limit
      refine (congrArg LimitState.maxConcurrent (setMaxConcurrent_limitState limit j)).trans ?_
      split <;> rfl
    rw [hset]
    by_cases hj : j = rec.1
    · subst hj
      rw [if_pos rfl]
      omega
    · rw [if_neg hj]
      exact ⟨hpos, Iff.rfl⟩

theorem foldl_analyze_of_notMem {ms : List RunningModel} (hj : j ∉ ms.map RunningModel.name) :
    (ms.foldl (analyze r o governorActive) p).state.limitState j = p.state.limitState j := by
  induction ms generalizing p with
  | nil => rfl
  | cons m ms ih =>
    rw [List.map_cons, List.mem_cons, not_or] at hj
    obtain ⟨e, -, hentry⟩ : ∃ e : ModelState, _ ∧
        (analyze r o governorActive p m).state = _ := analyze_entry m
    rw [List.foldl_cons, ih hj.2, hentry, setModel_limitState, if_neg hj.1]

/-- Every running model is analyzed once, from the limit it had before. -/
theorem foldl_analyze_mem {ms : List RunningModel} (hnodup : (ms.map RunningModel.name).Nodup)
    {m : RunningModel} (hm : m ∈ ms) :
    ∃ (e : ModelState) (x : AimdInput), e.limitState = p.state.limitState m.name ∧
      x.numParallel = r.numParallel ∧ x.stats = m.stats ∧ x.governorActive = governorActive ∧
      (ms.foldl (analyze r o governorActive) p).state.limitState m.name =
        (e.aimd x).limitState := by
  induction ms generalizing p with
  | nil => cases hm
  | cons m' ms ih =>
    rw [List.map_cons, List.nodup_cons] at hnodup
    obtain ⟨e, hlimits, hentry⟩ : ∃ e : ModelState, _ ∧
        (analyze r o governorActive p m').state = _ := analyze_entry m'
    rw [List.foldl_cons]
    rcases List.mem_cons.mp hm with rfl | hm
    · refine ⟨e, p.aimdInput r o governorActive m, hlimits, rfl, rfl, rfl, ?_⟩
      rw [foldl_analyze_of_notMem hnodup.1, hentry, setModel_limitState, if_pos rfl]
    · obtain ⟨e', x, hlimits', hx⟩ := ih hnodup.2 hm
      have hne : m.name ≠ m'.name := by
        intro heq
        exact hnodup.1 (heq ▸ List.mem_map.mpr ⟨m, hm, rfl⟩)
      refine ⟨e', x, ?_, hx⟩
      rw [hlimits', hentry, setModel_limitState, if_neg hne]

/-- What the analysis of a pass finds for a model. -/
def limitsBefore (p : SyncedProvider) (r : SyncReport) (o : OnlineReport) (model : String) :
    LimitState :=
  let l : LimitState := { p.state.limitState model with maxConcurrent := p.limitBefore r model }
  if o.drifts p.lastMemAvailableMb ∧ p.state.hasLoaded model then
    { l with baselineTps := 0, baselineP95Ms := 0 }
  else l

theorem setMaxConcurrent_hasLoaded (model : String) (limit : ℕ) (j : String) :
    (p.setMaxConcurrent model limit).state.hasLoaded j = p.state.hasLoaded j := by
  unfold setMaxConcurrent
  rw [setModel_hasLoaded]
  split
  · next hj =>
    rw [hj, hasLoaded]
    split
    · next ms hlookup => rw [hlookup]; rfl
    · next hlookup => rw [hlookup]; rfl
  · rfl

theorem restore_keeps (r : SyncReport) (j : String) :
    (p.restore r).lastMemAvailableMb = p.lastMemAvailableMb ∧
      (p.restore r).state.hasLoaded j = p.state.hasLoaded j := by
  refine foldl_invariant (I := fun q : SyncedProvider =>
    q.lastMemAvailableMb = p.lastMemAvailableMb ∧ q.state.hasLoaded j = p.state.hasLoaded j)
    ?_ (fun q row hq => ?_) _
  · unfold restoreSafety
    split
    · split
      · exact ⟨rfl, rfl⟩
      · exact ⟨rfl, rfl⟩
    · exact ⟨rfl, rfl⟩
  · unfold restoreLimit
    split
    · exact ⟨hq.1, (setMaxConcurrent_hasLoaded _ _ j).trans hq.2⟩
    · exact hq

theorem beforeGovernor_limitState (r : SyncReport) (o : OnlineReport) (j : String) :
    (p.beforeGovernor r o).state.limitState j = p.limitsBefore r o j := by
  obtain ⟨hlast, hloaded⟩ := restore_keeps (p := p) r j
  have hprobed : ({ (p.restore r).state with
      totalMb := o.vramTotalMb r.providerTotalVramMb }.decaySafety).models =
        (p.restore r).state.models := by
    unfold decaySafety
    split <;> rfl
  have hlimits : ({ (p.restore r).state with
      totalMb := o.vramTotalMb r.providerTotalVramMb }.decaySafety).limitState j =
        { p.state.limitState j with maxConcurrent := p.limitBefore r j } :=
    (limitState_congr (by rw [hprobed])).trans (restore_limitState r j)
  rw [beforeGovernor, trackDrift_limitState]
  dsimp only
  rw [hlast, hasLoaded, hprobed, ← hasLoaded, hloaded, hlimits]
  rfl

/-- A model with a baseline has a limit before the analysis too. -/
theorem limitsBefore_limited (h : p.AllLimited) (r : SyncReport) (o : OnlineReport)
    (model : String) : (p.limitsBefore r o model).Limited := by
  have hmodel := h model
  unfold limitsBefore LimitState.Limited at *
  dsimp only
  split
  · exact fun hzero => absurd rfl hzero
  · intro hbaseline
    have hlimit : p.state.maxConcurrent model ≠ 0 := hmodel hbaseline
    rw [limitBefore, if_neg hlimit]
    exact hlimit

/-- The analysis of a pass begins with `limitsBefore`. -/
theorem loaded_limitState (r : SyncReport) (o : OnlineReport) (hj : j ∈ o.psModels.map RunningModel.name) :
    ((((p.beforeGovernor r o).state.governor r.numParallel o.queue).1.unloadGone
      (o.psModels.map RunningModel.name) r.now).loadRunning o.psModels r.now).limitState j =
        p.limitsBefore r o j := by
  rw [loadRunning_limitState, unloadGone_limitState hj, governor_limitState,
    beforeGovernor_limitState]

theorem governorActive_eq (r : SyncReport) (o : OnlineReport) :
    ((p.beforeGovernor r o).state.governor r.numParallel o.queue).2 =
      decide (r.numParallel < p.state.totalActiveCount) := by
  unfold governor
  dsimp only
  rw [resetGovernor_totalActiveCount, beforeGovernor_total]
  by_cases h : r.numParallel < p.state.totalActiveCount
  · rw [if_pos h, decide_eq_true h]
  · rw [if_neg h, decide_eq_false h]

/-- The nudges of a pass neither bring a limit within bounds nor out of them. -/
theorem nudgeAll_limit (hpos : 1 ≤ p.state.maxConcurrent j) :
    1 ≤ (p.nudgeAll r o).state.maxConcurrent j ∧
      ((p.nudgeAll r o).state.maxConcurrent j ≤ r.numParallel ↔
        p.state.maxConcurrent j ≤ r.numParallel) := by
  unfold nudgeAll
  split
  · refine foldl_invariant (I := fun q : SyncedProvider => 1 ≤ q.state.maxConcurrent j ∧
      (q.state.maxConcurrent j ≤ r.numParallel ↔ p.state.maxConcurrent j ≤ r.numParallel))
      ⟨hpos, Iff.rfl⟩ (fun q rec hq => ?_) _
    have hnudge := nudge_limit r.numParallel rec j hq.1
    exact ⟨hnudge.1, hnudge.2.trans hq.2⟩
  · exact ⟨hpos, Iff.rfl⟩

/-- After the pass every running model has a limit between 1 and `num_parallel`. -/
def LimitsWithin (p : SyncedProvider) (r : SyncReport) : Prop :=
  ∀ o, r.online = some o → ∀ m ∈ o.psModels,
    WithinParallel ((p.syncProvider r).state.maxConcurrent m.name) r.numParallel

/-- The limit of every running model is at most `num_parallel`, or the pass brings it there. -/
def Settled (p : SyncedProvider) (r : SyncReport) : Prop :=
  ∀ o, r.online = some o → ∀ m ∈ o.psModels,
    Settles r.numParallel m.stats (decide (r.numParallel < p.state.totalActiveCount))
      (p.limitsBefore r o m.name)

theorem limitsWithin_iff (h : p.AllLimited) (r : SyncReport) : p.LimitsWithin r ↔ p.Settled r := by
  refine forall_congr' fun o => imp_congr_right fun honline => forall_congr' fun m =>
    imp_congr_right fun hm => ?_
  have hname : m.name ∈ o.psModels.map RunningModel.name := List.mem_map.mpr ⟨m, hm, rfl⟩
  rw [syncProvider_eq honline, governorActive_eq]
  set active := decide (r.numParallel < p.state.totalActiveCount) with hactive
  set loaded : SyncedProvider := { p.beforeGovernor r o with
    state := (((p.beforeGovernor r o).state.governor r.numParallel o.queue).1.unloadGone
      (o.psModels.map RunningModel.name) r.now).loadRunning o.psModels r.now } with hloaded
  obtain ⟨e, x, hlimits, hparallel, hstats, hgovernor, hafter⟩ :
      ∃ (e : ModelState) (x : AimdInput), _ ∧ _ ∧ _ ∧ _ ∧
        (o.psModels.foldl (analyze r o active) loaded).state.limitState m.name = _ :=
    foldl_analyze_mem o.psNodup hm
  rw [loaded_limitState r o hname] at hlimits
  have hlimited : e.limitState.Limited := hlimits ▸ limitsBefore_limited h r o m.name
  have hpos : 0 < x.numParallel := hparallel ▸ r.numParallel_pos
  have hmax : (o.psModels.foldl (analyze r o active) loaded).state.maxConcurrent m.name =
      (e.aimd x).maxConcurrent := congrArg LimitState.maxConcurrent hafter
  have hbound := (ModelState.aimd_limited hpos hlimited).2
  have hnudge := nudgeAll_limit (p := o.psModels.foldl (analyze r o active) loaded) (r := r)
    (o := o) (j := m.name) (hmax ▸ hbound)
  have hwithin := ModelState.aimd_within_iff hpos hlimited
  rw [hparallel, hstats, hgovernor, hlimits] at hwithin
  rw [WithinParallel, and_iff_right hnudge.1, hnudge.2, hmax, hwithin]

end SyncedProvider

/-! ## Runs -/

section Runs
open ProviderVramState
variable {state : ProviderVramState} {p : SyncedProvider} {model : String} {ms : ModelState}

theorem setModel_limited (h : ∀ j, (state.limitState j).Limited) (hms : ms.limitState.Limited)
    (j : String) : ((state.setModel model ms).limitState j).Limited := by
  rw [setModel_limitState]
  split
  · exact hms
  · exact h j

theorem modelOr_limited (h : ∀ j, (state.limitState j).Limited) {fresh : ModelState}
    (hfresh : fresh.limitState.Limited) : (state.modelOr model fresh).limitState.Limited := by
  cases hlookup : state.models.lookup model with
  | none =>
    rw [modelOr, hlookup]
    exact hfresh
  | some ms =>
    rw [modelOr, hlookup, Option.getD_some, ← limitState_of_lookup hlookup]
    exact h model

theorem unload_limited (h : ∀ j, (state.limitState j).Limited) (now : Millis) (j : String) :
    ((state.unload model now).1.limitState j).Limited := by
  unfold unload
  split
  · next ms hlookup =>
    dsimp only
    rw [setModel_limitState]
    split
    · exact fun hzero => absurd rfl hzero
    · exact h j
  · exact h j

theorem unloadGone_limited (h : ∀ j, (state.limitState j).Limited) (ps : List String)
    (now : Millis) (j : String) : ((state.unloadGone ps now).limitState j).Limited := by
  unfold unloadGone
  generalize state.loadedModelNames.filter (fun name => name ∉ ps) = names
  induction names generalizing state with
  | nil => exact h j
  | cons name names ih => exact ih (unload_limited h now)

theorem analyze_allLimited (h : p.AllLimited) (r : SyncReport) (o : OnlineReport)
    (governorActive : Bool) (m : RunningModel) :
    (SyncedProvider.analyze r o governorActive p m).AllLimited := by
  obtain ⟨e, hlimits, hentry⟩ : ∃ e : ModelState, _ ∧
      (SyncedProvider.analyze r o governorActive p m).state = _ := SyncedProvider.analyze_entry m
  have hlimited : e.limitState.Limited := hlimits ▸ h m.name
  intro j
  rw [hentry]
  exact setModel_limited h (ModelState.aimd_limited r.numParallel_pos hlimited).1 j

theorem setMaxConcurrent_allLimited (h : p.AllLimited) {limit : ℕ} (hlimit : 0 < limit) :
    (p.setMaxConcurrent model limit).AllLimited := by
  intro j
  rw [SyncedProvider.setMaxConcurrent_limitState]
  split
  · exact fun _ => Nat.pos_iff_ne_zero.mp hlimit
  · exact h j

theorem nudge_allLimited (h : p.AllLimited) (numParallel : ℕ) (rec : String × ℕ) :
    (SyncedProvider.nudge numParallel p rec).AllLimited := by
  unfold SyncedProvider.nudge
  dsimp only
  split
  · exact h
  split
  · exact h
  split
  · exact h
  · exact setMaxConcurrent_allLimited h (by omega)

/-- A pass. -/
theorem syncProvider_allLimited (h : p.AllLimited) (r : SyncReport) :
    (p.syncProvider r).AllLimited := by
  cases honline : r.online with
  | none =>
    have hpass : p.syncProvider r = p.restore r := by
      unfold SyncedProvider.syncProvider
      rw [honline]
    intro j
    rw [hpass, SyncedProvider.restore_limitState]
    intro hbaseline
    have hlimit : p.state.maxConcurrent j ≠ 0 := h j hbaseline
    show p.limitBefore r j ≠ 0
    rwa [SyncedProvider.limitBefore, if_neg hlimit]
  | some o =>
    have hgovernor : ∀ j, (((p.beforeGovernor r o).state.governor r.numParallel
        o.queue).1.limitState j).Limited := by
      intro j
      rw [governor_limitState, SyncedProvider.beforeGovernor_limitState]
      exact SyncedProvider.limitsBefore_limited h r o j
    have hload : ∀ j, (((((p.beforeGovernor r o).state.governor r.numParallel o.queue).1.unloadGone
        (o.psModels.map RunningModel.name) r.now).loadRunning o.psModels r.now).limitState
          j).Limited := by
      intro j
      rw [loadRunning_limitState]
      exact unloadGone_limited hgovernor _ r.now j
    rw [SyncedProvider.syncProvider_eq honline]
    set loaded : SyncedProvider := { p.beforeGovernor r o with
      state := (((p.beforeGovernor r o).state.governor r.numParallel o.queue).1.unloadGone
        (o.psModels.map RunningModel.name) r.now).loadRunning o.psModels r.now } with hloaded
    generalize ((p.beforeGovernor r o).state.governor r.numParallel o.queue).2 = active
    have hbefore : loaded.AllLimited := hload
    have hanalyze := foldl_invariant hbefore
      (fun q m hq => analyze_allLimited hq r o active m) o.psModels
    unfold SyncedProvider.nudgeAll
    split
    · exact foldl_invariant hanalyze (fun q rec hq => nudge_allLimited hq r.numParallel rec) _
    · exact hanalyze

theorem checkLimit_limited (h : ∀ j, (state.limitState j).Limited) (probePermits : ℤ)
    (probeRate : ℕ) (j : String) :
    ((state.checkLimit model probePermits probeRate).1.limitState j).Limited := by
  unfold checkLimit
  split
  · next ms hlookup =>
    have hms : ms.limitState.Limited := limitState_of_lookup hlookup ▸ h model
    refine setModel_limited h ?_ j
    exact hms
  · exact h j

theorem track_limited (h : ∀ j, (state.limitState j).Limited) (cost : ReserveCost) (j : String) :
    ((state.track model cost).limitState j).Limited := by
  have hnew : (ModelState.new cost.weightCost cost.needLoadWeight cost.kvMb 1).limitState.Limited :=
    fun _ => Nat.one_ne_zero
  have hentry : (state.modelOr model
      (.new cost.weightCost cost.needLoadWeight cost.kvMb 1)).limitState.Limited :=
    modelOr_limited h hnew
  refine setModel_limited h ?_ j
  exact hentry

theorem markLoading_limited (h : ∀ j, (state.limitState j).Limited) (cost : ReserveCost)
    (j : String) : ((state.markLoading model cost).limitState j).Limited := by
  unfold markLoading
  split
  · next ms hlookup =>
    have hms : ms.limitState.Limited := limitState_of_lookup hlookup ▸ h model
    refine setModel_limited h ?_ j
    exact hms
  · refine setModel_limited h ?_ j
    exact fun _ => Nat.one_ne_zero

/-- A reservation writes neither the limit nor the baseline of a model it finds. -/
theorem tryReserve_limited (h : ∀ j, (state.limitState j).Limited) (probePermits : ℤ)
    (probeRate : ℕ) (j : String) :
    ((state.tryReserve model probePermits probeRate).1.limitState j).Limited := by
  unfold tryReserve
  split
  · have hentry : (state.modelOr model (.new 0 false 0 1)).limitState.Limited :=
      modelOr_limited h fun _ => Nat.one_ne_zero
    unfold tryReserveUnprobed
    dsimp only
    split
    · refine setModel_limited h ?_ j
      exact hentry
    · refine setModel_limited h ?_ j
      exact hentry
  · have hcheck : ∀ j, ((state.checkLimit model probePermits probeRate).1.limitState j).Limited :=
      checkLimit_limited h probePermits probeRate
    unfold tryReserveProbed
    dsimp only
    split
    · exact hcheck j
    unfold casLoop
    split
    · dsimp only
      split
      · exact hcheck j
      · exact hcheck j
    · unfold grant
      refine track_limited (fun j => ?_) _ j
      split
      · refine markLoading_limited ?_ _ j
        exact hcheck
      · exact hcheck j

end Runs

/-- A pass, a reservation or a dropped permit of a provider. -/
inductive SyncEvent
  | pass (r : SyncReport)
  | reserve (model : String) (probePermits : ℤ) (probeRate : ℕ)
  | drop (model : String) (kvMb : ℕ) (now : Millis)

namespace SyncedProvider
open ProviderVramState

def event (p : SyncedProvider) : SyncEvent → SyncedProvider
  | .pass r => p.syncProvider r
  | .reserve model probePermits probeRate =>
    { p with state := (p.state.tryReserve model probePermits probeRate).1 }
  | .drop model kvMb now =>
    { p with state := (((p.state.subReserved kvMb).subActive model).touch model now).subTotal }

theorem event_allLimited {p : SyncedProvider} (h : p.AllLimited) (e : SyncEvent) :
    (p.event e).AllLimited := by
  cases e with
  | pass r => exact syncProvider_allLimited h r
  | reserve model probePermits probeRate => exact tryReserve_limited h probePermits probeRate
  | drop model kvMb now =>
    intro j
    have hactive : ((p.state.subReserved kvMb).subActive model).limitState j =
        (p.state.subReserved kvMb).limitState j := by
      refine modifyModel_limitState (fun _ => ?_) j
      rfl
    have htouch : (((p.state.subReserved kvMb).subActive model).touch model now).limitState j =
        ((p.state.subReserved kvMb).subActive model).limitState j := by
      refine modifyModel_limitState (fun _ => ?_) j
      rfl
    show ((((p.state.subReserved kvMb).subActive model).touch model now).limitState j).Limited
    rw [htouch, hactive]
    exact h j

/-- In every run, after every pass the running models have limits between 1 and `num_parallel`,
exactly if every pass of the run finds the limits settled. -/
theorem synced_limits_iff (events : List SyncEvent) :
    EveryCall event .fresh events (fun p e => ∀ r, e = .pass r → p.LimitsWithin r) ↔
      EveryCall event .fresh events (fun p e => ∀ r, e = .pass r → p.Settled r) := by
  refine everyCall_congr (I := AllLimited) ?_ (fun p e h => event_allLimited h e) ?_ events
  · exact fun model hbaseline => absurd rfl hbaseline
  · intro p e h
    exact forall_congr' fun r => imp_congr_right fun _ => limitsWithin_iff h r

/-- The first pass of an instance whose database has a limit of 8 for a running model, after
`num_parallel` was lowered to 2. -/
def loweredParallel : SyncReport :=
  { now := 1, numParallel := 2, numParallel_pos := Nat.two_pos, providerTotalVramMb := 0
    budget := none, profiles := [("m", 8)]
    online := some {
      agentTotalVramMb := none, hw := none, queue := emptyQueue
      psModels := [.unknown "m"], psNodup := List.nodup_singleton _, recommendations := [] } }

theorem restored_limit_above_parallel :
    ¬ ∀ events, EveryCall event .fresh events fun p e => ∀ r, e = .pass r → p.LimitsWithin r := by
  intro hall
  have hpass := hall [.pass loweredParallel] [] (.pass loweredParallel) (List.prefix_refl _)
    loweredParallel rfl _ rfl _ (List.mem_singleton_self _)
  have hlimit : (syncProvider .fresh loweredParallel).state.maxConcurrent "m" ≤ 2 := hpass.2
  revert hlimit
  decide +kernel

end SyncedProvider

end Veronex
