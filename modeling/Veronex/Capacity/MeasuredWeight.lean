import Veronex.Capacity.LoadedWeight

/-! # Measured weights

A weight above 0 that `set_model_profile` or `mark_model_loaded` is given has been measured; a 0 is
a placeholder. `accountsMeasured_throughout`: the calls under which the pool never accounts a model
with less than was last measured (`WeightLog.AccountsMeasured`).
-/
namespace Veronex
set_option autoImplicit false
open Concurrency

/-- `model_weight_mb`. -/
def ProviderVramState.modelWeightMb (state : ProviderVramState) (model : String) : ℕ :=
  (state.models.lookup model).elim 0 ModelState.weightMb

/-- The pool, and the weight last measured of each model on each provider; 0: none. -/
structure WeightLog where
  pool : VramPool
  measured : ProviderId → String → ℕ

/-- The weight a call stores for a model. -/
def PoolCall.storedWeight : PoolCall → Option (ProviderId × String × ℕ)
  | .setModelProfile id model profile => some (id, model, profile.weightMb)
  | .markModelLoaded id model weightMb _ => some (id, model, weightMb)
  | _ => none

namespace WeightLog

def new : WeightLog := { pool := .new, measured := fun _ _ => 0 }

/-- Takes down a weight that is no placeholder. -/
def measure (measured : ProviderId → String → ℕ) :
    Option (ProviderId × String × ℕ) → ProviderId → String → ℕ
  | some (id, model, weightMb), j, m =>
    if j = id ∧ m = model ∧ 0 < weightMb then weightMb else measured j m
  | none, j, m => measured j m

def call (log : WeightLog) (c : PoolCall) : WeightLog :=
  { pool := log.pool.call c, measured := measure log.measured c.storedWeight }

/-- The measured weight of the models of a provider that are marked loaded. -/
def measuredLoad (log : WeightLog) (id : ProviderId) : ℕ :=
  total (fun model ms => if ms.isLoaded then log.measured id model else 0)
    (log.pool.provider id).models

/-- No model counts for less than was last measured: not by `model_weight_mb`, not in the sum of the
loaded weights, and not as the cost of loading it. -/
structure AccountsMeasured (log : WeightLog) : Prop where
  weight : ∀ id model, (log.pool.provider id).hasLoaded model = true →
    log.measured id model ≤ (log.pool.provider id).modelWeightMb model
  sum : ∀ id, log.measuredLoad id ≤ (log.pool.provider id).cachedLoadedWeightMb
  cost : ∀ id model,
    (reserveCost ((log.pool.provider id).models.lookup model)).needLoadWeight = true →
      log.measured id model ≤
        (reserveCost ((log.pool.provider id).models.lookup model)).weightCost

/-- The weight a call stores is of a model that has not been measured, or it is no placeholder; and
the sum of the loaded weights gets every weight that is loaded. -/
def KeepsMeasured (log : WeightLog) : PoolCall → Prop
  | .tryReserve id model =>
    (log.pool.provider id).GrantsProbed model log.pool.probePermits log.pool.probeRate →
      (reserveCost ((log.pool.provider id).models.lookup model)).weightCost = 0
  | .markModelLoaded id model weightMb _ =>
    (weightMb = 0 → log.measured id model = 0) ∧
      (log.pool.provider id).cachedLoadedWeightMb +
        (weightMb - (log.pool.provider id).weightOf model) < U64
  | .setModelProfile id model profile =>
    (profile.weightMb = 0 → log.measured id model = 0) ∧
      ((log.pool.provider id).hasLoaded model = true →
        profile.weightMb ≤ (log.pool.provider id).weightOf model)
  | .dropPermit .. | .setTotalVram .. | .markModelUnloaded .. => True

instance (log : WeightLog) (c : PoolCall) : Decidable (log.KeepsMeasured c) := by
  cases c with
  | tryReserve id model => exact inferInstanceAs (Decidable (_ → _))
  | markModelLoaded id model weightMb now => exact inferInstanceAs (Decidable (_ ∧ _))
  | setModelProfile id model profile => exact inferInstanceAs (Decidable (_ ∧ _))
  | dropPermit permit now => exact inferInstanceAs (Decidable True)
  | setTotalVram id totalMb => exact inferInstanceAs (Decidable True)
  | markModelUnloaded id model now => exact inferInstanceAs (Decidable True)

end WeightLog

/-! ## The weights of the entries -/

namespace ProviderVramState
variable {state state' : ProviderVramState} {model : String}

theorem setModel_modelWeightMb (state : ProviderVramState) (model : String) (ms : ModelState)
    (j : String) : (state.setModel model ms).modelWeightMb j =
      if j = model then ms.weightMb else state.modelWeightMb j := by
  unfold modelWeightMb setModel
  by_cases hj : j = model
  · subst hj
    simp
  · simp [AList.lookup_insert_ne hj, hj]

/-- No model weighs less than before. -/
def WeightsUp (state state' : ProviderVramState) : Prop :=
  ∀ j, state.modelWeightMb j ≤ state'.modelWeightMb j

namespace WeightsUp
variable {s t u : ProviderVramState}

theorem trans (h₁ : WeightsUp s t) (h₂ : WeightsUp t u) : WeightsUp s u :=
  fun j => (h₁ j).trans (h₂ j)

theorem of_models (h : t.models = s.models) : WeightsUp s t := by
  intro j
  rw [modelWeightMb, modelWeightMb, h]

theorem refl (s : ProviderVramState) : WeightsUp s s := .of_models rfl

end WeightsUp

theorem weightsUp_setModel {ms : ModelState} (h : state.modelWeightMb model ≤ ms.weightMb) :
    WeightsUp state (state.setModel model ms) := by
  intro j
  rw [setModel_modelWeightMb]
  split
  · next hj => rwa [hj]
  · exact le_rfl

theorem weightsUp_of_lookup {ms ms' : ModelState} (hlookup : state.models.lookup model = some ms)
    (h : ms'.weightMb = ms.weightMb) : WeightsUp state (state.setModel model ms') := by
  refine weightsUp_setModel ?_
  rw [modelWeightMb, hlookup, h]
  exact le_rfl

theorem weightsUp_modelOr {ms : ModelState} (default : ModelState)
    (h : ms.weightMb = (state.modelOr model default).weightMb) :
    WeightsUp state (state.setModel model ms) := by
  unfold modelOr at h
  cases hlookup : state.models.lookup model with
  | none =>
    refine weightsUp_setModel ?_
    rw [modelWeightMb, hlookup]
    exact Nat.zero_le _
  | some old =>
    rw [hlookup] at h
    exact weightsUp_of_lookup hlookup h

theorem weightsUp_modifyModel {f : ModelState → ModelState}
    (hf : ∀ ms, (f ms).weightMb = ms.weightMb) : WeightsUp state (state.modifyModel model f) := by
  unfold modifyModel
  split
  · next ms hlookup => exact weightsUp_of_lookup hlookup (hf ms)
  · exact .refl state

theorem weightsUp_subReserved (kvMb : ℕ) : WeightsUp state (state.subReserved kvMb) :=
  .of_models rfl

theorem weightsUp_subTotal : WeightsUp state state.subTotal := .of_models rfl

theorem weightsUp_subActive (model : String) : WeightsUp state (state.subActive model) :=
  weightsUp_modifyModel fun _ => rfl

theorem weightsUp_touch (model : String) (now : Millis) : WeightsUp state (state.touch model now) :=
  weightsUp_modifyModel fun _ => rfl

theorem weightsUp_unprobed (probePermits : ℤ) (probeRate : ℕ) :
    WeightsUp state (state.tryReserveUnprobed model probePermits probeRate).1 := by
  unfold tryReserveUnprobed
  dsimp only
  split
  · exact weightsUp_modelOr (.new 0 false 0 1) rfl
  · refine .trans (weightsUp_modelOr (.new 0 false 0 1) ?_) (.of_models rfl)
    rfl

theorem weightsUp_checkLimit (state : ProviderVramState) (model : String) (probePermits : ℤ)
    (probeRate : ℕ) : WeightsUp state (state.checkLimit model probePermits probeRate).1 := by
  unfold checkLimit
  split
  · next ms hlookup => exact weightsUp_of_lookup hlookup rfl
  · exact .refl state

theorem weightsUp_grant (cost : ReserveCost) : WeightsUp state (state.grant model cost) := by
  have hload : ∀ s : ProviderVramState, WeightsUp s (s.markLoading model cost) := by
    intro s
    unfold markLoading
    cases hlookup : s.models.lookup model with
    | none =>
      refine weightsUp_setModel ?_
      rw [modelWeightMb, hlookup]
      exact Nat.zero_le _
    | some ms => exact weightsUp_of_lookup hlookup rfl
  have htrack : ∀ s : ProviderVramState, WeightsUp s (s.track model cost) := by
    intro s
    let ms := s.modelOr model (.new cost.weightCost cost.needLoadWeight cost.kvMb 1)
    have hset : WeightsUp s (s.setModel model
        { ms with activeKvMb := ms.activeKvMb + cost.kvMb, activeCount := ms.activeCount + 1 }) :=
      weightsUp_modelOr _ rfl
    exact hset
  have hreserve : WeightsUp state { state with reservedKvMb := state.reservedKvMb + cost.kvMb } :=
    .of_models rfl
  unfold grant
  dsimp only
  split
  · exact hreserve.trans ((hload _).trans (htrack _))
  · exact hreserve.trans (htrack _)

theorem weightsUp_tryReserve (probePermits : ℤ) (probeRate : ℕ) :
    WeightsUp state (state.tryReserve model probePermits probeRate).1 := by
  unfold tryReserve
  split
  · exact weightsUp_unprobed probePermits probeRate
  · have hlimit := weightsUp_checkLimit state model probePermits probeRate
    unfold tryReserveProbed
    dsimp only
    split
    · exact hlimit
    · refine hlimit.trans ?_
      unfold casLoop
      split
      · dsimp only
        split
        · exact .refl _
        · exact .of_models rfl
      · exact weightsUp_grant _

theorem weightsUp_unload (now : Millis) : WeightsUp state (state.unload model now).1 := by
  unfold unload
  split
  · next ms hlookup =>
    intro j
    have hup : WeightsUp state (state.setModel model (unloadedModel ms now)) :=
      weightsUp_of_lookup hlookup rfl
    exact hup j
  · exact .refl state

/-! ## The sum -/

/-- The cache is no less than the weight of the loaded models. -/
def SumCovers (state : ProviderVramState) : Prop :=
  state.loadedWeight ≤ state.cachedLoadedWeightMb

theorem SameLoads.sumCovers (h : SameLoads state state') (hsum : state.SumCovers) :
    state'.SumCovers := by
  rw [SumCovers, h.weight, h.cached]
  exact hsum

theorem sumCovers_tryReserve {probePermits : ℤ} {probeRate : ℕ} (hsum : state.SumCovers)
    (h : state.GrantsProbed model probePermits probeRate →
      (reserveCost (state.models.lookup model)).weightCost = 0) :
    (state.tryReserve model probePermits probeRate).1.SumCovers := by
  by_cases hgrants : state.GrantsProbed model probePermits probeRate
  · have hload := tryReserve_loadedBy hgrants
    rw [SumCovers, hload.cached, hload.weight, h hgrants]
    exact hsum
  · exact (tryReserve_sameLoads hgrants).sumCovers hsum

theorem sumCovers_load {weightMb : ℕ} {now : Millis} (hsum : state.SumCovers)
    (hfits : state.cachedLoadedWeightMb < U64)
    (h : state.cachedLoadedWeightMb + (weightMb - state.weightOf model) < U64) :
    (state.load model weightMb now).SumCovers := by
  have hcache := VramPool.adjustedCache_eq hfits model weightMb
  rw [Nat.mod_eq_of_lt h] at hcache
  have hset := state.setModel_loadedWeight model (state.loadedModel model weightMb now)
  rw [VramPool.loadedModel_loadedWeight] at hset
  have hle : state.weightOf model ≤ state.loadedWeight := weightOf_le
  have hsum' : state.loadedWeight ≤ state.cachedLoadedWeightMb := hsum
  show (state.setModel model (state.loadedModel model weightMb now)).loadedWeight ≤
    state.adjustedCache model weightMb
  omega

theorem sumCovers_setProfile {profile : ModelVramProfile} (hsum : state.SumCovers)
    (h : state.hasLoaded model = true → profile.weightMb ≤ state.weightOf model) :
    (state.setProfile model profile).SumCovers := by
  have hsum' : state.loadedWeight ≤ state.cachedLoadedWeightMb := hsum
  unfold setProfile
  split
  · next ms hlookup =>
    have hset := state.setModel_loadedWeight model
      { ms with weightMb := profile.weightMb, kvPerRequestMb := profile.kvPerRequestMb }
    rw [SumCovers, setModel_cached]
    cases hflag : ms.isLoaded with
    | false =>
      simp only [ModelState.loadedWeight, hflag, Bool.false_eq_true, if_false] at hset
      omega
    | true =>
      have hloaded : state.hasLoaded model = true := by simp [hasLoaded, hlookup, hflag]
      have hle := h hloaded
      simp only [ModelState.loadedWeight, hflag, if_true] at hset
      omega
  · next hlookup =>
    have hset := state.setModel_loadedWeight model
      (.new profile.weightMb false profile.kvPerRequestMb 0)
    have hzero :
        (ModelState.new profile.weightMb false profile.kvPerRequestMb 0).loadedWeight = 0 := rfl
    rw [SumCovers, setModel_cached]
    omega

theorem sumCovers_unload {now : Millis} (hsum : state.SumCovers) :
    (state.unload model now).1.SumCovers := by
  have hsum' : state.loadedWeight ≤ state.cachedLoadedWeightMb := hsum
  unfold unload
  cases hlookup : state.models.lookup model with
  | none => exact hsum
  | some ms =>
    have hset := state.setModel_loadedWeight model (unloadedModel ms now)
    have hzero : (unloadedModel ms now).loadedWeight = 0 := rfl
    have hmodel : state.weightOf model = ms.loadedWeight := by simp [weightOf, hlookup]
    show (state.setModel model (unloadedModel ms now)).loadedWeight ≤
      if ms.isLoaded then state.cachedLoadedWeightMb - min ms.weightMb state.cachedLoadedWeightMb
      else state.cachedLoadedWeightMb
    cases hflag : ms.isLoaded with
    | false =>
      simp only [Bool.false_eq_true, if_false]
      omega
    | true =>
      have hfull : ms.loadedWeight = ms.weightMb := by simp [ModelState.loadedWeight, hflag]
      simp only [if_true]
      omega

end ProviderVramState

/-! ## Calls -/

open VramPool ProviderVramState

namespace WeightLog
variable {log : WeightLog} {id : ProviderId} {model : String}

/-- What carries the accounts: the entries weigh what was measured, and the sum has them. -/
structure Covered (log : WeightLog) : Prop where
  weights : ∀ id model, log.measured id model ≤ (log.pool.provider id).modelWeightMb model
  sums : ∀ id, (log.pool.provider id).SumCovers
  fits : log.pool.CacheFits

theorem Covered.accounts (h : log.Covered) : log.AccountsMeasured where
  weight id model _ := h.weights id model
  sum id := by
    refine le_trans ?_ (h.sums id)
    unfold measuredLoad loadedWeight total
    refine List.sum_le_sum fun e he => ?_
    have hlookup : (log.pool.provider id).models.lookup e.1 = some e.2 :=
      AList.mem_lookup_iff.mpr he
    have hweight := h.weights id e.1
    rw [modelWeightMb, hlookup, Option.elim_some] at hweight
    show (if e.2.isLoaded then log.measured id e.1 else 0) ≤
      if e.2.isLoaded then e.2.weightMb else 0
    split
    · exact hweight
    · exact le_rfl
  cost id model hneed := by
    have hweight := h.weights id model
    unfold modelWeightMb at hweight
    cases hlookup : (log.pool.provider id).models.lookup model with
    | none =>
      rw [hlookup, Option.elim_none] at hweight
      exact hweight.trans (Nat.zero_le _)
    | some ms =>
      rw [hlookup, Option.elim_some] at hweight
      rw [hlookup] at hneed
      cases hflag : ms.isLoaded with
      | true => simp [reserveCost, hflag] at hneed
      | false => simpa [reserveCost, hflag] using hweight

/-- A call that measures nothing and makes no entry lighter. -/
theorem Covered.weights_of_up {pool' : VramPool} (h : log.Covered)
    (hup : ∀ j, WeightsUp (log.pool.provider j) (pool'.provider j)) (j : ProviderId) (m : String) :
    log.measured j m ≤ (pool'.provider j).modelWeightMb m :=
  (h.weights j m).trans (hup j m)

theorem weightsUp_setProvider {pool : VramPool} {state : ProviderVramState}
    (h : WeightsUp (pool.provider id) state) (j : ProviderId) :
    WeightsUp (pool.provider j) ((pool.setProvider id state).provider j) := by
  rw [provider_setProvider]
  split
  · next hj => rwa [hj]
  · exact .refl _

/-- A call that stores a weight. -/
theorem Covered.weights_of_stored {weightMb : ℕ} {state : ProviderVramState} (h : log.Covered)
    (hzero : weightMb = 0 → log.measured id model = 0)
    (hstored : ∀ j, state.modelWeightMb j =
      if j = model then weightMb else (log.pool.provider id).modelWeightMb j)
    (j : ProviderId) (m : String) :
    measure log.measured (some (id, model, weightMb)) j m ≤
      ((log.pool.setProvider id state).provider j).modelWeightMb m := by
  have hold := h.weights j m
  rw [provider_setProvider]
  by_cases hj : j = id
  · subst hj
    rw [if_pos rfl, hstored]
    by_cases hm : m = model
    · subst hm
      by_cases hpos : 0 < weightMb
      · simp [measure, hpos]
      · have hnone := hzero (by omega)
        simp [measure, hpos, hnone]
    · simpa [measure, hm] using hold
  · simpa [measure, hj] using hold

theorem sums_setProvider {pool : VramPool} {state : ProviderVramState}
    (h : ∀ j, (pool.provider j).SumCovers) (hstate : state.SumCovers) (j : ProviderId) :
    ((pool.setProvider id state).provider j).SumCovers := by
  rw [provider_setProvider]
  split
  · exact hstate
  · exact h j

theorem weightsUp_drop (pool : VramPool) (permit : VramPermit) (now : Millis) (j : ProviderId) :
    WeightsUp (pool.provider j) ((pool.drop permit now).provider j) := by
  have hkv : ∀ (p : VramPool) (j), WeightsUp (p.provider j) ((p.dropKv permit).provider j) := by
    intro p j
    unfold dropKv
    split
    · exact weightsUp_setProvider (weightsUp_subReserved permit.kvMb) j
    · exact .refl _
  have hactive : ∀ (p : VramPool) (j),
      WeightsUp (p.provider j) ((p.dropActive permit).provider j) := by
    intro p j
    unfold dropActive
    split
    · exact weightsUp_setProvider (weightsUp_subActive _) j
    · exact .refl _
  have hlast : ∀ (p : VramPool) (j),
      WeightsUp (p.provider j) ((p.dropLastActive permit now).provider j) := by
    intro p j
    unfold dropLastActive
    split
    · exact weightsUp_setProvider (weightsUp_touch _ now) j
    · exact .refl _
  have htotal : ∀ (p : VramPool) (j),
      WeightsUp (p.provider j) ((p.dropTotal permit).provider j) := by
    intro p j
    unfold dropTotal
    split
    · exact weightsUp_setProvider weightsUp_subTotal j
    · exact .refl _
  exact (((hkv pool j).trans (hactive _ j)).trans (hlast _ j)).trans (htotal _ j)

theorem Covered.call (h : log.Covered) {c : PoolCall} (hkeeps : log.KeepsMeasured c) :
    (log.call c).Covered where
  fits := call_fits h.fits c
  weights := by
    cases c with
    | tryReserve id model =>
      exact h.weights_of_up (weightsUp_setProvider (weightsUp_tryReserve _ _))
    | dropPermit permit now => exact h.weights_of_up (weightsUp_drop _ permit now)
    | setTotalVram id totalMb => exact h.weights_of_up (weightsUp_setProvider (.of_models rfl))
    | setModelProfile id model profile =>
      refine h.weights_of_stored hkeeps.1 fun j => ?_
      unfold setProfile
      split
      · exact setModel_modelWeightMb ..
      · exact setModel_modelWeightMb ..
    | markModelLoaded id model weightMb now =>
      refine h.weights_of_stored hkeeps.1 fun j => ?_
      have hset := setModel_modelWeightMb
        { log.pool.provider id with
          cachedLoadedWeightMb := (log.pool.provider id).adjustedCache model weightMb }
        model ((log.pool.provider id).loadedModel model weightMb now) j
      have hweight :
          ((log.pool.provider id).loadedModel model weightMb now).weightMb = weightMb := by
        unfold loadedModel
        split <;> rfl
      rw [hweight] at hset
      exact hset
    | markModelUnloaded id model now =>
      refine h.weights_of_up fun j => ?_
      show WeightsUp _ ((log.pool.markModelUnloaded id model now).provider j)
      rw [provider_markModelUnloaded]
      exact weightsUp_setProvider (weightsUp_unload now) j
  sums := by
    cases c with
    | tryReserve id model =>
      exact sums_setProvider h.sums (sumCovers_tryReserve (h.sums id) hkeeps)
    | dropPermit permit now =>
      exact fun j => (sameLoads_drop permit now j).sumCovers (h.sums j)
    | setTotalVram id totalMb => exact sums_setProvider h.sums (h.sums id)
    | setModelProfile id model profile =>
      exact sums_setProvider h.sums (sumCovers_setProfile (h.sums id) hkeeps.2)
    | markModelLoaded id model weightMb now =>
      exact sums_setProvider h.sums (sumCovers_load (h.sums id) (h.fits id) hkeeps.2)
    | markModelUnloaded id model now =>
      intro j
      show ((log.pool.markModelUnloaded id model now).provider j).SumCovers
      rw [provider_markModelUnloaded]
      exact sums_setProvider h.sums (sumCovers_unload (h.sums id)) j

theorem Covered.new : WeightLog.new.Covered where
  weights _ _ := Nat.zero_le _
  sums _ := Nat.zero_le _
  fits _ := by
    show (0 : ℕ) < U64
    decide

/-- In a run of calls that store no placeholder over a measured weight, load nothing that weighs
anything by a reservation, raise no profile of a loaded model and do not overflow the sum, no model
is ever accounted with less than was last measured. -/
theorem accountsMeasured_throughout {calls : List PoolCall}
    (h : EveryCall WeightLog.call WeightLog.new calls KeepsMeasured) :
    Throughout WeightLog.call WeightLog.new calls AccountsMeasured := by
  have hcovered : Throughout WeightLog.call WeightLog.new calls Covered :=
    foldl_throughout .new (fun _ _ hcov hkeeps => hcov.call hkeeps) h
  exact fun pre hpre => (hcovered pre hpre).accounts

/-- A sync pass, a job, and the model is evicted. -/
theorem synced_model_accounted : Throughout WeightLog.call WeightLog.new
    [.setTotalVram 0 10000, .markModelLoaded 0 "m" 4000 1, .setModelProfile 0 "m" ⟨4000, 100⟩,
      .tryReserve 0 "m", .markModelUnloaded 0 "m" 2] AccountsMeasured := by
  refine accountsMeasured_throughout ?_
  simp only [everyCall_cons]
  exact ⟨by decide +kernel, by decide +kernel, by decide +kernel, by decide +kernel,
    by decide +kernel, everyCall_nil⟩

/-- A sync pass measures 4000 MB, the model is evicted, and a preload marks it loaded with the
placeholder: nothing is left of its weight. -/
theorem placeholder_erases_weight :
    ¬ ∀ calls, Throughout WeightLog.call WeightLog.new calls AccountsMeasured := by
  intro hall
  let calls : List PoolCall :=
    [.markModelLoaded 0 "m" 4000 1, .markModelUnloaded 0 "m" 2, .markModelLoaded 0 "m" 0 3]
  have haccounts : (calls.foldl WeightLog.call WeightLog.new).AccountsMeasured :=
    hall calls calls (List.prefix_refl _)
  have hloaded :
      ((calls.foldl WeightLog.call WeightLog.new).pool.provider 0).hasLoaded "m" = true := by
    decide +kernel
  have hweight := haccounts.weight 0 "m" hloaded
  revert hweight
  decide +kernel

end WeightLog

end Veronex
