import Veronex.Capacity.LoadedWeight

/-! # What a grant leaves free

A probed provider admits a reservation when the weight in its cache, the reserved KV memory, the
buffer, the safety margin and the cost fit into `total_mb`. `grant_fits`: then the loaded models fit
as well, provided the cache holds their weight (`Capacity.LoadedWeight` says when) and the test is
not bypassed for unified memory.
-/
namespace Veronex
set_option autoImplicit false
open Concurrency

namespace ProviderVramState
variable {state : ProviderVramState} {model : String}

/-- Loaded models, reservations, buffer and safety margin fit into the probed memory. -/
def Fits (state : ProviderVramState) : Prop :=
  state.loadedWeight + state.reservedKvMb + DEFAULT_BUFFER_MB +
    state.totalMb * state.safetyPermil / 1000 ≤ state.totalMb

instance : DecidablePred Fits := fun _ => inferInstanceAs (Decidable (_ ≤ _))

/-- The state in which the admission test measures what it is meant to measure. -/
structure Measured (state : ProviderVramState) (model : String) : Prop where
  /-- The cache holds the weight of every loaded model. -/
  cached : state.loadedWeight ≤ state.cachedLoadedWeightMb
  /-- The test is not bypassed. -/
  notUnified : state.cachedLoadedWeightMb +
    (reserveCost (state.models.lookup model)).weightCost ≤ state.totalMb
  /-- No product or sum of the test leaves an `i64`. -/
  safetyWord : state.totalMb * state.safetyPermil < 2 ^ 63
  totalWord : state.totalMb < 2 ^ 63
  reservedWord : state.reservedKvMb < 2 ^ 62
  kvWord : (reserveCost (state.models.lookup model)).kvMb < 2 ^ 63

theorem safetyMb_eq {total permil : ℕ} (h : total * permil < 2 ^ 63) (ht : total < 2 ^ 63) :
    safetyMb total permil = (total * permil / 1000 : ℕ) := by
  have hz : (total : ℤ) * permil < 2 ^ 63 := by exact_mod_cast h
  have hnonneg : (0 : ℤ) ≤ (total : ℤ) * permil :=
    Int.mul_nonneg (Int.natCast_nonneg _) (Int.natCast_nonneg _)
  have htotal : i64 (total : ℤ) = total := i64_of_bounds (by omega) (by exact_mod_cast ht)
  have hprod : i64 ((total : ℤ) * permil) = (total : ℤ) * permil :=
    i64_of_bounds (by omega) hz
  rw [safetyMb, htotal, hprod, Int.tdiv_eq_ediv_of_nonneg hnonneg]
  simp only [Int.natCast_ediv, Int.natCast_mul, Nat.cast_ofNat]

/-- The test without the casts, where the memory is not taken for unified. -/
theorem availableFor_eq {total loaded curKv permil weightCost : ℕ}
    (hsafety : total * permil < 2 ^ 63) (htotal : total < 2 ^ 63) (hkv : curKv < 2 ^ 62)
    (hloaded : loaded + weightCost ≤ total) :
    availableFor total loaded curKv permil weightCost =
      (total : ℤ) - loaded - curKv - DEFAULT_BUFFER_MB - (total * permil / 1000 : ℕ) -
        weightCost := by
  have hbuffer : DEFAULT_BUFFER_MB = 512 := rfl
  have hdiv : total * permil / 1000 ≤ 2 ^ 63 / 1000 := Nat.div_le_div_right hsafety.le
  rw [availableFor, safetyMb_eq hsafety htotal, hbuffer]
  generalize total * permil / 1000 = safety at hdiv ⊢
  have hcap : i64 (total : ℤ) = total := i64_of_bounds (by omega) (by omega)
  have hsum : i64 ((loaded : ℤ) + weightCost) = (loaded : ℤ) + weightCost :=
    i64_of_bounds (by omega) (by omega)
  rw [hcap, hsum, if_neg (by omega)]
  exact i64_of_bounds (by omega) (by omega)

/-- What `compute_available` offers is what the test compares with, before the cost. -/
theorem computeAvailable_eq (htotal : 0 < state.totalMb) (h : state.Measured model) :
    computeAvailable state = state.available { kvMb := 0, needLoadWeight := false, weightCost := 0 } := by
  have hloaded := h.notUnified
  have hword := h.totalWord
  have hkv := h.reservedWord
  have hcap : i64 (state.totalMb : ℤ) = state.totalMb := i64_of_bounds (by omega) (by omega)
  have hsum : i64 ((state.cachedLoadedWeightMb : ℤ) + (0 : ℕ)) = state.cachedLoadedWeightMb :=
    i64_of_bounds (by omega) (by omega)
  rw [computeAvailable, ProviderVramState.available, availableFor, hsum, hcap, if_neg (by omega),
    if_neg (by omega)]
  simp

theorem markLoading_fields (state : ProviderVramState) (model : String) (cost : ReserveCost) :
    (state.markLoading model cost).totalMb = state.totalMb ∧
      (state.markLoading model cost).safetyPermil = state.safetyPermil ∧
      (state.markLoading model cost).reservedKvMb = state.reservedKvMb := by
  unfold markLoading
  split <;> exact ⟨rfl, rfl, rfl⟩

/-- What a granted reservation does to the numbers of the test. -/
theorem grant_fields (state : ProviderVramState) (model : String) (cost : ReserveCost) :
    (state.grant model cost).totalMb = state.totalMb ∧
      (state.grant model cost).safetyPermil = state.safetyPermil ∧
      (state.grant model cost).reservedKvMb = state.reservedKvMb + cost.kvMb := by
  unfold grant track
  cases cost.needLoadWeight with
  | false => exact ⟨rfl, rfl, rfl⟩
  | true => exact markLoading_fields _ model cost

theorem checkLimit_fields (state : ProviderVramState) (model : String) (probePermits : ℤ)
    (probeRate : ℕ) :
    (state.checkLimit model probePermits probeRate).1.totalMb = state.totalMb ∧
      (state.checkLimit model probePermits probeRate).1.safetyPermil = state.safetyPermil ∧
      (state.checkLimit model probePermits probeRate).1.reservedKvMb = state.reservedKvMb := by
  unfold checkLimit
  split <;> exact ⟨rfl, rfl, rfl⟩

theorem tryReserve_fields {probePermits : ℤ} {probeRate : ℕ}
    (h : state.GrantsProbed model probePermits probeRate) :
    (state.tryReserve model probePermits probeRate).1.totalMb = state.totalMb ∧
      (state.tryReserve model probePermits probeRate).1.safetyPermil = state.safetyPermil ∧
      (state.tryReserve model probePermits probeRate).1.reservedKvMb =
        state.reservedKvMb + (reserveCost (state.models.lookup model)).kvMb := by
  obtain ⟨hprobed, hfree, hfits⟩ := h
  rw [tryReserve, if_neg hprobed, tryReserveProbed]
  generalize reserveCost (state.models.lookup model) = cost at hfits ⊢
  have havail := state.checkLimit_available model probePermits probeRate cost
  obtain ⟨htotal, hsafety, hreserved⟩ := state.checkLimit_fields model probePermits probeRate
  have hgrant := (state.checkLimit model probePermits probeRate).1.grant_fields model cost
  rw [htotal, hsafety, hreserved] at hgrant
  simp only [hfree, casLoop, havail, Bool.false_eq_true, if_false, not_lt.mpr hfits]
  exact hgrant

/-- A reservation granted in a measured state leaves a state in which everything fits. -/
theorem grant_fits {probePermits : ℤ} {probeRate : ℕ} (h : state.Measured model)
    (hgrants : state.GrantsProbed model probePermits probeRate) :
    (state.tryReserve model probePermits probeRate).1.Fits := by
  obtain ⟨htotal, hsafety, hreserved⟩ := tryReserve_fields hgrants
  have hweight := (tryReserve_loadedBy hgrants).weight
  have hfits := hgrants.2.2
  have hcached := h.cached
  have hunified := h.notUnified
  have hkvWord := h.kvWord
  have havail : state.available (reserveCost (state.models.lookup model)) = _ :=
    availableFor_eq h.safetyWord h.totalWord h.reservedWord hunified
  rw [havail] at hfits
  unfold Fits
  rw [htotal, hsafety, hreserved, hweight]
  clear htotal hsafety hreserved hweight havail hgrants h
  generalize reserveCost (state.models.lookup model) = cost at *
  have hkv : i64 (cost.kvMb : ℤ) = cost.kvMb := i64_of_bounds (by omega) (by exact_mod_cast hkvWord)
  rw [hkv] at hfits
  generalize DEFAULT_BUFFER_MB = buffer at *
  omega

end ProviderVramState

/-! ## Runs -/

/-- A reservation that is granted by a probed provider is granted in a measured state. -/
def PoolCall.GrantsMeasured (pool : VramPool) : PoolCall → Prop
  | .tryReserve id model =>
    (pool.provider id).GrantsProbed model pool.probePermits pool.probeRate →
      (pool.provider id).Measured model
  | _ => True

/-- A reservation that is granted by a probed provider leaves a state in which everything fits. -/
def PoolCall.GrantFits (pool : VramPool) : PoolCall → Prop
  | .tryReserve id model =>
    (pool.provider id).GrantsProbed model pool.probePermits pool.probeRate →
      ((pool.call (.tryReserve id model)).provider id).Fits
  | _ => True

namespace VramPool

/-- In every run whose grants are all made in measured states, no grant overcommits the probed
memory. -/
theorem grants_fit (pool : VramPool) (calls : List PoolCall)
    (h : EveryCall VramPool.call pool calls fun pool c => c.GrantsMeasured pool) :
    EveryCall VramPool.call pool calls fun pool c => c.GrantFits pool := by
  intro pre c hpre
  have hmeasured := h pre c hpre
  cases c with
  | tryReserve id model =>
    intro hgrants
    rw [VramPool.call, VramPool.tryReserve, provider_setProvider, if_pos rfl]
    exact ProviderVramState.grant_fits (hmeasured hgrants) hgrants
  | _ => trivial

/-- A probed provider that knows two models of 6000 MB, neither loaded. -/
def twoModels : VramPool :=
  (((VramPool.new.setTotalVram 0 10000).setModelProfile 0 "a" ⟨6000, 0⟩).setModelProfile 0 "b"
    ⟨6000, 0⟩)

/-- Two requests of the one model that is loaded. -/
theorem grants_of_loaded_model_fit :
    EveryCall VramPool.call (twoModels.markModelLoaded 0 "a" 6000 1)
      [.tryReserve 0 "a", .tryReserve 0 "a"] fun pool c => c.GrantFits pool := by
  refine grants_fit _ _ (everyCall_cons.mpr ⟨fun _ => ?_, everyCall_cons.mpr ⟨fun _ => ?_, ?_⟩⟩)
  · exact ⟨by decide, by decide, by decide, by decide, by decide, by decide⟩
  · exact ⟨by decide, by decide, by decide, by decide, by decide, by decide⟩
  · exact everyCall_nil

/-- A call that reserves a model the provider knows, or drops a permit. -/
def ReservesKnown (pool : VramPool) (id : ProviderId) : PoolCall → Prop
  | .tryReserve j model => j = id ∧ model ∈ (pool.provider id).models
  | .dropPermit .. => True
  | _ => False

/-- Both models of 6000 MB are granted on the 10000 MB of the provider: the first grant does not
enter the cache. -/
theorem reservations_overcommit :
    ¬ ∀ (pool : VramPool) (id : ProviderId) (calls : List PoolCall),
      0 < (pool.provider id).totalMb → (pool.provider id).CacheExact →
      (pool.provider id).loadedWeight ≤ (pool.provider id).totalMb →
      (∀ c ∈ calls, ReservesKnown pool id c) →
      EveryCall VramPool.call pool calls fun pool c => c.GrantFits pool := by
  intro hall
  have hknown : ∀ c ∈ [PoolCall.tryReserve 0 "a", .tryReserve 0 "b"],
      ReservesKnown twoModels 0 c := by
    intro c hc
    rcases List.mem_pair.mp hc with rfl | rfl
    · exact ⟨rfl, by decide⟩
    · exact ⟨rfl, by decide⟩
  have hexact : (twoModels.provider 0).CacheExact := by
    unfold ProviderVramState.CacheExact
    decide
  have hfits := hall twoModels 0 _ (by decide) hexact (by decide) hknown
  have hsecond := (everyCall_cons.mp (everyCall_cons.mp hfits).2).1
  have hgrants : ((twoModels.call (.tryReserve 0 "a")).provider 0).GrantsProbed "b" 1 3 := by
    decide
  have hafter := hsecond hgrants
  revert hafter
  decide

end VramPool

end Veronex
