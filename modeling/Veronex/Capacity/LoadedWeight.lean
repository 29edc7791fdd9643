import Veronex.Capacity.VramPool
import Veronex.Foundation.Trace

/-! # The cache of the loaded weight

`cached_loaded_weight_mb` is meant to be the sum of `weight_mb` over the loaded models of a provider
(`loadedWeight`). `SameLoads` is what the calls do that touch neither; `grant_loads` is what a
granted reservation does, which may load a model, and does not touch the cache.

`loaded_weight_cached_iff`: the cache is right in every state of a run exactly if every call
`KeepsCache` where it is made.
-/
namespace Veronex
set_option autoImplicit false
open Concurrency

/-! ## Loaded models and their weight -/

namespace ModelState

def loadedWeight (ms : ModelState) : ℕ := if ms.isLoaded then ms.weightMb else 0

end ModelState

namespace ProviderVramState
variable (state : ProviderVramState) (model : String)

/-- The sum of `weight_mb` over the models whose `is_loaded` flag is set. -/
def loadedWeight : ℕ := total (fun _ ms => ms.loadedWeight) state.models

/-- The flag of a model, unset for a model without an entry. -/
def hasLoaded : Bool := (state.models.lookup model).elim false ModelState.isLoaded

/-- What a model adds to the loaded weight. -/
def weightOf : ℕ := (state.models.lookup model).elim 0 ModelState.loadedWeight

def CacheExact : Prop := state.cachedLoadedWeightMb = state.loadedWeight

@[simp] theorem setModel_cached (ms : ModelState) :
    (state.setModel model ms).cachedLoadedWeightMb = state.cachedLoadedWeightMb := rfl

theorem setModel_loadedWeight (ms : ModelState) :
    (state.setModel model ms).loadedWeight + state.weightOf model =
      state.loadedWeight + ms.loadedWeight := by
  unfold loadedWeight weightOf setModel
  cases hlookup : state.models.lookup model with
  | none =>
    have hins := total_insert_of_lookup_none (fun _ (m : ModelState) => m.loadedWeight) hlookup ms
    simp only [Option.elim_none]
    omega
  | some old =>
    exact total_insert_of_lookup (fun _ (m : ModelState) => m.loadedWeight) hlookup ms

theorem setModel_hasLoaded (ms : ModelState) (j : String) :
    (state.setModel model ms).hasLoaded j = if j = model then ms.isLoaded else state.hasLoaded j := by
  unfold hasLoaded setModel
  by_cases hj : j = model
  · subst hj
    simp
  · simp [AList.lookup_insert_ne hj, hj]

variable {state model}

theorem weightOf_le : state.weightOf model ≤ state.loadedWeight := by
  have hset := setModel_loadedWeight state model (.new 0 false 0 0)
  have hzero : (ModelState.new 0 false 0 0).loadedWeight = 0 := rfl
  omega

/-- Neither the cache nor which models are loaded, nor their weight, has changed. -/
structure SameLoads (state state' : ProviderVramState) : Prop where
  cached : state'.cachedLoadedWeightMb = state.cachedLoadedWeightMb
  weight : state'.loadedWeight = state.loadedWeight
  flags : ∀ model, state'.hasLoaded model = state.hasLoaded model

namespace SameLoads
variable {s t u : ProviderVramState}

theorem refl (s : ProviderVramState) : SameLoads s s := ⟨rfl, rfl, fun _ => rfl⟩

theorem trans (h₁ : SameLoads s t) (h₂ : SameLoads t u) : SameLoads s u :=
  ⟨h₂.cached.trans h₁.cached, h₂.weight.trans h₁.weight,
    fun m => (h₂.flags m).trans (h₁.flags m)⟩

theorem cacheExact_iff (h : SameLoads s t) : t.CacheExact ↔ s.CacheExact := by
  rw [CacheExact, CacheExact, h.cached, h.weight]

/-- Fields besides the cache and the models do not matter. -/
theorem of_eq (hcached : t.cachedLoadedWeightMb = s.cachedLoadedWeightMb)
    (hmodels : t.models = s.models) : SameLoads s t :=
  ⟨hcached, by rw [loadedWeight, loadedWeight, hmodels],
    fun m => by rw [hasLoaded, hasLoaded, hmodels]⟩

end SameLoads

/-- An entry is written that weighs and is loaded as the one before. -/
theorem sameLoads_setModel {ms : ModelState} (hweight : ms.loadedWeight = state.weightOf model)
    (hflag : ms.isLoaded = state.hasLoaded model) : SameLoads state (state.setModel model ms) := by
  refine ⟨rfl, ?_, fun j => ?_⟩
  · have hset := state.setModel_loadedWeight model ms
    omega
  · rw [setModel_hasLoaded]
    split
    · next hj => rw [hj, hflag]
    · rfl

theorem sameLoads_setModel_of_lookup {ms ms' : ModelState}
    (hlookup : state.models.lookup model = some ms) (hweight : ms'.weightMb = ms.weightMb)
    (hflag : ms'.isLoaded = ms.isLoaded) : SameLoads state (state.setModel model ms') := by
  refine sameLoads_setModel ?_ ?_
  · simp [weightOf, hlookup, ModelState.loadedWeight, hweight, hflag]
  · simp [hasLoaded, hlookup, hflag]

theorem sameLoads_modifyModel {f : ModelState → ModelState}
    (hf : ∀ ms, (f ms).weightMb = ms.weightMb ∧ (f ms).isLoaded = ms.isLoaded) :
    SameLoads state (state.modifyModel model f) := by
  unfold modifyModel
  split
  · next ms hlookup => exact sameLoads_setModel_of_lookup hlookup (hf ms).1 (hf ms).2
  · exact .refl state

theorem sameLoads_subReserved (kvMb : ℕ) : SameLoads state (state.subReserved kvMb) :=
  .of_eq rfl rfl

theorem sameLoads_subTotal : SameLoads state state.subTotal := .of_eq rfl rfl

theorem sameLoads_subActive (model : String) : SameLoads state (state.subActive model) :=
  sameLoads_modifyModel fun _ => ⟨rfl, rfl⟩

theorem sameLoads_touch (model : String) (now : Millis) :
    SameLoads state (state.touch model now) :=
  sameLoads_modifyModel fun _ => ⟨rfl, rfl⟩

/-- An entry that is written over itself or inserted without being loaded. -/
theorem sameLoads_modelOr {ms : ModelState} (default : ModelState)
    (hdefault : default.isLoaded = false)
    (hweight : ms.weightMb = (state.modelOr model default).weightMb)
    (hflag : ms.isLoaded = (state.modelOr model default).isLoaded) :
    SameLoads state (state.setModel model ms) := by
  unfold modelOr at hweight hflag
  cases hlookup : state.models.lookup model with
  | none =>
    rw [hlookup, Option.getD_none] at hflag
    have hfalse : ms.isLoaded = false := hflag.trans hdefault
    refine sameLoads_setModel ?_ ?_
    · simp [weightOf, hlookup, ModelState.loadedWeight, hfalse]
    · simp [hasLoaded, hlookup, hfalse]
  | some old =>
    rw [hlookup, Option.getD_some] at hweight hflag
    exact sameLoads_setModel_of_lookup hlookup hweight hflag

/-! ## Reservations -/

theorem sameLoads_unprobed (probePermits : ℤ) (probeRate : ℕ) :
    SameLoads state (state.tryReserveUnprobed model probePermits probeRate).1 := by
  unfold tryReserveUnprobed
  dsimp only
  split
  · exact sameLoads_modelOr (.new 0 false 0 1) rfl rfl rfl
  · refine .trans (sameLoads_modelOr (.new 0 false 0 1) rfl ?_ ?_) (.of_eq rfl rfl)
    · rfl
    · rfl

theorem sameLoads_checkLimit (state : ProviderVramState) (model : String) (probePermits : ℤ)
    (probeRate : ℕ) :
    SameLoads state (state.checkLimit model probePermits probeRate).1 := by
  unfold checkLimit
  split
  · next ms hlookup => exact sameLoads_setModel_of_lookup hlookup rfl rfl
  · exact .refl state

theorem checkLimit_available (state : ProviderVramState) (model : String) (probePermits : ℤ)
    (probeRate : ℕ) (cost : ReserveCost) :
    (state.checkLimit model probePermits probeRate).1.available cost = state.available cost := by
  unfold checkLimit
  split <;> rfl

/-- The limit check changes only the probe counter of the model. -/
theorem checkLimit_reserveCost (state : ProviderVramState) (model : String) (probePermits : ℤ)
    (probeRate : ℕ) :
    reserveCost ((state.checkLimit model probePermits probeRate).1.models.lookup model) =
      reserveCost (state.models.lookup model) := by
  unfold checkLimit
  split
  · next ms hlookup => simp [hlookup, setModel, reserveCost]
  · next hlookup => rw [hlookup]

/-- A model has become loaded, with this weight, and the cache has not changed. -/
structure LoadedBy (model : String) (weight : ℕ) (state state' : ProviderVramState) : Prop where
  cached : state'.cachedLoadedWeightMb = state.cachedLoadedWeightMb
  weight : state'.loadedWeight = state.loadedWeight + weight
  flags : ∀ j, state'.hasLoaded j = if j = model then true else state.hasLoaded j

theorem LoadedBy.of_sameLoads {weight : ℕ} {s t u v : ProviderVramState} (h₁ : SameLoads s t)
    (h₂ : LoadedBy model weight t u) (h₃ : SameLoads u v) : LoadedBy model weight s v := by
  refine ⟨?_, ?_, fun j => ?_⟩
  · rw [h₃.cached, h₂.cached, h₁.cached]
  · rw [h₃.weight, h₂.weight, h₁.weight]
  · rw [h₃.flags, h₂.flags, h₁.flags]

/-- A model that is not loaded gets its flag, at the weight it is charged for. -/
theorem markLoading_loadedBy (state : ProviderVramState) (model : String)
    (hneed : (reserveCost (state.models.lookup model)).needLoadWeight) :
    LoadedBy model (reserveCost (state.models.lookup model)).weightCost state
      (state.markLoading model (reserveCost (state.models.lookup model))) := by
  unfold markLoading
  cases hlookup : state.models.lookup model with
  | none =>
    have hset := state.setModel_loadedWeight model (.new 2048 true 128 1)
    have hnew : (ModelState.new 2048 true 128 1).loadedWeight = 2048 := rfl
    have hold : state.weightOf model = 0 := by simp [weightOf, hlookup]
    refine ⟨rfl, ?_, fun j => setModel_hasLoaded state model _ j⟩
    simp only [reserveCost]
    omega
  | some ms =>
    have hflag : ms.isLoaded = false := by
      cases hl : ms.isLoaded with
      | false => rfl
      | true => simp [hlookup, reserveCost, hl] at hneed
    have hset := state.setModel_loadedWeight model { ms with isLoaded := true }
    have hnew : ModelState.loadedWeight { ms with isLoaded := true } = ms.weightMb := rfl
    have hold : state.weightOf model = 0 := by
      simp [weightOf, hlookup, ModelState.loadedWeight, hflag]
    refine ⟨rfl, ?_, fun j => setModel_hasLoaded state model _ j⟩
    simp only [reserveCost, hflag, Bool.false_eq_true, if_false]
    omega

theorem sameLoads_track {ms : ModelState} {cost : ReserveCost}
    (hlookup : state.models.lookup model = some ms) :
    SameLoads state (state.track model cost) := by
  have hms : state.modelOr model (.new cost.weightCost cost.needLoadWeight cost.kvMb 1) = ms := by
    rw [modelOr, hlookup, Option.getD_some]
  have hset : SameLoads state (state.setModel model
      { ms with activeKvMb := ms.activeKvMb + cost.kvMb, activeCount := ms.activeCount + 1 }) :=
    sameLoads_setModel_of_lookup hlookup rfl rfl
  unfold track
  rw [hms]
  exact ⟨hset.cached, hset.weight, hset.flags⟩

/-- A grant loads the model if it is not loaded; the cache does not follow. -/
theorem grant_loadedBy (state : ProviderVramState) (model : String) :
    LoadedBy model (reserveCost (state.models.lookup model)).weightCost state
      (state.grant model (reserveCost (state.models.lookup model))) := by
  set cost := reserveCost (state.models.lookup model) with hcost
  set reserved : ProviderVramState :=
    { state with reservedKvMb := state.reservedKvMb + cost.kvMb } with hreserved
  have hsame : SameLoads state reserved := .of_eq rfl rfl
  unfold grant
  cases hneed : cost.needLoadWeight with
  | true =>
    have hload : LoadedBy model cost.weightCost reserved (reserved.markLoading model cost) :=
      reserved.markLoading_loadedBy model hneed
    have hentry : ∃ ms, (reserved.markLoading model cost).models.lookup model = some ms := by
      unfold markLoading
      split
      · exact ⟨_, AList.lookup_insert _⟩
      · exact ⟨_, AList.lookup_insert _⟩
    obtain ⟨ms, hlookup⟩ := hentry
    exact .of_sameLoads hsame hload (sameLoads_track hlookup)
  | false =>
    -- only a loaded model costs no weight
    obtain ⟨ms, hlookup, hflag⟩ : ∃ ms, state.models.lookup model = some ms ∧ ms.isLoaded := by
      cases hl : state.models.lookup model with
      | none => simp [hcost, hl, reserveCost] at hneed
      | some ms =>
        refine ⟨ms, rfl, ?_⟩
        by_contra hnot
        simp [hcost, hl, reserveCost, hnot] at hneed
    have hzero : cost.weightCost = 0 := by simp [hcost, hlookup, reserveCost, hflag]
    have hloaded : state.hasLoaded model = true := by simpa [hasLoaded, hlookup] using hflag
    have htrack : SameLoads reserved (reserved.track model cost) :=
      sameLoads_track hlookup
    have hall : SameLoads state (reserved.track model cost) := hsame.trans htrack
    show LoadedBy model cost.weightCost state (reserved.track model cost)
    refine ⟨hall.cached, ?_, fun j => ?_⟩
    · rw [hzero, Nat.add_zero]
      exact hall.weight
    · rw [hall.flags]
      split
      · next hj => rw [hj, hloaded]
      · rfl

/-- The reservation is granted by a probed provider. -/
def GrantsProbed (state : ProviderVramState) (model : String) (probePermits : ℤ) (probeRate : ℕ) :
    Prop :=
  state.totalMb ≠ 0 ∧ (state.checkLimit model probePermits probeRate).2 = false ∧
    i64 (reserveCost (state.models.lookup model)).kvMb ≤
      state.available (reserveCost (state.models.lookup model))

instance (state : ProviderVramState) (model : String) (probePermits : ℤ) (probeRate : ℕ) :
    Decidable (state.GrantsProbed model probePermits probeRate) :=
  inferInstanceAs (Decidable (_ ∧ _ ∧ _))

/-- A reservation that a probed provider grants loads its model. -/
theorem tryReserve_loadedBy {probePermits : ℤ} {probeRate : ℕ}
    (h : state.GrantsProbed model probePermits probeRate) :
    LoadedBy model (reserveCost (state.models.lookup model)).weightCost state
      (state.tryReserve model probePermits probeRate).1 := by
  obtain ⟨hprobed, hfree, hfits⟩ := h
  have hsame := state.sameLoads_checkLimit model probePermits probeRate
  have hcost := state.checkLimit_reserveCost model probePermits probeRate
  have havail := state.checkLimit_available model probePermits probeRate
    (reserveCost (state.models.lookup model))
  have hgrant := (state.checkLimit model probePermits probeRate).1.grant_loadedBy model
  rw [hcost] at hgrant
  rw [tryReserve, if_neg hprobed, tryReserveProbed]
  simp only [hfree, casLoop, havail, Bool.false_eq_true, if_false, not_lt.mpr hfits]
  exact .of_sameLoads hsame hgrant (.refl _)

/-- Every other reservation leaves the loaded models alone. -/
theorem tryReserve_sameLoads {probePermits : ℤ} {probeRate : ℕ}
    (h : ¬ state.GrantsProbed model probePermits probeRate) :
    SameLoads state (state.tryReserve model probePermits probeRate).1 := by
  unfold tryReserve
  split
  · exact sameLoads_unprobed probePermits probeRate
  · next hprobed =>
    have hsame := state.sameLoads_checkLimit model probePermits probeRate
    have havail := state.checkLimit_available model probePermits probeRate
      (reserveCost (state.models.lookup model))
    unfold tryReserveProbed
    dsimp only
    split
    · exact hsame
    · next hfree =>
      have hshort : state.available (reserveCost (state.models.lookup model)) <
          i64 (reserveCost (state.models.lookup model)).kvMb := by
        by_contra hfits
        exact h ⟨hprobed, by simpa using hfree, not_lt.mp hfits⟩
      rw [casLoop, havail, if_pos hshort]
      dsimp only
      split
      · exact hsame
      · exact hsame.trans (.of_eq rfl rfl)

end ProviderVramState

/-! ## The calls -/

namespace VramPool
variable {pool : VramPool} {id : ProviderId} {state : ProviderVramState}
open ProviderVramState

theorem sameLoads_setProvider (h : SameLoads (pool.provider id) state) (j : ProviderId) :
    SameLoads (pool.provider j) ((pool.setProvider id state).provider j) := by
  rw [provider_setProvider]
  split
  · next hj => rwa [hj]
  · exact .refl _

/-- Dropping a permit touches neither weights nor flags. -/
theorem sameLoads_drop (permit : VramPermit) (now : Millis) (j : ProviderId) :
    SameLoads (pool.provider j) ((pool.drop permit now).provider j) := by
  have hkv : ∀ (p : VramPool) (j), SameLoads (p.provider j) ((p.dropKv permit).provider j) := by
    intro p j
    unfold dropKv
    split
    · exact sameLoads_setProvider (sameLoads_subReserved permit.kvMb) j
    · exact .refl _
  have hactive : ∀ (p : VramPool) (j),
      SameLoads (p.provider j) ((p.dropActive permit).provider j) := by
    intro p j
    unfold dropActive
    split
    · exact sameLoads_setProvider (sameLoads_subActive _) j
    · exact .refl _
  have hlast : ∀ (p : VramPool) (j),
      SameLoads (p.provider j) ((p.dropLastActive permit now).provider j) := by
    intro p j
    unfold dropLastActive
    split
    · exact sameLoads_setProvider (sameLoads_touch _ now) j
    · exact .refl _
  have htotal : ∀ (p : VramPool) (j),
      SameLoads (p.provider j) ((p.dropTotal permit).provider j) := by
    intro p j
    unfold dropTotal
    split
    · exact sameLoads_setProvider sameLoads_subTotal j
    · exact .refl _
  exact (((hkv pool j).trans (hactive _ j)).trans (hlast _ j)).trans (htotal _ j)

/-- Every provider's cache is the weight of its loaded models. -/
def CacheExact (pool : VramPool) : Prop := ∀ id, (pool.provider id).CacheExact

theorem cacheExact_setProvider (hall : pool.CacheExact) :
    (pool.setProvider id state).CacheExact ↔ state.CacheExact := by
  constructor
  · intro h
    have hid := h id
    rwa [provider_setProvider, if_pos rfl] at hid
  · intro h j
    rw [provider_setProvider]
    split
    · exact h
    · exact hall j

theorem cacheExact_of_sameLoads {pool' : VramPool} (hall : pool.CacheExact)
    (h : ∀ j, SameLoads (pool.provider j) (pool'.provider j)) : pool'.CacheExact :=
  fun j => (h j).cacheExact_iff.mpr (hall j)

/-- The cache is a `u64`. -/
def CacheFits (pool : VramPool) : Prop := ∀ id, (pool.provider id).cachedLoadedWeightMb < U64

theorem cacheFits_setProvider (hall : pool.CacheFits) (h : state.cachedLoadedWeightMb < U64) :
    (pool.setProvider id state).CacheFits := by
  intro j
  rw [provider_setProvider]
  split
  · exact h
  · exact hall j

theorem adjustedCache_lt (h : state.cachedLoadedWeightMb < U64) (model : String) (weightMb : ℕ) :
    state.adjustedCache model weightMb < U64 := by
  have hpos : 0 < U64 := by decide
  unfold adjustedCache
  split
  · split
    · split
      · exact Nat.mod_lt _ hpos
      · exact h
    · exact Nat.mod_lt _ hpos
  · exact Nat.mod_lt _ hpos

end VramPool

open VramPool ProviderVramState

/-- The condition under which a call leaves an exact cache exact. -/
def PoolCall.KeepsCache (pool : VramPool) : PoolCall → Prop
  | .tryReserve id model =>
    -- the reservation is refused, or it loads nothing that weighs anything
    (pool.provider id).GrantsProbed model pool.probePermits pool.probeRate →
      (reserveCost ((pool.provider id).models.lookup model)).weightCost = 0
  | .markModelLoaded id model weightMb _ =>
    -- no smaller than the weight a loaded model has, and no overflow
    (pool.provider id).weightOf model ≤ weightMb ∧
      (pool.provider id).cachedLoadedWeightMb + (weightMb - (pool.provider id).weightOf model) < U64
  | .setModelProfile id model profile =>
    (pool.provider id).hasLoaded model → profile.weightMb = (pool.provider id).weightOf model
  | .dropPermit .. | .setTotalVram .. | .markModelUnloaded .. => True

namespace VramPool
variable {pool : VramPool}

theorem loadedModel_loadedWeight (state : ProviderVramState) (model : String) (weightMb : ℕ)
    (now : Millis) : (state.loadedModel model weightMb now).loadedWeight = weightMb := by
  unfold loadedModel
  split <;> rfl

/-- The cache after `mark_model_loaded`, by the weight the model counted for before. -/
theorem adjustedCache_eq {state : ProviderVramState} (h : state.cachedLoadedWeightMb < U64)
    (model : String) (weightMb : ℕ) :
    state.adjustedCache model weightMb =
      (state.cachedLoadedWeightMb + (weightMb - state.weightOf model)) % U64 := by
  unfold adjustedCache
  cases hlookup : state.models.lookup model with
  | none => simp [weightOf, hlookup]
  | some ms =>
    cases hflag : ms.isLoaded with
    | false => simp [weightOf, hlookup, ModelState.loadedWeight, hflag]
    | true =>
      have hweight : state.weightOf model = ms.weightMb := by
        simp [weightOf, hlookup, ModelState.loadedWeight, hflag]
      by_cases hsame : ms.weightMb = weightMb
      · simp [hweight, hsame, hflag, Nat.mod_eq_of_lt h]
      · simp [hweight, hsame, hflag]

theorem markModelLoaded_exact_iff (hall : pool.CacheExact) (hfits : pool.CacheFits)
    (id : ProviderId) (model : String) (weightMb : ℕ) (now : Millis) :
    (pool.markModelLoaded id model weightMb now).CacheExact ↔
      PoolCall.KeepsCache pool (.markModelLoaded id model weightMb now) := by
  have hid : (pool.provider id).cachedLoadedWeightMb = (pool.provider id).loadedWeight := hall id
  have hle : (pool.provider id).weightOf model ≤ (pool.provider id).loadedWeight := weightOf_le
  have hcache := adjustedCache_eq (hfits id) model weightMb
  have hset := (pool.provider id).setModel_loadedWeight model
    ((pool.provider id).loadedModel model weightMb now)
  rw [loadedModel_loadedWeight] at hset
  have hafter : (pool.markModelLoaded id model weightMb now).CacheExact ↔
      (pool.provider id).adjustedCache model weightMb =
        ((pool.provider id).setModel model
          ((pool.provider id).loadedModel model weightMb now)).loadedWeight :=
    cacheExact_setProvider hall
  rw [hafter, hcache, PoolCall.KeepsCache]
  have hlt := hfits id
  generalize (pool.provider id).cachedLoadedWeightMb = c at *
  generalize (pool.provider id).weightOf model = w at *
  constructor
  · intro heq
    by_cases hsmall : c + (weightMb - w) < U64
    · rw [Nat.mod_eq_of_lt hsmall] at heq
      exact ⟨by omega, hsmall⟩
    · -- an overflow leaves less than the weight that was loaded before
      exfalso
      have hwrap : (c + (weightMb - w)) % U64 < U64 := Nat.mod_lt _ (by decide)
      omega
  · rintro ⟨hup, hsmall⟩
    rw [Nat.mod_eq_of_lt hsmall]
    omega

theorem setModelProfile_exact_iff (hall : pool.CacheExact) (id : ProviderId) (model : String)
    (profile : ModelVramProfile) :
    (pool.setModelProfile id model profile).CacheExact ↔
      PoolCall.KeepsCache pool (.setModelProfile id model profile) := by
  have hid : (pool.provider id).cachedLoadedWeightMb = (pool.provider id).loadedWeight := hall id
  rw [setModelProfile, cacheExact_setProvider hall, PoolCall.KeepsCache, setProfile]
  cases hlookup : (pool.provider id).models.lookup model with
  | none =>
    have hnot : (pool.provider id).hasLoaded model = false := by simp [hasLoaded, hlookup]
    have hzero : (pool.provider id).weightOf model = 0 := by simp [weightOf, hlookup]
    have hsame : SameLoads (pool.provider id) ((pool.provider id).setModel model
        (.new profile.weightMb false profile.kvPerRequestMb 0)) :=
      sameLoads_setModel (by rw [hzero]; rfl) hnot.symm
    dsimp only
    rw [hsame.cacheExact_iff]
    simp [hnot, hid, ProviderVramState.CacheExact]
  | some ms =>
    dsimp only
    have hset := (pool.provider id).setModel_loadedWeight model
      { ms with weightMb := profile.weightMb, kvPerRequestMb := profile.kvPerRequestMb }
    have hle : (pool.provider id).weightOf model ≤ (pool.provider id).loadedWeight := weightOf_le
    rw [ProviderVramState.CacheExact, setModel_cached, hid]
    cases hflag : ms.isLoaded with
    | false =>
      have hloaded : (pool.provider id).hasLoaded model = false := by
        simp [hasLoaded, hlookup, hflag]
      have hweight : (pool.provider id).weightOf model = 0 := by
        simp [weightOf, hlookup, ModelState.loadedWeight, hflag]
      simp only [ModelState.loadedWeight, hflag, Bool.false_eq_true, if_false] at hset
      simp only [hloaded, Bool.false_eq_true, false_imp_iff, iff_true]
      omega
    | true =>
      have hloaded : (pool.provider id).hasLoaded model = true := by
        simp [hasLoaded, hlookup, hflag]
      simp only [ModelState.loadedWeight, hflag, if_true] at hset
      simp only [hloaded, true_imp_iff]
      omega

theorem tryReserve_exact_iff (hall : pool.CacheExact) (id : ProviderId) (model : String) :
    (pool.tryReserve id model).1.CacheExact ↔
      PoolCall.KeepsCache pool (.tryReserve id model) := by
  have hid : (pool.provider id).cachedLoadedWeightMb = (pool.provider id).loadedWeight := hall id
  have hprovider : (pool.tryReserve id model).1 = pool.setProvider id
      ((pool.provider id).tryReserve model pool.probePermits pool.probeRate).1 := rfl
  rw [hprovider, cacheExact_setProvider hall, PoolCall.KeepsCache]
  by_cases hgrants : (pool.provider id).GrantsProbed model pool.probePermits pool.probeRate
  · have hload := tryReserve_loadedBy hgrants
    have hcached := hload.cached
    have hweight := hload.weight
    rw [ProviderVramState.CacheExact, hcached, hweight]
    simp only [hgrants, true_imp_iff]
    omega
  · have hsame := tryReserve_sameLoads hgrants
    rw [hsame.cacheExact_iff]
    simp [hgrants, hid, ProviderVramState.CacheExact]

theorem provider_markModelUnloaded (id : ProviderId) (model : String) (now : Millis)
    (j : ProviderId) :
    (pool.markModelUnloaded id model now).provider j =
      (pool.setProvider id ((pool.provider id).unload model now).1).provider j := by
  unfold markModelUnloaded
  dsimp only
  split
  · exact provider_countUnload ..
  · rfl

/-- `mark_model_unloaded` subtracts exactly what the model counted for. -/
theorem unload_exact {state : ProviderVramState} (h : state.CacheExact) (model : String)
    (now : Millis) : (state.unload model now).1.CacheExact := by
  have hid : state.cachedLoadedWeightMb = state.loadedWeight := h
  unfold unload
  cases hlookup : state.models.lookup model with
  | none => exact h
  | some ms =>
    have hset := state.setModel_loadedWeight model (unloadedModel ms now)
    have hzero : (unloadedModel ms now).loadedWeight = 0 := rfl
    have hle : state.weightOf model ≤ state.loadedWeight := weightOf_le
    have hmodel : state.weightOf model = ms.loadedWeight := by simp [weightOf, hlookup]
    show (if ms.isLoaded then state.cachedLoadedWeightMb - min ms.weightMb
        state.cachedLoadedWeightMb else state.cachedLoadedWeightMb) =
      (state.setModel model (unloadedModel ms now)).loadedWeight
    cases hflag : ms.isLoaded with
    | false =>
      have hnone : ms.loadedWeight = 0 := by simp [ModelState.loadedWeight, hflag]
      simp only [Bool.false_eq_true, if_false]
      omega
    | true =>
      have hfull : ms.loadedWeight = ms.weightMb := by simp [ModelState.loadedWeight, hflag]
      simp only [if_true]
      omega

theorem markModelUnloaded_exact (hall : pool.CacheExact) (id : ProviderId) (model : String)
    (now : Millis) : (pool.markModelUnloaded id model now).CacheExact := by
  intro j
  rw [provider_markModelUnloaded]
  exact (cacheExact_setProvider hall).mpr (unload_exact (hall id) model now) j

theorem call_exact_iff (hall : pool.CacheExact) (hfits : pool.CacheFits) (c : PoolCall) :
    (pool.call c).CacheExact ↔ c.KeepsCache pool := by
  cases c with
  | tryReserve id model => exact tryReserve_exact_iff hall id model
  | dropPermit permit now =>
    exact iff_of_true (cacheExact_of_sameLoads hall (sameLoads_drop permit now)) trivial
  | setTotalVram id totalMb =>
    exact iff_of_true ((cacheExact_setProvider hall).mpr (hall id)) trivial
  | setModelProfile id model profile => exact setModelProfile_exact_iff hall id model profile
  | markModelLoaded id model weightMb now =>
    exact markModelLoaded_exact_iff hall hfits id model weightMb now
  | markModelUnloaded id model now =>
    exact iff_of_true (markModelUnloaded_exact hall id model now) trivial

theorem call_fits (hfits : pool.CacheFits) (c : PoolCall) : (pool.call c).CacheFits := by
  cases c with
  | tryReserve id model =>
    have hcached : ((pool.provider id).tryReserve model pool.probePermits
        pool.probeRate).1.cachedLoadedWeightMb = (pool.provider id).cachedLoadedWeightMb := by
      by_cases hgrants : (pool.provider id).GrantsProbed model pool.probePermits pool.probeRate
      · exact (tryReserve_loadedBy hgrants).cached
      · exact (tryReserve_sameLoads hgrants).cached
    exact cacheFits_setProvider hfits (hcached ▸ hfits id)
  | dropPermit permit now =>
    intro j
    rw [VramPool.call, (sameLoads_drop permit now j).cached]
    exact hfits j
  | setTotalVram id totalMb => exact cacheFits_setProvider hfits (hfits id)
  | setModelProfile id model profile =>
    have hcached : ((pool.provider id).setProfile model profile).cachedLoadedWeightMb =
        (pool.provider id).cachedLoadedWeightMb := by
      unfold setProfile
      split <;> rfl
    exact cacheFits_setProvider hfits (hcached ▸ hfits id)
  | markModelLoaded id model weightMb now =>
    exact cacheFits_setProvider hfits (adjustedCache_lt (hfits id) model weightMb)
  | markModelUnloaded id model now =>
    have hcached : ((pool.provider id).unload model now).1.cachedLoadedWeightMb ≤
        (pool.provider id).cachedLoadedWeightMb := by
      unfold unload
      split
      · show (if _ then _ else _) ≤ _
        split
        · exact Nat.sub_le ..
        · exact le_rfl
      · exact le_rfl
    intro j
    rw [VramPool.call, provider_markModelUnloaded]
    exact cacheFits_setProvider hfits (hcached.trans_lt (hfits id)) j

/-- The cache of every provider is the sum of the weights of its loaded models in every state of a
run exactly if no call loads a model through a reservation, re-profiles a loaded model, marks a
loaded model with a smaller weight or overflows the sum. -/
theorem loaded_weight_cached_iff (calls : List PoolCall) :
    Throughout VramPool.call VramPool.new calls CacheExact ↔
      EveryCall VramPool.call VramPool.new calls fun pool c => c.KeepsCache pool := by
  have hprovider : ∀ id, VramPool.new.provider id = .fresh := fun _ => rfl
  refine foldl_exact_iff (I := CacheFits) ?_ ?_ (fun _ c hfits => call_fits hfits c)
    (fun _ c hfits hall => call_exact_iff hall hfits c) calls
  · intro id
    rw [hprovider]
    decide
  · intro id
    rw [hprovider]
    rfl

/-- The sync loop marks a model with 4000 MB, then `ensure_ready` marks it again with its
placeholder weight 0: the cache stays at 4000. -/
theorem cache_misses_smaller_weight :
    ¬ ∀ calls, Throughout VramPool.call VramPool.new calls CacheExact := by
  intro hall
  let calls : List PoolCall := [.markModelLoaded 0 "m" 4000 1, .markModelLoaded 0 "m" 0 2]
  have hexact : (calls.foldl VramPool.call VramPool.new).CacheExact :=
    hall calls calls (List.prefix_refl _)
  have h0 := hexact 0
  revert h0
  unfold ProviderVramState.CacheExact
  decide

end VramPool

end Veronex
