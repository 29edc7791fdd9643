import Veronex.Capacity.LoadedWeight

/-! # The models loaded anywhere

`loaded_models_global` and `loaded_model_refcounts` replace a scan over the providers. The number a
refcount stands for is `loadedOn`; a call moves it by the change of one flag
(`setProvider_loadedOn`).

`loaded_models_counted_iff`: the refcounts are right in every state of a run exactly if no call
marks a model loaded that is loaded already and no reservation loads one.
-/
namespace Veronex
set_option autoImplicit false
open Concurrency ProviderVramState

namespace VramPool
variable {pool : VramPool} {id : ProviderId} {state : ProviderVramState} {model : String}

/-- The number of providers that have the model marked `is_loaded`. -/
def loadedOn (pool : VramPool) (model : String) : ℕ :=
  countEntries (fun _ state => state.hasLoaded model) pool.providers

/-- `loaded_model_refcounts[m]`, 0 without an entry. -/
def refcount (pool : VramPool) (model : String) : ℕ :=
  (pool.loadedModelRefcounts.lookup model).getD 0

/-- `is_model_loaded` and the refcount of a model are what the flags of the providers say. -/
structure LoadCounted (pool : VramPool) (model : String) : Prop where
  loaded : pool.isModelLoaded model ↔
    ∃ id state, pool.providers.lookup id = some state ∧ state.hasLoaded model
  refcount : pool.refcount model = pool.loadedOn model

def LoadsCounted (pool : VramPool) : Prop := ∀ model, pool.LoadCounted model

theorem loadCounted_iff : pool.LoadCounted model ↔
    (model ∈ pool.loadedModelsGlobal ↔ 0 < pool.loadedOn model) ∧
      pool.refcount model = pool.loadedOn model := by
  have hpos : 0 < pool.loadedOn model ↔
      ∃ id state, pool.providers.lookup id = some state ∧ state.hasLoaded model :=
    countEntries_pos_iff
  have hmem : pool.isModelLoaded model ↔ model ∈ pool.loadedModelsGlobal := decide_eq_true_iff
  constructor
  · intro h
    exact ⟨hmem.symm.trans (h.loaded.trans hpos.symm), h.refcount⟩
  · rintro ⟨hloaded, hcount⟩
    exact ⟨hmem.trans (hloaded.trans hpos), hcount⟩

/-! ## One provider changes -/

theorem setProvider_loadedOn (pool : VramPool) (id : ProviderId) (state : ProviderVramState)
    (model : String) :
    (pool.setProvider id state).loadedOn model + ((pool.provider id).hasLoaded model).toNat =
      pool.loadedOn model + (state.hasLoaded model).toNat := by
  let flag : ProviderId → ProviderVramState → ℕ := fun _ st => if st.hasLoaded model then 1 else 0
  have hflag : ∀ st : ProviderVramState, flag id st = (st.hasLoaded model).toNat := by
    intro st
    cases h : st.hasLoaded model <;> simp [flag, h]
  show total flag (pool.providers.insert id state) + _ = total flag pool.providers + _
  unfold provider
  cases hlookup : pool.providers.lookup id with
  | none =>
    have hins := total_insert_of_lookup_none flag hlookup state
    have hfresh : ((ProviderVramState.fresh).hasLoaded model).toNat = 0 := rfl
    rw [hflag] at hins
    rw [Option.getD_none]
    omega
  | some old =>
    have hins := total_insert_of_lookup flag hlookup state
    rw [hflag, hflag] at hins
    exact hins

/-- A step of one provider that changes no flag. -/
theorem loadsCounted_setProvider (h : ∀ m, state.hasLoaded m = (pool.provider id).hasLoaded m) :
    (pool.setProvider id state).LoadsCounted ↔ pool.LoadsCounted := by
  have hcount : ∀ m, (pool.setProvider id state).loadedOn m = pool.loadedOn m := by
    intro m
    have hset := pool.setProvider_loadedOn id state m
    rw [h m] at hset
    omega
  refine forall_congr' fun m => ?_
  rw [loadCounted_iff, loadCounted_iff, hcount]
  rfl

theorem loadsCounted_drop (permit : VramPermit) (now : Millis) :
    (pool.drop permit now).LoadsCounted ↔ pool.LoadsCounted := by
  have hkv : ∀ p : VramPool, (p.dropKv permit).LoadsCounted ↔ p.LoadsCounted := by
    intro p
    unfold dropKv
    split
    · exact loadsCounted_setProvider (sameLoads_subReserved permit.kvMb).flags
    · rfl
  have hactive : ∀ p : VramPool, (p.dropActive permit).LoadsCounted ↔ p.LoadsCounted := by
    intro p
    unfold dropActive
    split
    · exact loadsCounted_setProvider (sameLoads_subActive _).flags
    · rfl
  have hlast : ∀ p : VramPool, (p.dropLastActive permit now).LoadsCounted ↔ p.LoadsCounted := by
    intro p
    unfold dropLastActive
    split
    · exact loadsCounted_setProvider (sameLoads_touch _ now).flags
    · rfl
  have htotal : ∀ p : VramPool, (p.dropTotal permit).LoadsCounted ↔ p.LoadsCounted := by
    intro p
    unfold dropTotal
    split
    · exact loadsCounted_setProvider sameLoads_subTotal.flags
    · rfl
  unfold drop
  rw [htotal, hlast, hactive, hkv]

end VramPool

/-! ## The calls -/

/-- The condition under which a call leaves exact counts exact. -/
def PoolCall.KeepsLoads (pool : VramPool) : PoolCall → Prop
  | .tryReserve id model =>
    (pool.provider id).GrantsProbed model pool.probePermits pool.probeRate →
      (pool.provider id).hasLoaded model
  | .markModelLoaded id model _ _ => (pool.provider id).hasLoaded model = false
  | .dropPermit .. | .setTotalVram .. | .setModelProfile .. | .markModelUnloaded .. => True

namespace VramPool
variable {pool : VramPool}

theorem tryReserve_counted_iff (hall : pool.LoadsCounted) (id : ProviderId) (model : String) :
    (pool.tryReserve id model).1.LoadsCounted ↔
      PoolCall.KeepsLoads pool (.tryReserve id model) := by
  have hprovider : (pool.tryReserve id model).1 = pool.setProvider id
      ((pool.provider id).tryReserve model pool.probePermits pool.probeRate).1 := rfl
  rw [hprovider, PoolCall.KeepsLoads]
  by_cases hgrants : (pool.provider id).GrantsProbed model pool.probePermits pool.probeRate
  · have hflags := (tryReserve_loadedBy hgrants).flags
    simp only [hgrants, true_imp_iff]
    constructor
    · -- the flag was set without a count
      intro hafter
      by_contra hnot
      have hset := pool.setProvider_loadedOn id
        ((pool.provider id).tryReserve model pool.probePermits pool.probeRate).1 model
      have hcount := (loadCounted_iff.mp (hafter model)).2
      have hbefore := (loadCounted_iff.mp (hall model)).2
      have hsame : (pool.setProvider id ((pool.provider id).tryReserve model pool.probePermits
        pool.probeRate).1).refcount model = pool.refcount model := rfl
      rw [hflags, if_pos rfl, Bool.toNat_true, Bool.eq_false_of_not_eq_true hnot,
        Bool.toNat_false] at hset
      omega
    · intro hloaded
      refine (loadsCounted_setProvider fun m => ?_).mpr hall
      rw [hflags]
      split
      · next hm => rw [hm, hloaded]
      · rfl
  · have hsame := tryReserve_sameLoads hgrants
    exact iff_of_true ((loadsCounted_setProvider hsame.flags).mpr hall)
      (fun h => absurd h hgrants)

theorem setProfile_flags (state : ProviderVramState) (model : String) (profile : ModelVramProfile)
    (m : String) : (state.setProfile model profile).hasLoaded m = state.hasLoaded m := by
  unfold setProfile
  split
  · next ms hlookup =>
    rw [setModel_hasLoaded]
    split
    · next hm =>
      rw [hm]
      simp [hasLoaded, hlookup]
    · rfl
  · next hlookup =>
    rw [setModel_hasLoaded]
    split
    · next hm =>
      rw [hm]
      simp [hasLoaded, hlookup, ModelState.new]
    · rfl

theorem load_flags (state : ProviderVramState) (model : String) (weightMb : ℕ) (now : Millis)
    (m : String) :
    (state.load model weightMb now).hasLoaded m = if m = model then true else state.hasLoaded m := by
  have hflag : (state.loadedModel model weightMb now).isLoaded = true := by
    unfold loadedModel
    split <;> rfl
  unfold load
  rw [setModel_hasLoaded, hflag]
  rfl

/-- `was_loaded` is the flag before, and the flag is unset afterwards. -/
theorem unload_flags (state : ProviderVramState) (model : String) (now : Millis) :
    (state.unload model now).2 = state.hasLoaded model ∧
      ∀ m, (state.unload model now).1.hasLoaded m =
        if m = model then false else state.hasLoaded m := by
  unfold unload
  cases hlookup : state.models.lookup model with
  | none =>
    refine ⟨by simp [hasLoaded, hlookup], fun m => ?_⟩
    dsimp only
    split
    · next hm =>
      rw [hm]
      simp [hasLoaded, hlookup]
    · rfl
  | some ms =>
    refine ⟨by simp [hasLoaded, hlookup], fun m => ?_⟩
    dsimp only
    rw [setModel_hasLoaded]
    rfl

theorem markModelLoaded_counted_iff (hall : pool.LoadsCounted) (id : ProviderId) (model : String)
    (weightMb : ℕ) (now : Millis) :
    (pool.markModelLoaded id model weightMb now).LoadsCounted ↔
      PoolCall.KeepsLoads pool (.markModelLoaded id model weightMb now) := by
  set after := pool.markModelLoaded id model weightMb now with hafter
  have hset : ∀ m, after.loadedOn m + ((pool.provider id).hasLoaded m).toNat =
      pool.loadedOn m + (((pool.provider id).load model weightMb now).hasLoaded m).toNat :=
    pool.setProvider_loadedOn id _
  have hself : after.refcount model = pool.refcount model + 1 := by
    show ((pool.loadedModelRefcounts.insert model
      ((pool.loadedModelRefcounts.lookup model).elim 1 (· + 1))).lookup model).getD 0 = _
    rw [AList.lookup_insert, Option.getD_some, refcount]
    cases pool.loadedModelRefcounts.lookup model <;> rfl
  have hother : ∀ m, m ≠ model → after.refcount m = pool.refcount m := by
    intro m hm
    show ((pool.loadedModelRefcounts.insert model _).lookup m).getD 0 = _
    rw [AList.lookup_insert_ne hm, refcount]
  have hglobal : ∀ m, m ∈ after.loadedModelsGlobal ↔ m = model ∨ m ∈ pool.loadedModelsGlobal :=
    fun m => Finset.mem_insert
  have hmodel := hset model
  rw [load_flags, if_pos rfl, Bool.toNat_true] at hmodel
  rw [PoolCall.KeepsLoads]
  constructor
  · intro hcounted
    have hcount := (loadCounted_iff.mp (hcounted model)).2
    have hbefore := (loadCounted_iff.mp (hall model)).2
    cases hloaded : (pool.provider id).hasLoaded model with
    | false => rfl
    | true =>
      -- counted again although it was loaded
      rw [hloaded, Bool.toNat_true] at hmodel
      omega
  · intro hloaded m
    rw [hloaded, Bool.toNat_false] at hmodel
    obtain ⟨hmem, hcount⟩ := loadCounted_iff.mp (hall m)
    rw [loadCounted_iff, hglobal]
    by_cases hm : m = model
    · subst hm
      refine ⟨iff_of_true (.inl rfl) (by omega), by omega⟩
    · have hm' := hset m
      rw [load_flags, if_neg hm] at hm'
      have hsame : after.loadedOn m = pool.loadedOn m := by omega
      rw [hsame, hother m hm]
      refine ⟨?_, hcount⟩
      rw [← hmem]
      exact or_iff_right hm

/-- An unload takes one from the count when it unsets the flag, and removes the model with its
last provider. -/
theorem markModelUnloaded_counted (hall : pool.LoadsCounted) (id : ProviderId) (model : String)
    (now : Millis) : (pool.markModelUnloaded id model now).LoadsCounted := by
  obtain ⟨hwas, hflags⟩ := unload_flags (pool.provider id) model now
  have hset := pool.setProvider_loadedOn id ((pool.provider id).unload model now).1
  unfold markModelUnloaded
  dsimp only
  rw [hwas]
  cases hloaded : (pool.provider id).hasLoaded model with
  | false =>
    rw [if_neg Bool.false_ne_true]
    refine (loadsCounted_setProvider fun m => ?_).mpr hall
    rw [hflags]
    split
    · next hm => rw [hm, hloaded]
    · rfl
  | true =>
    rw [if_pos rfl]
    set unloaded := pool.setProvider id ((pool.provider id).unload model now).1 with hunloaded
    have hmodel := hset model
    rw [hflags, if_pos rfl, Bool.toNat_false, hloaded, Bool.toNat_true] at hmodel
    have hother : ∀ m, m ≠ model → unloaded.loadedOn m = pool.loadedOn m := by
      intro m hm
      have hm' := hset m
      rw [hflags, if_neg hm] at hm'
      omega
    obtain ⟨hmem, hcount⟩ := loadCounted_iff.mp (hall model)
    have hbefore : (unloaded.loadedModelRefcounts.lookup model).getD 0 = pool.loadedOn model :=
      hcount
    unfold countUnload
    dsimp only
    rw [hbefore]
    intro m
    obtain ⟨hmem', hcount'⟩ := loadCounted_iff.mp (hall m)
    rw [loadCounted_iff]
    by_cases hlast : pool.loadedOn model ≤ 1
    · rw [if_pos hlast]
      by_cases hm : m = model
      · subst hm
        have hzero : unloaded.loadedOn m = 0 := by omega
        refine ⟨?_, ?_⟩
        · show m ∈ unloaded.loadedModelsGlobal.erase m ↔ 0 < unloaded.loadedOn m
          simp [hzero]
        · show ((unloaded.loadedModelRefcounts.erase m).lookup m).getD 0 = unloaded.loadedOn m
          rw [AList.lookup_erase, hzero]
          rfl
      · refine ⟨?_, ?_⟩
        · show m ∈ unloaded.loadedModelsGlobal.erase model ↔ 0 < unloaded.loadedOn m
          rw [hother m hm, ← hmem', Finset.mem_erase]
          exact and_iff_right hm
        · show ((unloaded.loadedModelRefcounts.erase model).lookup m).getD 0 = unloaded.loadedOn m
          rw [AList.lookup_erase_ne hm, hother m hm]
          exact hcount'
    · rw [if_neg hlast]
      by_cases hm : m = model
      · subst hm
        refine ⟨?_, ?_⟩
        · show m ∈ pool.loadedModelsGlobal ↔ 0 < unloaded.loadedOn m
          rw [hmem]
          omega
        · show ((unloaded.loadedModelRefcounts.insert m _).lookup m).getD 0 = unloaded.loadedOn m
          rw [AList.lookup_insert, Option.getD_some]
          omega
      · refine ⟨?_, ?_⟩
        · show m ∈ pool.loadedModelsGlobal ↔ 0 < unloaded.loadedOn m
          rw [hother m hm]
          exact hmem'
        · show ((unloaded.loadedModelRefcounts.insert model _).lookup m).getD 0 =
            unloaded.loadedOn m
          rw [AList.lookup_insert_ne hm, hother m hm]
          exact hcount'

theorem call_counted_iff (hall : pool.LoadsCounted) (c : PoolCall) :
    (pool.call c).LoadsCounted ↔ c.KeepsLoads pool := by
  cases c with
  | tryReserve id model => exact tryReserve_counted_iff hall id model
  | dropPermit permit now => exact iff_of_true ((loadsCounted_drop permit now).mpr hall) trivial
  | setTotalVram id totalMb =>
    have hflags : ∀ m, ProviderVramState.hasLoaded { pool.provider id with totalMb } m =
        (pool.provider id).hasLoaded m := fun _ => rfl
    exact iff_of_true ((loadsCounted_setProvider hflags).mpr hall) trivial
  | setModelProfile id model profile =>
    have hflags := setProfile_flags (pool.provider id) model profile
    exact iff_of_true ((loadsCounted_setProvider hflags).mpr hall) trivial
  | markModelLoaded id model weightMb now =>
    exact markModelLoaded_counted_iff hall id model weightMb now
  | markModelUnloaded id model now =>
    exact iff_of_true (markModelUnloaded_counted hall id model now) trivial

/-- `is_model_loaded` and the refcounts agree with the flags of the providers in every state of a
run exactly if no call marks a model loaded that is marked on that provider already and no
reservation loads one. -/
theorem loaded_models_counted_iff (calls : List PoolCall) :
    Throughout VramPool.call VramPool.new calls LoadsCounted ↔
      EveryCall VramPool.call VramPool.new calls fun pool c => c.KeepsLoads pool := by
  refine foldl_exact_iff (I := fun _ => True) trivial ?_ (fun _ _ _ => trivial)
    (fun _ c _ hall => call_counted_iff hall c) calls
  intro model
  rw [loadCounted_iff]
  exact ⟨iff_of_false (Finset.notMem_empty _) (Nat.lt_irrefl 0), rfl⟩

/-- Two passes of the sync loop over a model that stays loaded count it twice; after it is unloaded
everywhere the pool still says that it is loaded. -/
theorem refcount_doubles_on_sync :
    ¬ ∀ calls, Throughout VramPool.call VramPool.new calls LoadsCounted := by
  intro hall
  let calls : List PoolCall :=
    [.markModelLoaded 0 "m" 1000 1, .markModelLoaded 0 "m" 1000 2, .markModelUnloaded 0 "m" 3]
  have hcounted : (calls.foldl VramPool.call VramPool.new).LoadsCounted :=
    hall calls calls (List.prefix_refl _)
  have h := (loadCounted_iff.mp (hcounted "m")).2
  revert h
  decide

end VramPool

end Veronex
