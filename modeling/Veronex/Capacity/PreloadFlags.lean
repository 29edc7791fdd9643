import Veronex.Capacity.DispatchBlocks

/-! # The preloading flags of the pool

`set_preloading` and `is_preloading` of `vram_pool.rs`, and what the other calls do to the flags: an
entry is never removed, and only `mark_model_unloaded` changes the flag of one.
-/
namespace Veronex
set_option autoImplicit false
open Concurrency

namespace ProviderVramState
variable {state state' state'' : ProviderVramState} {model : String} {ms : ModelState}
  {gone : String → Prop}

/-- The pool has an entry for the model. -/
def knows (state : ProviderVramState) (model : String) : Bool := (state.models.lookup model).isSome

def isPreloading (state : ProviderVramState) (model : String) : Bool :=
  (state.models.lookup model).elim false ModelState.isPreloading

/-- `set_preloading`: nothing where there is no entry. -/
def setPreloading (state : ProviderVramState) (model : String) (value : Bool) :
    ProviderVramState :=
  state.modifyModel model fun ms => { ms with isPreloading := value }

/-- No entry is removed, and the flags of all but the models `gone` are kept. -/
structure KeepsFlags (gone : String → Prop) (state state' : ProviderVramState) : Prop where
  known : ∀ model, state.knows model → state'.knows model
  flag : ∀ model, state.knows model → ¬ gone model →
    state'.isPreloading model = state.isPreloading model

theorem KeepsFlags.refl (state : ProviderVramState) : KeepsFlags gone state state :=
  ⟨fun _ h => h, fun _ _ _ => rfl⟩

theorem KeepsFlags.trans (h : KeepsFlags gone state state') (h' : KeepsFlags gone state' state'') :
    KeepsFlags gone state state'' where
  known m hm := h'.known m (h.known m hm)
  flag m hm hgone := (h'.flag m (h.known m hm) hgone).trans (h.flag m hm hgone)

theorem keepsFlags_of_models (h : state'.models = state.models) : KeepsFlags gone state state' := by
  refine ⟨fun m hm => ?_, fun m _ _ => ?_⟩
  · rwa [knows, h]
  · rw [isPreloading, isPreloading, h]

theorem setModel_knows (ms : ModelState) (j : String) :
    (state.setModel model ms).knows j = (decide (j = model) || state.knows j) := by
  unfold knows setModel
  by_cases hj : j = model
  · subst hj
    simp
  · simp [AList.lookup_insert_ne hj, hj]

theorem setModel_isPreloading (ms : ModelState) (j : String) :
    (state.setModel model ms).isPreloading j =
      if j = model then ms.isPreloading else state.isPreloading j := by
  unfold isPreloading setModel
  by_cases hj : j = model
  · subst hj
    simp
  · simp [AList.lookup_insert_ne hj, hj]

/-- A write of an entry that keeps its flag, if it had one. -/
theorem keepsFlags_setModel (h : ∀ old, state.models.lookup model = some old → ¬ gone model →
    ms.isPreloading = old.isPreloading) : KeepsFlags gone state (state.setModel model ms) := by
  refine ⟨fun m hm => ?_, fun m hm hgone => ?_⟩
  · rw [setModel_knows, hm, Bool.or_true]
  · rw [setModel_isPreloading]
    split
    · next heq =>
      obtain ⟨old, hold⟩ := Option.isSome_iff_exists.mp hm
      subst heq
      rw [isPreloading, hold]
      exact h old hold hgone
    · rfl

theorem keepsFlags_setModel_of_lookup {ms' : ModelState} (h : state.models.lookup model = some ms)
    (hflag : ms'.isPreloading = ms.isPreloading) :
    KeepsFlags gone state (state.setModel model ms') := by
  refine keepsFlags_setModel fun old hold _ => ?_
  obtain rfl : ms = old := Option.some.inj (h.symm.trans hold)
  exact hflag

theorem keepsFlags_setModel_of_none (h : state.models.lookup model = none) :
    KeepsFlags gone state (state.setModel model ms) :=
  keepsFlags_setModel fun old hold _ => by cases h.symm.trans hold

theorem keepsFlags_modifyModel {f : ModelState → ModelState}
    (h : ∀ ms, ¬ gone model → (f ms).isPreloading = ms.isPreloading) :
    KeepsFlags gone state (state.modifyModel model f) := by
  unfold modifyModel
  split
  · next ms hlookup =>
    refine keepsFlags_setModel fun old hold hgone => ?_
    rw [hlookup] at hold
    exact Option.some.inj hold ▸ h ms hgone
  · exact .refl state

theorem keepsFlags_modelOr (fresh : ModelState) {ms' : ModelState}
    (h : ms'.isPreloading = (state.modelOr model fresh).isPreloading) :
    KeepsFlags gone state (state.setModel model ms') := by
  refine keepsFlags_setModel fun old hold _ => ?_
  rw [h, modelOr, hold, Option.getD_some]

theorem keepsFlags_load (weightMb : ℕ) (now : Millis) :
    KeepsFlags gone state (state.load model weightMb now) := by
  have hcache : KeepsFlags gone state { state with
      cachedLoadedWeightMb := state.adjustedCache model weightMb } := keepsFlags_of_models rfl
  refine hcache.trans (keepsFlags_setModel fun old hold _ => ?_)
  have hlookup : state.models.lookup model = some old := hold
  rw [loadedModel, hlookup]

theorem keepsFlags_setProfile (profile : ModelVramProfile) :
    KeepsFlags gone state (state.setProfile model profile) := by
  unfold setProfile
  split
  · next ms hlookup => exact keepsFlags_setModel_of_lookup hlookup rfl
  · next hlookup => exact keepsFlags_setModel_of_none hlookup

theorem keepsFlags_unload (now : Millis) (hgone : gone model) :
    KeepsFlags gone state (state.unload model now).1 := by
  unfold unload
  split
  · have hcache : ∀ cache, KeepsFlags gone state { state with cachedLoadedWeightMb := cache } :=
      fun _ => keepsFlags_of_models rfl
    exact (hcache _).trans (keepsFlags_setModel fun _ _ hkept => absurd hgone hkept)
  · exact .refl state

theorem setPreloading_isPreloading (h : state.knows model) (value : Bool) :
    (state.setPreloading model value).isPreloading model = value := by
  obtain ⟨ms, hlookup⟩ := Option.isSome_iff_exists.mp h
  rw [isPreloading, setPreloading, modifyModel_lookup hlookup]
  rfl

theorem keepsFlags_setPreloading (value : Bool) (hgone : gone model) :
    KeepsFlags gone state (state.setPreloading model value) :=
  keepsFlags_modifyModel fun _ hkept => absurd hgone hkept

end ProviderVramState

/-! ## Reservations, permits and passes -/

section Calls
open ProviderVramState
variable {gone : String → Prop} {j : ProviderId}

theorem reserveStep_keepsFlags {r : Reservation} {pool : VramPool} {env : Surroundings}
    {state state' : ProviderVramState} {pc : ReservePc}
    (h : r.reserveStep pool env state = some (state', pc)) : KeepsFlags gone state state' := by
  unfold Reservation.reserveStep at h
  split at h
  -- the loads
  case h_1 | h_2 | h_7 | h_8 | h_10 =>
    obtain ⟨rfl, -⟩ := Prod.mk.inj (Option.some.inj h)
    exact .refl state
  case h_3 =>
    obtain ⟨rfl, -⟩ := Prod.mk.inj (Option.some.inj h)
    exact keepsFlags_modelOr (.new 0 false 0 1) rfl
  case h_4 | h_15 =>
    obtain ⟨rfl, -⟩ := Prod.mk.inj (Option.some.inj h)
    exact keepsFlags_modifyModel fun _ _ => rfl
  case h_5 | h_11 | h_16 =>
    obtain ⟨rfl, -⟩ := Prod.mk.inj (Option.some.inj h)
    exact keepsFlags_of_models rfl
  case h_6 =>
    dsimp only at h
    split at h
    · obtain ⟨rfl, -⟩ := Prod.mk.inj (Option.some.inj h)
      exact .refl state
    · next ms hlookup =>
      obtain ⟨rfl, -⟩ := Prod.mk.inj (Option.some.inj h)
      exact keepsFlags_setModel_of_lookup hlookup rfl
  case h_9 =>
    split at h
    · obtain ⟨rfl, -⟩ := Prod.mk.inj (Option.some.inj h)
      exact .refl state
    · obtain ⟨rfl, -⟩ := Prod.mk.inj (Option.some.inj h)
      exact .refl state
  case h_12 =>
    split at h
    · obtain ⟨rfl, -⟩ := Prod.mk.inj (Option.some.inj h)
      exact keepsFlags_of_models rfl
    · obtain ⟨rfl, -⟩ := Prod.mk.inj (Option.some.inj h)
      exact .refl state
  case h_13 cost =>
    obtain ⟨rfl, -⟩ := Prod.mk.inj (Option.some.inj h)
    unfold markLoading
    split
    · next ms hlookup => exact keepsFlags_setModel_of_lookup hlookup rfl
    · next hlookup => exact keepsFlags_setModel_of_none hlookup
  case h_14 =>
    obtain ⟨rfl, -⟩ := Prod.mk.inj (Option.some.inj h)
    exact keepsFlags_modelOr _ rfl
  case h_17 => cases h

theorem keepsFlags_setProvider {pool : VramPool} {id : ProviderId} {state : ProviderVramState}
    (h : j = id → KeepsFlags gone (pool.provider id) state) :
    KeepsFlags gone (pool.provider j) ((pool.setProvider id state).provider j) := by
  rw [VramPool.provider_setProvider]
  split
  · next hj => exact hj ▸ h hj
  · exact .refl _

theorem permitStep_keepsFlags {r : Reservation} {pool pool' : VramPool} {env : Surroundings}
    {pc : ReservePc} (h : r.permitStep pool env = some (pool', pc)) :
    KeepsFlags gone (pool.provider j) (pool'.provider j) := by
  unfold Reservation.permitStep at h
  split at h
  · have hpool : pool' = pool := by
      repeat' split at h
      all_goals exact (Prod.mk.inj (Option.some.inj h)).1.symm
    exact hpool ▸ .refl _
  · obtain ⟨rfl, -⟩ := Prod.mk.inj (Option.some.inj h)
    unfold VramPool.dropKv
    split
    · exact keepsFlags_setProvider fun _ => keepsFlags_of_models rfl
    · exact .refl _
  · obtain ⟨rfl, -⟩ := Prod.mk.inj (Option.some.inj h)
    unfold VramPool.dropActive
    split
    · exact keepsFlags_setProvider fun _ => keepsFlags_modifyModel fun _ _ => rfl
    · exact .refl _
  · obtain ⟨rfl, -⟩ := Prod.mk.inj (Option.some.inj h)
    unfold VramPool.dropLastActive
    split
    · exact keepsFlags_setProvider fun _ => keepsFlags_modifyModel fun _ _ => rfl
    · exact .refl _
  · obtain ⟨rfl, -⟩ := Prod.mk.inj (Option.some.inj h)
    unfold VramPool.dropTotal
    split
    · exact keepsFlags_setProvider fun _ => keepsFlags_of_models rfl
    · exact .refl _
  · cases h

theorem reservation_keepsFlags {r r' : Reservation} {pool pool' : VramPool} {env : Surroundings}
    (h : r.step pool env = some (pool', r')) :
    KeepsFlags gone (pool.provider j) (pool'.provider j) := by
  unfold Reservation.step at h
  split at h
  · next state pc hstep =>
    obtain ⟨rfl, -⟩ := Prod.mk.inj (Option.some.inj h)
    exact keepsFlags_setProvider fun _ => reserveStep_keepsFlags hstep
  · obtain ⟨⟨pool₁, pc⟩, hpermit, heq⟩ := Option.map_eq_some_iff.mp h
    obtain ⟨rfl, -⟩ := Prod.mk.inj heq
    exact permitStep_keepsFlags hpermit

/-- A call of a pass; the flag of a model it unloads is `gone`. -/
theorem handle_keepsFlags {now : Millis} {p : SyncedProvider} (c : SyncCall)
    (hgone : ∀ model, c = .markModelUnloaded model → gone model) :
    KeepsFlags gone p.state (c.handle now p).2.state := by
  cases c with
  | safetyPermil | lastMemAvailableMb | setLastMemAvailableMb | loadedModelNames
    | providerActiveRequests | activeRequests | maxConcurrent | sumLoadedMaxConcurrent
    | baselineTps | baselineP95Ms | stableCycleCount => exact .refl _
  | setSafetyPermil | setTotalVram => exact keepsFlags_of_models rfl
  | decaySafetyPermil =>
    refine keepsFlags_of_models ?_
    show p.state.decaySafety.models = _
    unfold decaySafety
    split <;> rfl
  | markModelLoaded model weightMb => exact keepsFlags_load weightMb now
  | markModelUnloaded model => exact keepsFlags_unload now (hgone model rfl)
  | setModelProfile model profile => exact keepsFlags_setProfile profile
  | setDispatchBlocked | setGovernorCap | incrementStableCycleCount | resetStableCycleCount =>
    exact keepsFlags_modifyModel fun _ _ => rfl
  | setMaxConcurrent model limit =>
    refine keepsFlags_setModel fun old hold _ => ?_
    rw [hold]
  | setBaselineTps | setBaselineP95Ms => exact keepsFlags_modelOr _ rfl

end Calls

end Veronex
