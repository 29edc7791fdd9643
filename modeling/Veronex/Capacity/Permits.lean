import Veronex.Capacity.Reservation
import Veronex.Capacity.LoadedWeight

/-! # The counters of the permits

Every counter of a provider (`Counter`) is the sum of what the calls on that provider have added to
it and not yet subtracted (`Reservation.share`): a call counts from its own `fetch_add` (or CAS) to
its own subtraction. One step of a call moves the counter by the change of its share
(`step_counter`), so the sums hold in every reachable state (`counters_reachable`), and no
subtraction saturates.
-/
namespace Veronex
set_option autoImplicit false
open Concurrency

/-! ## Counters and shares -/

/-- The counters that a grant and a drop update in separate steps. -/
inductive Counter
  | reservedKv
  | totalActive
  | activeCount (model : String)
  deriving DecidableEq

namespace ProviderVramState
variable {state : ProviderVramState} {model : String}

def counter (state : ProviderVramState) : Counter → ℕ
  | .reservedKv => state.reservedKvMb
  | .totalActive => state.totalActiveCount
  | .activeCount model => (state.models.lookup model).elim 0 ModelState.activeCount

/-- An entry is written whose count is the one before. -/
theorem counter_setModel {ms : ModelState}
    (h : ms.activeCount = state.counter (.activeCount model)) (c : Counter) :
    (state.setModel model ms).counter c = state.counter c := by
  cases c with
  | reservedKv => rfl
  | totalActive => rfl
  | activeCount j =>
    by_cases hj : j = model
    · subst hj
      rw [← h]
      simp [counter, setModel]
    · simp [counter, setModel, AList.lookup_insert_ne hj]

/-- An entry is written whose count is `n` more. -/
theorem counter_setModel_add {ms : ModelState} {n : ℕ}
    (h : ms.activeCount = state.counter (.activeCount model) + n) (c : Counter) :
    (state.setModel model ms).counter c =
      state.counter c + if c = .activeCount model then n else 0 := by
  cases c with
  | reservedKv => rfl
  | totalActive => rfl
  | activeCount j =>
    by_cases hj : j = model
    · subst hj
      rw [if_pos rfl, ← h]
      simp [counter, setModel]
    · simp [counter, setModel, AList.lookup_insert_ne hj, hj]

theorem counter_of_lookup {ms : ModelState} (h : state.models.lookup model = some ms) :
    state.counter (.activeCount model) = ms.activeCount := by
  simp [counter, h]

theorem counter_modelOr (state : ProviderVramState) (model : String) {default : ModelState}
    (h : default.activeCount = 0) :
    (state.modelOr model default).activeCount = state.counter (.activeCount model) := by
  cases hlookup : state.models.lookup model with
  | none => simp [modelOr, counter, hlookup, h]
  | some ms => simp [modelOr, counter, hlookup]

theorem counter_modifyModel {f : ModelState → ModelState}
    (hf : ∀ ms, (f ms).activeCount = ms.activeCount) (c : Counter) :
    (state.modifyModel model f).counter c = state.counter c := by
  unfold modifyModel
  split
  · next ms hlookup =>
    exact counter_setModel (by rw [hf, counter_of_lookup hlookup]) c
  · rfl

theorem counter_touch (now : Millis) (c : Counter) :
    (state.touch model now).counter c = state.counter c := by
  refine counter_modifyModel ?_ c
  intro ms
  rfl

theorem counter_incrActive (h : (state.models.lookup model).isSome) (c : Counter) :
    (state.modifyModel model fun ms => { ms with activeCount := ms.activeCount + 1 }).counter c =
      state.counter c + if c = .activeCount model then 1 else 0 := by
  obtain ⟨ms, hlookup⟩ := Option.isSome_iff_exists.mp h
  unfold modifyModel
  rw [hlookup]
  exact counter_setModel_add (by rw [counter_of_lookup hlookup]) c

theorem counter_subActive (c : Counter) :
    (state.subActive model).counter c =
      state.counter c - if c = .activeCount model then 1 else 0 := by
  unfold subActive modifyModel
  cases hlookup : state.models.lookup model with
  | none =>
    by_cases hc : c = .activeCount model
    · subst hc
      simp [counter, hlookup]
    · simp [hc]
  | some ms =>
    cases c with
    | reservedKv => rfl
    | totalActive => rfl
    | activeCount j =>
      by_cases hj : j = model
      · subst hj
        simp [counter, setModel, hlookup]
      · simp [counter, setModel, AList.lookup_insert_ne hj, hj]

theorem counter_markLoading (cost : ReserveCost) (c : Counter) :
    (state.markLoading model cost).counter c = state.counter c := by
  unfold markLoading
  split
  · next ms hlookup => exact counter_setModel (by rw [counter_of_lookup hlookup]) c
  · next hlookup => exact counter_setModel (by simp [counter, hlookup, ModelState.new]) c

/-- The calls that come in between leave the counters alone. -/
theorem counter_setProfile (profile : ModelVramProfile) (c : Counter) :
    (state.setProfile model profile).counter c = state.counter c := by
  unfold setProfile
  split
  · next ms hlookup => exact counter_setModel (by rw [counter_of_lookup hlookup]) c
  · next hlookup => exact counter_setModel (by simp [counter, hlookup, ModelState.new]) c

theorem counter_load (weightMb : ℕ) (now : Millis) (c : Counter) :
    (state.load model weightMb now).counter c = state.counter c := by
  have hcount : (state.loadedModel model weightMb now).activeCount =
      state.counter (.activeCount model) := by
    unfold loadedModel
    split
    · next ms hlookup => rw [counter_of_lookup hlookup]
    · next hlookup => simp [counter, hlookup, ModelState.new]
  unfold load
  rw [counter_setModel]
  · cases c <;> rfl
  · exact hcount

theorem counter_unload (now : Millis) (c : Counter) :
    (state.unload model now).1.counter c = state.counter c := by
  unfold unload
  split
  · next ms hlookup =>
    dsimp only
    rw [counter_setModel]
    · cases c <;> rfl
    · exact (counter_of_lookup hlookup).symm
  · rfl

end ProviderVramState

/-- What a call has added to a counter of its provider and not yet subtracted. -/
def Reservation.share (r : Reservation) : Counter → ℕ
  | .reservedKv =>
    match r.pc with
    | .markLoading cost | .trackKv cost | .trackActive cost | .trackTotal cost => cost.kvMb
    | .granted permit | .held permit | .dropKv permit => permit.kvMb
    | _ => 0
  | .totalActive =>
    match r.pc with
    | .granted _ | .held _ | .dropKv _ | .dropActive _ | .dropLastActive _ | .dropTotal _ => 1
    | _ => 0
  | .activeCount model =>
    match r.pc with
    | .unprobedTotal | .trackTotal _ | .granted _ | .held _ | .dropKv _ | .dropActive _ =>
      if model = r.model then 1 else 0
    | _ => 0

/-- Its share in a counter of a provider. -/
def Reservation.shareOn (id : ProviderId) (c : Counter) (r : Reservation) : ℕ :=
  if r.id = id then r.share c else 0

/-! ## What a call knows -/

/-- A permit points to the atomics of the provider and the model it was requested for. -/
structure VramPermit.For (permit : VramPermit) (id : ProviderId) (model : String) : Prop where
  reservedKv : permit.reservedKv = some id
  activeCount : permit.activeCount = some (id, model)
  lastActiveAt : permit.lastActiveAt = none ∨ permit.lastActiveAt = some (id, model)
  providerActiveCount : permit.providerActiveCount = some id

/-- Whether the pool has an entry for a model. -/
def VramPool.Knows (pool : VramPool) (id : ProviderId) (model : String) : Prop :=
  ((pool.provider id).models.lookup model).isSome

/-- The entry a call is about to count in is there, and its permit is its own. -/
def Reservation.Sound (pool : VramPool) (r : Reservation) : Prop :=
  match r.pc with
  | .unprobedActive | .trackActive _ => pool.Knows r.id r.model
  | .granted permit | .held permit | .dropKv permit | .dropActive permit | .dropLastActive permit
  | .dropTotal permit => permit.For r.id r.model
  | _ => True

/-! ## One step of a call -/

namespace Reservation
variable {r : Reservation} {pool : VramPool} {env : Surroundings} {state state' : ProviderVramState}
  {pc : ReservePc}
open ProviderVramState

/-- An access of `try_reserve` moves each counter by the change of the call's share. -/
theorem reserveStep_counter (h : r.reserveStep pool env state = some (state', pc))
    (hknown : ∀ cost, r.pc = .unprobedActive ∨ r.pc = .trackActive cost →
      (state.models.lookup r.model).isSome) (c : Counter) :
    state'.counter c + r.share c = state.counter c + (r.goto pc).share c := by
  obtain ⟨id, model, distributed, pc₀⟩ := r
  cases pc₀ with
  | enter =>
    obtain ⟨rfl, rfl⟩ := Prod.mk.inj (Option.some.inj h)
    cases c <;> rfl
  | loadTotal =>
    obtain ⟨rfl, rfl⟩ := Prod.mk.inj (Option.some.inj h)
    by_cases hz : state.totalMb = 0 <;> cases c <;> simp [hz, share, goto]
  | unprobedEntry =>
    obtain ⟨rfl, rfl⟩ := Prod.mk.inj (Option.some.inj h)
    have hcount := counter_modelOr state model (show (ModelState.new 0 false 0 1).activeCount = 0
      from rfl)
    have hshare : ∀ blocked : Bool,
        ({ id, model, distributed, pc := .unprobedEntry } : Reservation).share c =
          ({ id, model, distributed, pc := if blocked then .refused else .unprobedActive } :
            Reservation).share c := by
      intro blocked
      cases blocked <;> cases c <;> rfl
    rw [counter_setModel (by exact hcount)]
    exact congrArg (state.counter c + ·) (hshare _)
  | unprobedActive =>
    obtain ⟨rfl, rfl⟩ := Prod.mk.inj (Option.some.inj h)
    rw [counter_incrActive (hknown ⟨0, false, 0⟩ (.inl rfl))]
    cases c with
    | activeCount j => by_cases hj : j = model <;> simp [share, goto, hj]
    | _ => simp [share, goto]
  | unprobedTotal =>
    obtain ⟨rfl, rfl⟩ := Prod.mk.inj (Option.some.inj h)
    cases c <;> rfl
  | probedEntry total =>
    simp only [reserveStep] at h
    split at h
    · obtain ⟨rfl, rfl⟩ := Prod.mk.inj (Option.some.inj h)
      cases c <;> rfl
    · next ms hlookup =>
      obtain ⟨rfl, rfl⟩ := Prod.mk.inj (Option.some.inj h)
      have hshare : ∀ (blocked : Bool) (cost : ReserveCost),
          ({ id, model, distributed, pc := .probedEntry total } : Reservation).share c =
            ({ id, model, distributed, pc := if blocked then .refused else .loadKv total cost 0 } :
              Reservation).share c := by
        intro blocked cost
        cases blocked <;> cases c <;> rfl
      rw [counter_setModel (by rw [counter_of_lookup hlookup])]
      exact congrArg (state.counter c + ·) (hshare _ _)
  | loadKv total cost retries =>
    obtain ⟨rfl, rfl⟩ := Prod.mk.inj (Option.some.inj h)
    cases c <;> rfl
  | loadWeight total cost retries curKv =>
    obtain ⟨rfl, rfl⟩ := Prod.mk.inj (Option.some.inj h)
    cases c <;> rfl
  | loadSafety total cost retries curKv loaded =>
    simp only [reserveStep] at h
    split at h
    · obtain ⟨rfl, rfl⟩ := Prod.mk.inj (Option.some.inj h)
      split <;> cases c <;> rfl
    · obtain ⟨rfl, rfl⟩ := Prod.mk.inj (Option.some.inj h)
      cases c <;> rfl
  | bumpLoad =>
    obtain ⟨rfl, rfl⟩ := Prod.mk.inj (Option.some.inj h)
    cases c <;> rfl
  | bumpStore curSafety =>
    obtain ⟨rfl, rfl⟩ := Prod.mk.inj (Option.some.inj h)
    cases c <;> rfl
  | cas total cost retries curKv =>
    simp only [reserveStep] at h
    split at h
    · -- the reservation is the one the CAS compared
      next hcur =>
      obtain ⟨rfl, rfl⟩ := Prod.mk.inj (Option.some.inj h)
      subst hcur
      split <;> cases c <;> simp [counter, share, goto]
    · obtain ⟨rfl, rfl⟩ := Prod.mk.inj (Option.some.inj h)
      split <;> cases c <;> rfl
  | markLoading cost =>
    obtain ⟨rfl, rfl⟩ := Prod.mk.inj (Option.some.inj h)
    rw [counter_markLoading]
    cases c <;> rfl
  | trackKv cost =>
    obtain ⟨rfl, rfl⟩ := Prod.mk.inj (Option.some.inj h)
    have hcount := counter_modelOr state model (show (ModelState.new cost.weightCost
      cost.needLoadWeight cost.kvMb 1).activeCount = 0 from rfl)
    rw [counter_setModel (by exact hcount)]
    cases c <;> rfl
  | trackActive cost =>
    obtain ⟨rfl, rfl⟩ := Prod.mk.inj (Option.some.inj h)
    rw [counter_incrActive (hknown cost (.inr rfl))]
    cases c with
    | activeCount j => by_cases hj : j = model <;> simp [share, goto, hj]
    | _ => simp [share, goto]
  | trackTotal cost =>
    obtain ⟨rfl, rfl⟩ := Prod.mk.inj (Option.some.inj h)
    cases c <;> rfl
  | refused => cases h
  | granted permit => cases h
  | held permit => cases h
  | dropKv permit => cases h
  | dropActive permit => cases h
  | dropLastActive permit => cases h
  | dropTotal permit => cases h
  | dropped => cases h

/-- A step of a permit: the re-wrapping moves nothing, a subtraction takes exactly the share of the
call, which the counter still has. -/
theorem permitStep_counter {pool' : VramPool} (h : r.permitStep pool env = some (pool', pc))
    (hsound : r.Sound pool) (hle : ∀ c, r.share c ≤ (pool.provider r.id).counter c) :
    ∃ state', (∀ j, pool'.provider j = (pool.setProvider r.id state').provider j) ∧
      ∀ c, state'.counter c + r.share c = (pool.provider r.id).counter c + (r.goto pc).share c := by
  obtain ⟨id, model, distributed, pc₀⟩ := r
  have hself : ∀ j, pool.provider j = (pool.setProvider id (pool.provider id)).provider j := by
    intro j
    rw [VramPool.provider_setProvider]
    split
    · next hj => rw [hj]
    · rfl
  cases pc₀ with
  | granted permit =>
    have hfor : permit.For id model := hsound
    simp only [permitStep] at h
    split at h
    · simp only [VramPermit.intoParts, hfor.reservedKv, hfor.activeCount,
        hfor.providerActiveCount] at h
      obtain ⟨rfl, rfl⟩ := Prod.mk.inj (Option.some.inj h)
      exact ⟨_, hself, fun c => by cases c <;> rfl⟩
    · obtain ⟨rfl, rfl⟩ := Prod.mk.inj (Option.some.inj h)
      exact ⟨_, hself, fun c => by cases c <;> rfl⟩
  | dropKv permit =>
    have hfor : permit.For id model := hsound
    obtain ⟨rfl, rfl⟩ := Prod.mk.inj (Option.some.inj h)
    have hkv : permit.kvMb ≤ (pool.provider id).reservedKvMb := hle .reservedKv
    refine ⟨(pool.provider id).subReserved permit.kvMb, fun j => ?_, fun c => ?_⟩
    · rw [VramPool.dropKv, hfor.reservedKv]
    · cases c with
      | reservedKv => exact Nat.sub_add_cancel hkv
      | _ => rfl
  | dropActive permit =>
    have hfor : permit.For id model := hsound
    obtain ⟨rfl, rfl⟩ := Prod.mk.inj (Option.some.inj h)
    have hone := hle (.activeCount model)
    refine ⟨(pool.provider id).subActive model, fun j => ?_, fun c => ?_⟩
    · rw [VramPool.dropActive, hfor.activeCount]
    · rw [counter_subActive]
      cases c with
      | activeCount j =>
        by_cases hj : j = model
        · subst hj
          simp only [share, if_true] at hone
          simp only [share, goto, if_true]
          omega
        · simp [share, goto, hj]
      | _ => simp [share, goto]
  | dropLastActive permit =>
    have hfor : permit.For id model := hsound
    obtain ⟨rfl, rfl⟩ := Prod.mk.inj (Option.some.inj h)
    rcases hfor.lastActiveAt with hlast | hlast
    · refine ⟨_, fun j => ?_, fun c => by cases c <;> rfl⟩
      · rw [VramPool.dropLastActive, hlast]
        exact hself j
    · refine ⟨(pool.provider id).touch model env.now, fun j => ?_, fun c => ?_⟩
      · rw [VramPool.dropLastActive, hlast]
      · rw [counter_touch]
        cases c <;> rfl
  | dropTotal permit =>
    have hfor : permit.For id model := hsound
    obtain ⟨rfl, rfl⟩ := Prod.mk.inj (Option.some.inj h)
    have hone : 1 ≤ (pool.provider id).totalActiveCount := hle .totalActive
    refine ⟨(pool.provider id).subTotal, fun j => ?_, fun c => ?_⟩
    · rw [VramPool.dropTotal, hfor.providerActiveCount]
    · cases c with
      | totalActive => exact Nat.sub_add_cancel hone
      | _ => rfl
  | _ => cases h

end Reservation

/-! ## Entries stay -/

namespace ProviderVramState
variable {state : ProviderVramState} {model : String}

/-- No entry is lost. -/
def KeepsEntries (state state' : ProviderVramState) : Prop :=
  ∀ model, (state.models.lookup model).isSome → (state'.models.lookup model).isSome

theorem keepsEntries_of_eq {state' : ProviderVramState} (h : state'.models = state.models) :
    KeepsEntries state state' := by
  intro m hm
  rwa [h]

theorem keepsEntries_setModel (state : ProviderVramState) (model : String) (ms : ModelState) :
    KeepsEntries state (state.setModel model ms) := by
  intro m hm
  rw [AList.lookup_isSome] at hm ⊢
  exact (AList.mem_insert _).mpr (.inr hm)

theorem keepsEntries_modifyModel (f : ModelState → ModelState) :
    KeepsEntries state (state.modifyModel model f) := by
  unfold modifyModel
  split
  · exact keepsEntries_setModel _ _ _
  · exact keepsEntries_of_eq rfl

theorem keepsEntries_markLoading (cost : ReserveCost) :
    KeepsEntries state (state.markLoading model cost) := by
  unfold markLoading
  split <;> exact keepsEntries_setModel _ _ _

theorem keepsEntries_setProfile (profile : ModelVramProfile) :
    KeepsEntries state (state.setProfile model profile) := by
  unfold setProfile
  split <;> exact keepsEntries_setModel _ _ _

theorem keepsEntries_load (weightMb : ℕ) (now : Millis) :
    KeepsEntries state (state.load model weightMb now) := fun m hm =>
  keepsEntries_setModel { state with cachedLoadedWeightMb := state.adjustedCache model weightMb }
    model _ m hm

theorem keepsEntries_unload (now : Millis) :
    KeepsEntries state (state.unload model now).1 := by
  unfold unload
  split
  · next ms hlookup =>
    intro m hm
    refine keepsEntries_setModel ({ state with cachedLoadedWeightMb := _ }) model _ m hm
  · exact keepsEntries_of_eq rfl

end ProviderVramState

namespace Reservation
variable {r : Reservation} {pool pool' : VramPool} {env : Surroundings}
  {state state' : ProviderVramState} {pc : ReservePc}
open ProviderVramState

theorem reserveStep_keepsEntries (h : r.reserveStep pool env state = some (state', pc)) :
    KeepsEntries state state' := by
  obtain ⟨id, model, distributed, pc₀⟩ := r
  cases pc₀
  all_goals
    simp only [reserveStep] at h
    repeat' (split at h)
    all_goals first
    | cases h
      done
    | obtain ⟨rfl, rfl⟩ := Prod.mk.inj (Option.some.inj h)
      first
      | exact keepsEntries_of_eq rfl
      | exact keepsEntries_setModel _ _ _
      | exact keepsEntries_modifyModel _
      | exact keepsEntries_markLoading _

theorem permitStep_keepsEntries (h : r.permitStep pool env = some (pool', pc)) (j : ProviderId) :
    KeepsEntries (pool.provider j) (pool'.provider j) := by
  have hset : ∀ (id : ProviderId) (state : ProviderVramState),
      KeepsEntries (pool.provider id) state →
        KeepsEntries (pool.provider j) ((pool.setProvider id state).provider j) := by
    intro id state hstate
    rw [VramPool.provider_setProvider]
    split
    · next hj => rwa [hj]
    · exact keepsEntries_of_eq rfl
  obtain ⟨id, model, distributed, pc₀⟩ := r
  cases pc₀ with
  | granted permit =>
    simp only [permitStep] at h
    repeat' (split at h)
    all_goals
      obtain ⟨rfl, rfl⟩ := Prod.mk.inj (Option.some.inj h)
      exact keepsEntries_of_eq rfl
  | dropKv permit =>
    obtain ⟨rfl, rfl⟩ := Prod.mk.inj (Option.some.inj h)
    unfold VramPool.dropKv
    split
    · exact hset _ _ (keepsEntries_of_eq rfl)
    · exact keepsEntries_of_eq rfl
  | dropActive permit =>
    obtain ⟨rfl, rfl⟩ := Prod.mk.inj (Option.some.inj h)
    unfold VramPool.dropActive
    split
    · exact hset _ _ (keepsEntries_modifyModel _)
    · exact keepsEntries_of_eq rfl
  | dropLastActive permit =>
    obtain ⟨rfl, rfl⟩ := Prod.mk.inj (Option.some.inj h)
    unfold VramPool.dropLastActive
    split
    · exact hset _ _ (keepsEntries_modifyModel _)
    · exact keepsEntries_of_eq rfl
  | dropTotal permit =>
    obtain ⟨rfl, rfl⟩ := Prod.mk.inj (Option.some.inj h)
    unfold VramPool.dropTotal
    split
    · exact hset _ _ (keepsEntries_of_eq rfl)
    · exact keepsEntries_of_eq rfl
  | _ => cases h

theorem withLastActive_for (kvMb : ℕ) (id : ProviderId) (model : String) :
    (VramPermit.withLastActive kvMb id model).For id model := ⟨rfl, rfl, .inr rfl, rfl⟩

/-- After an access of `try_reserve` the call still knows its entry, or has its own permit. -/
theorem reserveStep_sound (h : r.reserveStep pool env state = some (state', pc)) :
    (r.goto pc).Sound (pool.setProvider r.id state') := by
  obtain ⟨id, model, distributed, pc₀⟩ := r
  have hknown : ∀ ms : ModelState,
      (pool.setProvider id (state.setModel model ms)).Knows id model := by
    intro ms
    rw [VramPool.Knows, VramPool.provider_setProvider, if_pos rfl]
    exact AList.lookup_isSome.mpr ((AList.mem_insert _).mpr (.inl rfl))
  cases pc₀ with
  | unprobedEntry =>
    obtain ⟨rfl, rfl⟩ := Prod.mk.inj (Option.some.inj h)
    have hsound : ∀ (blocked : Bool) (ms : ModelState),
        Sound (pool.setProvider id (state.setModel model ms))
          { id, model, distributed, pc := if blocked then .refused else .unprobedActive } := by
      intro blocked ms
      cases blocked with
      | true => trivial
      | false => exact hknown ms
    exact hsound _ _
  | unprobedTotal =>
    obtain ⟨rfl, rfl⟩ := Prod.mk.inj (Option.some.inj h)
    exact withLastActive_for ..
  | trackKv cost =>
    obtain ⟨rfl, rfl⟩ := Prod.mk.inj (Option.some.inj h)
    exact hknown _
  | trackTotal cost =>
    obtain ⟨rfl, rfl⟩ := Prod.mk.inj (Option.some.inj h)
    exact withLastActive_for ..
  | _ =>
    simp only [reserveStep] at h
    repeat' (split at h)
    all_goals first
    | cases h
      done
    | obtain ⟨rfl, rfl⟩ := Prod.mk.inj (Option.some.inj h)
      trivial

theorem permitStep_sound (h : r.permitStep pool env = some (pool', pc)) (hsound : r.Sound pool) :
    (r.goto pc).Sound pool' := by
  obtain ⟨id, model, distributed, pc₀⟩ := r
  cases pc₀ with
  | granted permit =>
    have hfor : permit.For id model := hsound
    simp only [permitStep] at h
    split at h
    · simp only [VramPermit.intoParts, hfor.reservedKv, hfor.activeCount,
        hfor.providerActiveCount] at h
      obtain ⟨rfl, rfl⟩ := Prod.mk.inj (Option.some.inj h)
      exact ⟨rfl, rfl, .inl rfl, rfl⟩
    · obtain ⟨rfl, rfl⟩ := Prod.mk.inj (Option.some.inj h)
      exact hfor
  | dropKv permit => obtain ⟨rfl, rfl⟩ := Prod.mk.inj (Option.some.inj h); exact hsound
  | dropActive permit => obtain ⟨rfl, rfl⟩ := Prod.mk.inj (Option.some.inj h); exact hsound
  | dropLastActive permit => obtain ⟨rfl, rfl⟩ := Prod.mk.inj (Option.some.inj h); exact hsound
  | dropTotal permit => obtain ⟨rfl, rfl⟩ := Prod.mk.inj (Option.some.inj h); trivial
  | _ => cases h

/-- The knowledge of a call outlives the steps of others. -/
theorem Sound.mono (h : r.Sound pool)
    (hkeeps : ∀ j, KeepsEntries (pool.provider j) (pool'.provider j)) : r.Sound pool' := by
  obtain ⟨id, model, distributed, pc₀⟩ := r
  cases pc₀ with
  | unprobedActive => exact hkeeps id model h
  | trackActive cost => exact hkeeps id model h
  | _ => exact h

end Reservation

/-! ## The system -/

namespace Reservation
variable {r r' : Reservation} {pool pool' : VramPool} {env : Surroundings}
open ProviderVramState

/-- What any step of a call does. -/
structure Moves (pool pool' : VramPool) (r r' : Reservation) : Prop where
  id : r'.id = r.id
  sound : r'.Sound pool'
  keeps : ∀ j, KeepsEntries (pool.provider j) (pool'.provider j)
  other : ∀ j, j ≠ r.id → pool'.provider j = pool.provider j
  counter : ∀ c, (pool'.provider r.id).counter c + r.share c =
    (pool.provider r.id).counter c + r'.share c

theorem step_moves (h : r.step pool env = some (pool', r')) (hsound : r.Sound pool)
    (hle : ∀ c, r.share c ≤ (pool.provider r.id).counter c) : Moves pool pool' r r' := by
  unfold step at h
  split at h
  · next state pc hstep =>
    obtain ⟨rfl, rfl⟩ := Prod.mk.inj (Option.some.inj h)
    have hcounter := reserveStep_counter hstep fun cost hpc => by
      rcases hpc with hpc | hpc
      · simpa [Sound, VramPool.Knows, hpc] using hsound
      · simpa [Sound, VramPool.Knows, hpc] using hsound
    refine ⟨rfl, reserveStep_sound hstep, fun j => ?_, fun j hj => ?_, fun c => ?_⟩
    · rw [VramPool.provider_setProvider]
      split
      · next hj =>
        rw [hj]
        exact reserveStep_keepsEntries hstep
      · exact keepsEntries_of_eq rfl
    · rw [VramPool.provider_setProvider, if_neg hj]
    · rw [VramPool.provider_setProvider, if_pos rfl]
      exact hcounter c
  · obtain ⟨⟨pool₁, pc⟩, hstep, heq⟩ := Option.map_eq_some_iff.mp h
    obtain ⟨rfl, rfl⟩ := Prod.mk.inj heq
    obtain ⟨state', hprovider, hcounter⟩ := permitStep_counter hstep hsound hle
    refine ⟨rfl, permitStep_sound hstep hsound, permitStep_keepsEntries hstep, fun j hj => ?_,
      fun c => ?_⟩
    · rw [hprovider, VramPool.provider_setProvider, if_neg hj]
    · rw [hprovider, VramPool.provider_setProvider, if_pos rfl]
      exact hcounter c

end Reservation

/-- The calls that come in between move no counter and lose no entry. -/
theorem VramPool.call_counter {pool : VramPool} {c : PoolCall} (h : c.isUpdate) (j : ProviderId) :
    (∀ k, ((pool.call c).provider j).counter k = (pool.provider j).counter k) ∧
      ProviderVramState.KeepsEntries (pool.provider j) ((pool.call c).provider j) := by
  have hset : ∀ (id : ProviderId) (state : ProviderVramState),
      (∀ k, state.counter k = (pool.provider id).counter k) →
      ProviderVramState.KeepsEntries (pool.provider id) state →
      (∀ k, ((pool.setProvider id state).provider j).counter k = (pool.provider j).counter k) ∧
        ProviderVramState.KeepsEntries (pool.provider j) ((pool.setProvider id state).provider j) := by
    intro id state hcounter hkeeps
    rw [provider_setProvider]
    split
    · next hj =>
      rw [hj]
      exact ⟨hcounter, hkeeps⟩
    · exact ⟨fun _ => rfl, ProviderVramState.keepsEntries_of_eq rfl⟩
  cases c with
  | tryReserve id model => cases h
  | dropPermit permit now => cases h
  | setTotalVram id totalMb =>
    refine hset id _ (fun k => ?_) (ProviderVramState.keepsEntries_of_eq rfl)
    cases k <;> rfl
  | setModelProfile id model profile =>
    exact hset id _ (ProviderVramState.counter_setProfile profile)
      (ProviderVramState.keepsEntries_setProfile profile)
  | markModelLoaded id model weightMb now =>
    exact hset id _ (ProviderVramState.counter_load weightMb now)
      (ProviderVramState.keepsEntries_load weightMb now)
  | markModelUnloaded id model now =>
    rw [VramPool.call, provider_markModelUnloaded]
    exact hset id _ (ProviderVramState.counter_unload now)
      (ProviderVramState.keepsEntries_unload now)

namespace Reservations
variable {s s' : Reservations}

/-- Every counter is the sum of the shares of the calls, which know what they work on. -/
structure Accounted (s : Reservations) : Prop where
  counters : ∀ id c, (s.pool.provider id).counter c = weight (Reservation.shareOn id c) s.calls
  sound : ∀ r ∈ s.calls, r.Sound s.pool

theorem Accounted.share_le (h : s.Accounted) {r : Reservation} (hr : r ∈ s.calls) (c : Counter) :
    r.share c ≤ (s.pool.provider r.id).counter c := by
  have hle := le_weight_of_mem (Reservation.shareOn r.id c) hr
  rw [h.counters]
  simpa [Reservation.shareOn] using hle

/-- One call has moved by its own rules. -/
theorem accounted_of_moves {pool' : VramPool} {calls' others : List Reservation}
    {r r' : Reservation} (h : s.Accounted) (hrep : Replaced s.calls r r' [] others calls')
    (hmoves : Reservation.Moves s.pool pool' r r') :
    Accounted { pool := pool', calls := calls' } := by
  constructor
  · intro id c
    have hbefore := h.counters id c
    rw [hrep.weight_before] at hbefore
    rw [hrep.weight_after, weight_nil, Nat.add_zero]
    by_cases hid : r.id = id
    · subst hid
      have hcounter := hmoves.counter c
      simp only [Reservation.shareOn, hmoves.id, if_true] at hbefore ⊢
      show (pool'.provider r.id).counter c = _
      omega
    · have hsame : pool'.provider id = s.pool.provider id :=
        hmoves.other id fun heq => hid heq.symm
      have hid' : r'.id ≠ id := hmoves.id ▸ hid
      simp only [Reservation.shareOn, if_neg hid, if_neg hid'] at hbefore ⊢
      rw [hsame]
      exact hbefore
  · refine hrep.forall_mem (fun x hx => ?_) hmoves.sound (by simp)
    exact (h.sound x (hrep.other_mem_before hx)).mono hmoves.keeps

theorem step_accounted {a : ReserveAction} (h : s.Accounted) (hs : s.step a = some s') :
    s'.Accounted := by
  cases a with
  | request id model distributed =>
    obtain rfl := Option.some.inj hs
    refine ⟨fun j c => ?_, fun r hr => ?_⟩
    · have hzero : Reservation.shareOn j c { id, model, distributed, pc := .enter } = 0 := by
        unfold Reservation.shareOn
        split
        · cases c <;> rfl
        · rfl
      rw [weight_append, weight_cons, weight_nil, hzero]
      exact h.counters j c
    · rcases List.mem_append.mp hr with hr | hr
      · exact h.sound r hr
      · obtain rfl := List.mem_singleton.mp hr
        trivial
  | step k env =>
    obtain ⟨r, hr, hs⟩ := Option.bind_eq_some_iff.mp hs
    obtain ⟨⟨pool', r'⟩, hstep, hs⟩ := Option.bind_eq_some_iff.mp hs
    obtain rfl := Option.some.inj hs
    obtain ⟨others, hrep, -⟩ := advance_replaced hr r' []
    have hmoves := Reservation.step_moves hstep (h.sound r hrep.task_mem)
      (h.share_le hrep.task_mem)
    exact accounted_of_moves h hrep hmoves
  | drop k =>
    obtain ⟨r, hr, hs⟩ := Option.bind_eq_some_iff.mp hs
    split at hs
    · next permit hpc =>
      obtain rfl := Option.some.inj hs
      obtain ⟨others, hrep, -⟩ := advance_replaced hr (r.goto (.dropKv permit)) []
      have hsound : permit.For r.id r.model := by
        simpa [Reservation.Sound, hpc] using h.sound r hrep.task_mem
      have hshare : ∀ c, (r.goto (.dropKv permit)).share c = r.share c := by
        intro c
        obtain ⟨id, model, distributed, pc⟩ := r
        obtain rfl : pc = .held permit := hpc
        cases c <;> rfl
      refine accounted_of_moves h hrep ⟨rfl, hsound, fun _ =>
        ProviderVramState.keepsEntries_of_eq rfl, fun _ _ => rfl, fun c => ?_⟩
      rw [hshare]
    · cases hs
  | update c =>
    simp only [step] at hs
    split at hs
    · next hupdate =>
      obtain rfl := Option.some.inj hs
      refine ⟨fun id k => ?_, fun r hr => ?_⟩
      · show ((s.pool.call c).provider id).counter k = _
        rw [(VramPool.call_counter hupdate id).1 k]
        exact h.counters id k
      · exact (h.sound r hr).mono fun j => (VramPool.call_counter hupdate j).2
    · cases hs

theorem accounted_reachable (h : s.Reachable) : s.Accounted := by
  refine h.invariant (I := Accounted) ⟨fun id c => ?_, by simp [start]⟩
    fun _ _ _ _ hx _ hs => step_accounted hx hs
  cases c <;> rfl

/-- Why a natural number models the `u64`: `kv_mb` comes from a `u32`, and with fewer than 2^32 live
calls on a provider their sum does not leave the word. -/
theorem reservedKv_fits (h : s.Accounted) (id : ProviderId)
    (hkv : ∀ r ∈ s.calls, r.share .reservedKv ≤ U32 - 1)
    (hlive : s.calls.countP (fun r => Reservation.shareOn id .reservedKv r ≠ 0) < U32) :
    (s.pool.provider id).reservedKvMb < U64 := by
  have hshare : ∀ r ∈ s.calls, Reservation.shareOn id .reservedKv r ≤ U32 - 1 := by
    intro r hr
    unfold Reservation.shareOn
    split
    · exact hkv r hr
    · exact Nat.zero_le _
  have hsum : (s.pool.provider id).reservedKvMb =
      weight (Reservation.shareOn id .reservedKv) s.calls := h.counters id .reservedKv
  calc (s.pool.provider id).reservedKvMb
      = weight (Reservation.shareOn id .reservedKv) s.calls := hsum
    _ ≤ s.calls.countP (fun r => Reservation.shareOn id .reservedKv r ≠ 0) * (U32 - 1) :=
        weight_le_countP_mul _ hshare
    _ ≤ (U32 - 1) * (U32 - 1) := Nat.mul_le_mul_right _ (by omega)
    _ < U64 := by decide

/-! ## The permits that are out -/

/-- The model and the permit of a call that holds one on a provider. -/
def permitOn (id : ProviderId) (r : Reservation) : Option (String × VramPermit) :=
  match r.pc with
  | .held permit => if r.id = id then some (r.model, permit) else none
  | _ => none

/-- The outstanding permits of a provider. -/
def permits (s : Reservations) (id : ProviderId) : List (String × VramPermit) :=
  s.calls.filterMap (permitOn id)

/-- No call is between its first and its last access. -/
def Settled (s : Reservations) : Prop :=
  ∀ r ∈ s.calls, r.pc = .refused ∨ (∃ permit, r.pc = .held permit) ∨ r.pc = .dropped

/-- What one permit adds to each counter. -/
def permitShare : Counter → String × VramPermit → ℕ
  | .reservedKv, p => p.2.kvMb
  | .totalActive, _ => 1
  | .activeCount model, p => if model = p.1 then 1 else 0

theorem counter_of_settled (h : s.Accounted) (hsettled : s.Settled) (id : ProviderId)
    (c : Counter) :
    (s.pool.provider id).counter c = ((s.permits id).map (permitShare c)).sum := by
  rw [h.counters, permits, sum_filterMap]
  refine weight_congr fun r hr => ?_
  rcases hsettled r hr with hpc | ⟨permit, hpc⟩ | hpc
  · cases c <;> simp [Reservation.shareOn, Reservation.share, permitOn, hpc]
  · unfold Reservation.shareOn permitOn
    rw [hpc]
    by_cases hid : r.id = id
    · cases c <;> simp [Reservation.share, hpc, hid, permitShare]
    · simp [hid]
  · cases c <;> simp [Reservation.shareOn, Reservation.share, permitOn, hpc]

/-- In every interleaving of reservations, drops and updates from a new pool:
between the accesses of calls the three counters are the sums over the outstanding permits; at any
time they are the sums of what the calls have added and not yet subtracted; and no subtraction of a
drop saturates. -/
theorem permits_accounted (s : Reservations) (h : s.Reachable) :
    (s.Settled → ∀ id,
      (s.pool.provider id).reservedKvMb = ((s.permits id).map fun p => p.2.kvMb).sum ∧
      (s.pool.provider id).totalActiveCount = (s.permits id).length ∧
      ∀ model, (s.pool.provider id).counter (.activeCount model) =
        (s.permits id).countP fun p => model = p.1) ∧
    (∀ id c, (s.pool.provider id).counter c = weight (Reservation.shareOn id c) s.calls) ∧
    ∀ r ∈ s.calls, ∀ permit id model,
      (r.pc = .dropKv permit → permit.reservedKv = some id →
        permit.kvMb ≤ (s.pool.provider id).reservedKvMb) ∧
      (r.pc = .dropActive permit → permit.activeCount = some (id, model) →
        1 ≤ (s.pool.provider id).counter (.activeCount model)) ∧
      (r.pc = .dropTotal permit → permit.providerActiveCount = some id →
        1 ≤ (s.pool.provider id).totalActiveCount) := by
  have hacc := accounted_reachable h
  refine ⟨fun hsettled id => ⟨?_, ?_, fun model => ?_⟩, hacc.counters, fun r hr permit id model =>
    ⟨fun hpc hid => ?_, fun hpc hid => ?_, fun hpc hid => ?_⟩⟩
  · exact counter_of_settled hacc hsettled id .reservedKv
  · have hsum : (s.pool.provider id).totalActiveCount = ((s.permits id).map fun _ => 1).sum :=
      counter_of_settled hacc hsettled id .totalActive
    simpa using hsum
  · rw [counter_of_settled hacc hsettled, ← sum_indicator]
    rfl
  · have hfor : permit.For r.id r.model := by
      simpa [Reservation.Sound, hpc] using hacc.sound r hr
    obtain rfl : r.id = id := Option.some.inj (hfor.reservedKv.symm.trans hid)
    have hle := hacc.share_le hr .reservedKv
    simpa [Reservation.share, hpc, ProviderVramState.counter] using hle
  · have hfor : permit.For r.id r.model := by
      simpa [Reservation.Sound, hpc] using hacc.sound r hr
    obtain ⟨rfl, rfl⟩ : r.id = id ∧ r.model = model := by
      simpa using hfor.activeCount.symm.trans hid
    have hle := hacc.share_le hr (.activeCount r.model)
    simpa [Reservation.share, hpc] using hle
  · have hfor : permit.For r.id r.model := by
      simpa [Reservation.Sound, hpc] using hacc.sound r hr
    obtain rfl : r.id = id := Option.some.inj (hfor.providerActiveCount.symm.trans hid)
    have hle := hacc.share_le hr .totalActive
    simpa [Reservation.share, hpc, ProviderVramState.counter] using hle

/-! ## Two calls that meet at the CAS -/

/-- Surroundings in which nothing blocks. -/
def calm (lease : Uuid) : Surroundings := { seen := .new 0 false 0 0, now := 1, lease }

/-- Takes one call `n` steps forward. -/
def advanceCall (k n : ℕ) : List ReserveAction := List.replicate n (.step k (calm k))

/-- Two requests for a model that is not loaded read the same reservation; the CAS of the second
fails once. Both get a permit. -/
def twoGrants : List ReserveAction :=
  [ReserveAction.update (.setTotalVram 0 10000),
    ReserveAction.update (.setModelProfile 0 "m" ⟨4000, 128⟩),
    ReserveAction.request 0 "m" true, ReserveAction.request 0 "m" false] ++
    advanceCall 0 6 ++ advanceCall 1 6 ++ advanceCall 0 6 ++ advanceCall 1 10

/-- The counters after the two grants: 256 MB and two permits. -/
theorem permits_of_two_grants :
    ∃ s : Reservations, s.Reachable ∧ (s.permits 0).length = 2 ∧
      (s.pool.provider 0).reservedKvMb = 256 ∧ (s.pool.provider 0).totalActiveCount = 2 := by
  have hexec : (exec step (fun _ _ => true) start twoGrants).any (fun s =>
      decide (((s.permits 0).map fun p => p.2.kvMb).sum = 256) &&
        decide ((s.permits 0).length = 2) &&
        s.calls.all fun r => match r.pc with | .held _ => true | _ => false) = true := by
    decide +kernel
  obtain ⟨s, hrun, htest⟩ := Run.exists_of_exec (fun _ _ _ => trivial) hexec
  simp only [Bool.and_eq_true, decide_eq_true_eq, List.all_eq_true] at htest
  obtain ⟨⟨hkv, hlen⟩, hheld⟩ := htest
  have hsettled : s.Settled := by
    intro r hr
    have hpc := hheld r hr
    split at hpc
    · next permit heq => exact .inr (.inl ⟨permit, heq⟩)
    · cases hpc
  obtain ⟨hreserved, htotal, -⟩ := (permits_accounted s hrun).1 hsettled 0
  exact ⟨s, hrun, hlen, hreserved.trans hkv, htotal.trans hlen⟩

end Reservations

end Veronex
