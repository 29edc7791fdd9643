import Veronex.Capacity.LoadedWeight

/-! # The concurrency limit of a model

Reservations and drops of one model on one provider, whose limit, governor cap and probe settings
stay as they are; the governor may set and clear `dispatch_blocked` in between.

* `admitted_of_not_blocked`: what `should_block` has checked when it lets a request pass.
* `tryReserve_entry`: what a reservation does to the model's entry.
* `permits_within_limit`: the permits that are out never exceed the limit plus the probe permits.
-/
namespace Veronex
set_option autoImplicit false
open Concurrency

/-! ## The check -/

/-- The limit `should_block` works with. -/
def ModelState.limit (ms : ModelState) : ℕ :=
  if 0 < ms.governorCap then min ms.maxConcurrent ms.governorCap else ms.maxConcurrent

/-- What holds of a model that has a limit when `should_block` lets a request pass. -/
structure Admitted (ms : ModelState) (probePermits : ℤ) (probeRate : ℕ) : Prop where
  unblocked : ms.dispatchBlocked = false
  belowHardCap : (ms.activeCount : ℤ) < ms.limit + max probePermits 0
  belowLimit : probePermits ≤ 0 ∨ probeRate = 0 → ms.activeCount < ms.limit

theorem admitted_of_not_blocked {ms : ModelState} {probePermits : ℤ} {probeRate : ℕ}
    (hlimit : 0 < ms.maxConcurrent) (h : (shouldBlock ms probePermits probeRate).1 = false) :
    Admitted ms probePermits probeRate := by
  unfold shouldBlock at h
  split at h
  · cases h
  next hblocked =>
  have hunblocked : ms.dispatchBlocked = false := by simpa using hblocked
  rw [if_neg (Nat.pos_iff_ne_zero.mp hlimit)] at h
  change (if 0 < probePermits then _ else _ : Bool × ℕ).1 = false at h
  split at h
  · next hup =>
    -- probing up: below the hard cap, and below the limit outside the probe zone
    have hmax : max probePermits 0 = probePermits := max_eq_left hup.le
    change (if min (ms.limit + probePermits.toNat) (U32 - 1) ≤ ms.activeCount then _
      else _ : Bool × ℕ).1 = false at h
    split at h
    · cases h
    next hcap =>
    have hhard : (ms.activeCount : ℤ) < ms.limit + probePermits := by omega
    change (if ms.limit ≤ ms.activeCount then _ else _ : Bool × ℕ).1 = false at h
    split at h
    · next hzone =>
      split at h
      · cases h
      · next hrate =>
        refine ⟨hunblocked, by omega, fun hoff => ?_⟩
        rcases hoff with hoff | hoff
        · omega
        · exact absurd hoff hrate
    · next hbelow => exact ⟨hunblocked, by omega, fun _ => not_le.mp hbelow⟩
  next hup =>
  have hmax : max probePermits 0 = 0 := max_eq_right (not_lt.mp hup)
  have hadmit : ms.activeCount < ms.limit → Admitted ms probePermits probeRate := by
    intro hbelow
    exact ⟨hunblocked, by omega, fun _ => hbelow⟩
  split at h
  · -- probing down: never above the limit
    change (if ms.limit ≤ ms.activeCount then _ else _ : Bool × ℕ).1 = false at h
    split at h
    · cases h
    · next hbelow => exact hadmit (not_le.mp hbelow)
  · exact hadmit (not_le.mp (of_decide_eq_false h))

/-! ## The entry of the model -/

/-- The settings of a model that reservations and drops leave alone. -/
structure SameSettings (ms ms' : ModelState) : Prop where
  maxConcurrent : ms'.maxConcurrent = ms.maxConcurrent
  governorCap : ms'.governorCap = ms.governorCap
  dispatchBlocked : ms'.dispatchBlocked = ms.dispatchBlocked

theorem SameSettings.refl (ms : ModelState) : SameSettings ms ms := ⟨rfl, rfl, rfl⟩

theorem SameSettings.limit {ms ms' : ModelState} (h : SameSettings ms ms') :
    ms'.limit = ms.limit := by
  rw [ModelState.limit, ModelState.limit, h.maxConcurrent, h.governorCap]

namespace ProviderVramState
variable {state : ProviderVramState} {model : String} {ms : ModelState}

theorem modifyModel_lookup (h : state.models.lookup model = some ms) (f : ModelState → ModelState) :
    (state.modifyModel model f).models.lookup model = some (f ms) := by
  rw [modifyModel, h]
  exact setModel_lookup state model (f ms)

/-- The entry a grant leaves of a model the pool knows. -/
theorem grant_lookup (h : state.models.lookup model = some ms) (cost : ReserveCost) :
    (state.grant model cost).models.lookup model =
      some { ms with
        isLoaded := cost.needLoadWeight || ms.isLoaded
        activeKvMb := ms.activeKvMb + cost.kvMb
        activeCount := ms.activeCount + 1 } := by
  unfold grant track
  refine (AList.lookup_insert _).trans ?_
  cases hneed : cost.needLoadWeight with
  | false => simp [modelOr, h]
  | true => simp [modelOr, markLoading, h]

/-- A reservation of a model the pool knows: refused with the count as it was, or admitted by
`should_block` and counted. -/
theorem tryReserve_entry (h : state.models.lookup model = some ms) (probePermits : ℤ)
    (probeRate : ℕ) :
    ∃ ms', (state.tryReserve model probePermits probeRate).1.models.lookup model = some ms' ∧
      SameSettings ms ms' ∧
      ((state.tryReserve model probePermits probeRate).2 = none ∧
          ms'.activeCount = ms.activeCount ∨
        (state.tryReserve model probePermits probeRate).2.isSome ∧
          (shouldBlock ms probePermits probeRate).1 = false ∧
          ms'.activeCount = ms.activeCount + 1) := by
  unfold tryReserve
  split
  · unfold tryReserveUnprobed modelOr
    rw [h, Option.getD_some]
    dsimp only
    split
    · exact ⟨_, setModel_lookup .., ⟨rfl, rfl, rfl⟩, .inl ⟨rfl, rfl⟩⟩
    · next hfree =>
      exact ⟨_, setModel_lookup .., ⟨rfl, rfl, rfl⟩,
        .inr ⟨rfl, Bool.eq_false_of_not_eq_true hfree, rfl⟩⟩
  · unfold tryReserveProbed checkLimit casLoop
    rw [h]
    dsimp only
    split
    · exact ⟨_, setModel_lookup .., ⟨rfl, rfl, rfl⟩, .inl ⟨rfl, rfl⟩⟩
    next hfree =>
    split
    · refine ⟨{ ms with probeCounter := (shouldBlock ms probePermits probeRate).2 }, ?_,
        ⟨rfl, rfl, rfl⟩, .inl ⟨rfl, rfl⟩⟩
      dsimp only
      split
      · exact setModel_lookup ..
      · exact setModel_lookup ..
    · exact ⟨_, grant_lookup (setModel_lookup ..) _, ⟨rfl, rfl, rfl⟩,
        .inr ⟨rfl, Bool.eq_false_of_not_eq_true hfree, rfl⟩⟩

theorem subActive_lookup (h : state.models.lookup model = some ms) :
    (state.subActive model).models.lookup model =
      some { ms with activeCount := ms.activeCount - 1 } :=
  modifyModel_lookup h _

theorem touch_lookup (h : state.models.lookup model = some ms) (now : Millis) :
    (state.touch model now).models.lookup model = some { ms with lastActiveAt := now } :=
  modifyModel_lookup h _

end ProviderVramState

/-- The entry of the model after one of its permits is dropped. -/
theorem VramPool.drop_lookup {pool : VramPool} {id : ProviderId} {model : String} {ms : ModelState}
    (h : (pool.provider id).models.lookup model = some ms) (kvMb : ℕ) (now : Millis) :
    ((pool.drop (.withLastActive kvMb id model) now).provider id).models.lookup model =
      some { ms with activeCount := ms.activeCount - 1, lastActiveAt := now } := by
  have hkv : ((pool.provider id).subReserved kvMb).models.lookup model = some ms := h
  have hactive := ProviderVramState.subActive_lookup hkv
  have hlast := ProviderVramState.touch_lookup hactive now
  simpa [drop, dropKv, dropActive, dropLastActive, dropTotal, VramPermit.withLastActive,
    provider_setProvider, ProviderVramState.subTotal] using hlast

/-! ## Runs -/

/-- The pool and the permits of one model that are out. -/
structure ModelRequests where
  pool : VramPool
  held : List VramPermit

inductive RequestEvent
  | reserve
  /-- The permit at a position of the list is dropped. -/
  | drop (k : ℕ) (now : Millis)
  /-- `set_dispatch_blocked`. -/
  | block (value : Bool)

/-- `set_dispatch_blocked`. -/
def VramPool.setDispatchBlocked (pool : VramPool) (id : ProviderId) (model : String)
    (value : Bool) : VramPool :=
  pool.setProvider id ((pool.provider id).modifyModel model fun ms =>
    { ms with dispatchBlocked := value })

namespace ModelRequests
variable (id : ProviderId) (model : String)

def event (s : ModelRequests) : RequestEvent → ModelRequests
  | .reserve =>
    let (pool, permit) := s.pool.tryReserve id model
    { pool, held := s.held ++ permit.toList }
  | .drop k now =>
    match s.held[k]? with
    | some permit => { pool := s.pool.drop permit now, held := s.held.eraseIdx k }
    | none => s
  | .block value => { s with pool := s.pool.setDispatchBlocked id model value }

/-- The invariant of the runs from `pool₀`, in which the model has the entry `ms₀`. -/
structure Limited (pool₀ : VramPool) (ms₀ : ModelState) (s : ModelRequests) : Prop where
  probePermits : s.pool.probePermits = pool₀.probePermits
  probeRate : s.pool.probeRate = pool₀.probeRate
  entry : ∃ ms, (s.pool.provider id).models.lookup model = some ms ∧
    ms.maxConcurrent = ms₀.maxConcurrent ∧ ms.limit = ms₀.limit ∧
    ms.activeCount = s.held.length
  permits : ∀ permit ∈ s.held, ∃ kvMb, permit = .withLastActive kvMb id model
  hardCap : (s.held.length : ℤ) ≤ ms₀.limit + max pool₀.probePermits 0
  limit : pool₀.probePermits ≤ 0 ∨ pool₀.probeRate = 0 → s.held.length ≤ ms₀.limit

variable {id model} {pool₀ : VramPool} {ms₀ : ModelState} {s : ModelRequests}

theorem reserve_limited (hlimit : 0 < ms₀.maxConcurrent) (h : Limited id model pool₀ ms₀ s) :
    Limited id model pool₀ ms₀ (s.event id model .reserve) := by
  obtain ⟨ms, hlookup, hmax, hms, hactive⟩ := h.entry
  obtain ⟨ms', hlookup', hsame, hcases⟩ := ProviderVramState.tryReserve_entry hlookup
    s.pool.probePermits s.pool.probeRate
  have hentry' : ((s.pool.tryReserve id model).1.provider id).models.lookup model = some ms' := by
    rw [VramPool.tryReserve, VramPool.provider_setProvider, if_pos rfl]
    exact hlookup'
  have hmax' : ms'.maxConcurrent = ms₀.maxConcurrent := hsame.maxConcurrent.trans hmax
  have hms' : ms'.limit = ms₀.limit := hsame.limit.trans hms
  rcases hcases with ⟨hnone, hcount⟩ | ⟨hsome, hfree, hcount⟩
  · have hpermit : (s.pool.tryReserve id model).2 = none := by
      simp [VramPool.tryReserve, hnone]
    have hheld : (s.event id model .reserve).held = s.held := by
      simp [event, hpermit]
    exact ⟨h.probePermits, h.probeRate,
      ⟨ms', hentry', hmax', hms', by rw [hheld, hcount, hactive]⟩, hheld ▸ h.permits,
      hheld ▸ h.hardCap, hheld ▸ h.limit⟩
  · obtain ⟨kvMb, hkv⟩ := Option.isSome_iff_exists.mp hsome
    have hpermit : (s.pool.tryReserve id model).2 = some (.withLastActive kvMb id model) := by
      simp [VramPool.tryReserve, hkv]
    have hheld : (s.event id model .reserve).held =
        s.held ++ [.withLastActive kvMb id model] := by
      simp [event, hpermit]
    have hlen : (s.event id model .reserve).held.length = s.held.length + 1 := by
      rw [hheld, List.length_append, List.length_singleton]
    have hadmitted := admitted_of_not_blocked (hmax ▸ hlimit) hfree
    have hhard := hadmitted.belowHardCap
    have hbelow := hadmitted.belowLimit
    rw [h.probePermits, h.probeRate] at hbelow
    rw [h.probePermits] at hhard
    rw [hms, hactive] at hhard hbelow
    refine ⟨h.probePermits, h.probeRate, ⟨ms', hentry', hmax', hms', by omega⟩, ?_, by omega,
      fun hoff => by have := hbelow hoff; omega⟩
    intro permit hmem
    rw [hheld] at hmem
    rcases List.mem_append.mp hmem with hmem | hmem
    · exact h.permits permit hmem
    · exact ⟨kvMb, List.mem_singleton.mp hmem⟩

theorem drop_limited (h : Limited id model pool₀ ms₀ s) (k : ℕ) (now : Millis) :
    Limited id model pool₀ ms₀ (s.event id model (.drop k now)) := by
  unfold event
  dsimp only
  split
  · next permit hk =>
    obtain ⟨ms, hlookup, hmax, hms, hactive⟩ := h.entry
    obtain ⟨hlt, hget⟩ := List.getElem?_eq_some_iff.mp hk
    have hlen := List.length_eraseIdx_of_lt hlt
    obtain ⟨kvMb, hpermit⟩ := h.permits _ (List.mem_of_getElem? hk)
    have hdrop := VramPool.drop_lookup hlookup kvMb now
    have hhard := h.hardCap
    have hlimit := h.limit
    subst hpermit
    refine ⟨h.probePermits, h.probeRate, ⟨_, hdrop, hmax, hms, ?_⟩, ?_, ?_, ?_⟩
    · show ms.activeCount - 1 = (s.held.eraseIdx k).length
      omega
    · intro permit hmem
      exact h.permits permit (List.mem_of_mem_eraseIdx hmem)
    · dsimp only
      omega
    · intro hoff
      have := hlimit hoff
      dsimp only
      omega
  · exact h

theorem block_limited (h : Limited id model pool₀ ms₀ s) (value : Bool) :
    Limited id model pool₀ ms₀ (s.event id model (.block value)) := by
  obtain ⟨ms, hlookup, hmax, hms, hactive⟩ := h.entry
  have hset := ProviderVramState.modifyModel_lookup hlookup fun ms =>
    { ms with dispatchBlocked := value }
  refine ⟨h.probePermits, h.probeRate,
    ⟨{ ms with dispatchBlocked := value }, ?_, hmax, hms, hactive⟩, h.permits, h.hardCap, h.limit⟩
  rw [event, VramPool.setDispatchBlocked, VramPool.provider_setProvider, if_pos rfl]
  exact hset

/-- No permit is granted for a model whose dispatch is blocked. -/
theorem tryReserve_blocked {pool : VramPool} {ms : ModelState}
    (hlookup : (pool.provider id).models.lookup model = some ms) (hblocked : ms.dispatchBlocked) :
    (pool.tryReserve id model).2 = none := by
  obtain ⟨ms', -, -, ⟨hnone, -⟩ | ⟨-, hfree, -⟩⟩ := ProviderVramState.tryReserve_entry hlookup
    pool.probePermits pool.probeRate
  · simp [VramPool.tryReserve, hnone]
  · simp [shouldBlock, hblocked] at hfree

theorem run_limited (hlimit : 0 < ms₀.maxConcurrent)
    (hknown : (pool₀.provider id).models.lookup model = some ms₀) (hidle : ms₀.activeCount = 0)
    (events : List RequestEvent) :
    Limited id model pool₀ ms₀ (events.foldl (event id model) { pool := pool₀, held := [] }) := by
  refine foldl_invariant ?_ ?_ events
  · refine ⟨rfl, rfl, ⟨ms₀, hknown, rfl, rfl, hidle⟩, by simp, ?_, fun _ => Nat.zero_le _⟩
    show ((0 : ℕ) : ℤ) ≤ _
    omega
  · intro t e ht
    cases e with
    | reserve => exact reserve_limited hlimit ht
    | drop k now => exact drop_limited ht k now
    | block value => exact block_limited ht value

/-- In every run of reservations and drops from a pool that knows the model, with a limit and no
permit out, the permits that are out stay within the limit plus the probe permits, within the limit
without probing, and none is granted while dispatch is blocked. -/
theorem permits_within_limit (id : ProviderId) (model : String) (pool : VramPool) (ms : ModelState)
    (hknown : (pool.provider id).models.lookup model = some ms) (hidle : ms.activeCount = 0)
    (hlimit : 0 < ms.maxConcurrent) (events : List RequestEvent) :
    let s := events.foldl (event id model) { pool, held := [] }
    (s.held.length : ℤ) ≤ ms.limit + max pool.probePermits 0 ∧
      (pool.probePermits = 0 ∨ pool.probeRate = 0 → s.held.length ≤ ms.limit) ∧
      ∀ ms', (s.pool.provider id).models.lookup model = some ms' → ms'.dispatchBlocked →
        (s.pool.tryReserve id model).2 = none := by
  intro s
  have h : Limited id model pool ms s := run_limited hlimit hknown hidle events
  refine ⟨h.hardCap, fun hoff => h.limit (hoff.imp_left le_of_eq), ?_⟩
  intro ms' hlookup hblocked
  exact tryReserve_blocked hlookup hblocked

/-- An unprobed provider with a limit of 2 under the default probe settings (one permit above the
limit at every third attempt): four reservations get three permits. -/
theorem three_permits_with_probe :
    let pool := VramPool.new.setProvider 0
      (ProviderVramState.fresh.setModel "m" (.new 0 true 128 2))
    let events : List RequestEvent := [.reserve, .reserve, .reserve, .reserve]
    let s := events.foldl (event 0 "m") { pool, held := [] }
    s.held.length = 3 ∧ (s.held.length : ℤ) ≤ 2 + max pool.probePermits 0 := by
  intro pool events s
  have hbound := permits_within_limit 0 "m" pool (.new 0 true 128 2) rfl rfl (by decide) events
  exact ⟨by decide, hbound.1⟩

end ModelRequests

end Veronex
