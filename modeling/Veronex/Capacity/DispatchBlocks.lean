import Veronex.Capacity.SyncCalls
import Veronex.Capacity.LoadedModels
import Veronex.Capacity.Reservation

/-! # Blocked models

The governor of a pass blocks the dispatch of models; the next pass resets the models that are
marked loaded. Passes, reservations, dropped permits and the other calls of the pool interleave.

`blocked_models_loaded`: as long as no blocked model is unloaded and none is blocked after it was
unloaded, every blocked model is marked loaded, and the reset of a pass leaves none blocked.
-/
namespace Veronex
set_option autoImplicit false
open Concurrency

namespace ProviderVramState
variable {state state' state'' : ProviderVramState} {model : String} {ms : ModelState}

/-- `is_dispatch_blocked` -/
def isDispatchBlocked (state : ProviderVramState) (model : String) : Bool :=
  (state.models.lookup model).elim false ModelState.dispatchBlocked

/-- Every model that is blocked is marked loaded. -/
def BlockedLoaded (state : ProviderVramState) : Prop :=
  ∀ model, state.isDispatchBlocked model → state.hasLoaded model

/-! ## What a call does to the flags -/

theorem setModel_isDispatchBlocked (ms : ModelState) (j : String) :
    (state.setModel model ms).isDispatchBlocked j =
      if j = model then ms.dispatchBlocked else state.isDispatchBlocked j := by
  unfold isDispatchBlocked setModel
  by_cases hj : j = model
  · subst hj
    simp
  · simp [AList.lookup_insert_ne hj, hj]

/-- No model gets blocked. -/
def BlocksNone (state state' : ProviderVramState) : Prop :=
  ∀ model, state'.isDispatchBlocked model → state.isDispatchBlocked model

/-- No model gets blocked and none is unloaded. -/
structure Shields (state state' : ProviderVramState) : Prop where
  blocked : BlocksNone state state'
  loaded : ∀ model, state.hasLoaded model → state'.hasLoaded model

theorem Shields.refl (state : ProviderVramState) : Shields state state :=
  ⟨fun _ h => h, fun _ h => h⟩

theorem Shields.trans (h : Shields state state') (h' : Shields state' state'') :
    Shields state state'' :=
  ⟨fun m hm => h.blocked m (h'.blocked m hm), fun m hm => h'.loaded m (h.loaded m hm)⟩

theorem Shields.blockedLoaded (h : Shields state state') (hall : state.BlockedLoaded) :
    state'.BlockedLoaded :=
  fun m hm => h.loaded m (hall m (h.blocked m hm))

theorem shields_of_models (h : state'.models = state.models) : Shields state state' := by
  refine ⟨fun m hm => ?_, fun m hm => ?_⟩
  · rwa [isDispatchBlocked, h] at hm
  · rwa [hasLoaded, h]

theorem blocksNone_setModel (h : ms.dispatchBlocked → state.isDispatchBlocked model) :
    BlocksNone state (state.setModel model ms) := by
  intro m hm
  rw [setModel_isDispatchBlocked] at hm
  split at hm
  · next heq => exact heq ▸ h hm
  · exact hm

theorem shields_setModel (hblocked : ms.dispatchBlocked → state.isDispatchBlocked model)
    (hloaded : state.hasLoaded model → ms.isLoaded) : Shields state (state.setModel model ms) := by
  refine ⟨blocksNone_setModel hblocked, fun m hm => ?_⟩
  rw [setModel_hasLoaded]
  split
  · next heq => exact hloaded (heq ▸ hm)
  · exact hm

/-- A write to the entry of a model, made first where it is missing. -/
theorem shields_modelOr (fresh : ModelState) {ms' : ModelState} (hfresh : fresh.dispatchBlocked = false)
    (hblocked : ms'.dispatchBlocked = (state.modelOr model fresh).dispatchBlocked)
    (hloaded : ms'.isLoaded = (state.modelOr model fresh).isLoaded) :
    Shields state (state.setModel model ms') := by
  cases hlookup : state.models.lookup model with
  | none =>
    rw [modelOr, hlookup, Option.getD_none] at hblocked
    refine shields_setModel (fun h => ?_) (fun h => ?_)
    · rw [hblocked, hfresh] at h
      cases h
    · simp [hasLoaded, hlookup] at h
  | some ms =>
    rw [modelOr, hlookup, Option.getD_some] at hblocked hloaded
    refine shields_setModel (fun h => ?_) (fun h => ?_)
    · simpa [isDispatchBlocked, hlookup, hblocked] using h
    · simpa [hasLoaded, hlookup, hloaded] using h

theorem shields_modifyModel {f : ModelState → ModelState}
    (hblocked : ∀ ms, (f ms).dispatchBlocked → ms.dispatchBlocked)
    (hloaded : ∀ ms, ms.isLoaded → (f ms).isLoaded) : Shields state (state.modifyModel model f) := by
  unfold modifyModel
  split
  · next ms hlookup =>
    refine shields_setModel (fun h => ?_) (fun h => hloaded ms ?_)
    · simpa [isDispatchBlocked, hlookup] using hblocked ms h
    · simpa [hasLoaded, hlookup] using h
  · exact .refl state

theorem shields_load (weightMb : ℕ) (now : Millis) :
    Shields state (state.load model weightMb now) := by
  have hcache : Shields state { state with
      cachedLoadedWeightMb := state.adjustedCache model weightMb } := shields_of_models rfl
  refine hcache.trans (shields_setModel (fun h => ?_) fun _ => ?_)
  · unfold loadedModel at h
    split at h
    · next ms hlookup => simpa [isDispatchBlocked, hlookup] using h
    · simp [ModelState.new] at h
  · unfold loadedModel
    split <;> rfl

theorem shields_setProfile (profile : ModelVramProfile) :
    Shields state (state.setProfile model profile) := by
  unfold setProfile
  split
  · next ms hlookup =>
    refine shields_setModel (fun h => ?_) (fun h => ?_)
    · simpa [isDispatchBlocked, hlookup] using h
    · simpa [hasLoaded, hlookup] using h
  · next hlookup =>
    refine shields_setModel (fun h => ?_) (fun h => ?_)
    · simp [ModelState.new] at h
    · simp [hasLoaded, hlookup] at h

theorem blocksNone_unload (now : Millis) : BlocksNone state (state.unload model now).1 := by
  unfold unload
  split
  · next ms hlookup =>
    intro m hm
    rw [setModel_isDispatchBlocked] at hm
    split at hm
    · next heq =>
      rw [heq, isDispatchBlocked, hlookup]
      exact hm
    · exact hm
  · exact fun _ h => h

/-- An unload of a model that is not blocked. -/
theorem unload_blockedLoaded (hall : state.BlockedLoaded)
    (hfree : ¬ state.isDispatchBlocked model) (now : Millis) :
    (state.unload model now).1.BlockedLoaded := by
  intro m hm
  have hbefore := blocksNone_unload now m hm
  have hne : m ≠ model := by
    rintro rfl
    exact hfree hbefore
  rw [(VramPool.unload_flags state model now).2, if_neg hne]
  exact hall m hbefore

theorem setDispatchBlocked_blockedLoaded (hall : state.BlockedLoaded)
    (hloaded : state.hasLoaded model) (value : Bool) :
    (state.setDispatchBlocked model value).BlockedLoaded := by
  have hkeeps : ∀ j, (state.setDispatchBlocked model value).hasLoaded j = state.hasLoaded j := by
    have hsame : SameLoads state (state.setDispatchBlocked model value) :=
      sameLoads_modifyModel fun _ => ⟨rfl, rfl⟩
    exact hsame.flags
  intro m hm
  rw [hkeeps]
  by_cases heq : m = model
  · exact heq ▸ hloaded
  · refine hall m ?_
    rwa [isDispatchBlocked, setDispatchBlocked, modifyModel_lookup_of_ne heq] at hm

/-- The reset leaves no model blocked. -/
theorem resetGovernor_unblocked (hall : state.BlockedLoaded) (model : String) :
    state.resetGovernor.isDispatchBlocked model = false := by
  have hmodel := hall model
  rw [isDispatchBlocked, resetGovernor_lookup]
  cases hlookup : state.models.lookup model with
  | none => rfl
  | some ms =>
    simp only [isDispatchBlocked, hasLoaded, hlookup, Option.elim_some] at hmodel
    simp only [Option.map_some, Option.elim_some]
    cases hloaded : ms.isLoaded with
    | true => rfl
    | false =>
      cases hblocked : ms.dispatchBlocked with
      | false => exact hblocked
      | true => rw [hmodel hblocked] at hloaded; cases hloaded

end ProviderVramState

/-! ## Reservations and permits -/

section Reservations
open ProviderVramState

theorem reserveStep_shields {r : Reservation} {pool : VramPool} {env : Surroundings}
    {state state' : ProviderVramState} {pc : ReservePc}
    (h : r.reserveStep pool env state = some (state', pc)) : Shields state state' := by
  unfold Reservation.reserveStep at h
  split at h
  -- the loads
  case h_1 | h_2 | h_7 | h_8 | h_10 =>
    obtain ⟨rfl, -⟩ := Prod.mk.inj (Option.some.inj h)
    exact .refl state
  case h_3 =>
    obtain ⟨rfl, -⟩ := Prod.mk.inj (Option.some.inj h)
    exact shields_modelOr (.new 0 false 0 1) rfl rfl rfl
  case h_4 | h_15 =>
    obtain ⟨rfl, -⟩ := Prod.mk.inj (Option.some.inj h)
    exact shields_modifyModel (fun _ hb => hb) (fun _ hl => hl)
  case h_5 | h_11 | h_16 =>
    obtain ⟨rfl, -⟩ := Prod.mk.inj (Option.some.inj h)
    exact shields_of_models rfl
  case h_6 =>
    dsimp only at h
    split at h
    · obtain ⟨rfl, -⟩ := Prod.mk.inj (Option.some.inj h)
      exact .refl state
    · next ms hlookup =>
      obtain ⟨rfl, -⟩ := Prod.mk.inj (Option.some.inj h)
      refine shields_setModel (fun hb => ?_) (fun hl => ?_)
      · simpa [isDispatchBlocked, hlookup] using hb
      · simpa [hasLoaded, hlookup] using hl
  case h_9 =>
    split at h
    · obtain ⟨rfl, -⟩ := Prod.mk.inj (Option.some.inj h)
      exact .refl state
    · obtain ⟨rfl, -⟩ := Prod.mk.inj (Option.some.inj h)
      exact .refl state
  case h_12 =>
    split at h
    · obtain ⟨rfl, -⟩ := Prod.mk.inj (Option.some.inj h)
      exact shields_of_models rfl
    · obtain ⟨rfl, -⟩ := Prod.mk.inj (Option.some.inj h)
      exact .refl state
  case h_13 =>
    obtain ⟨rfl, -⟩ := Prod.mk.inj (Option.some.inj h)
    unfold markLoading
    split
    · next ms hlookup =>
      refine shields_setModel (fun hb => ?_) (fun _ => rfl)
      simpa [isDispatchBlocked, hlookup] using hb
    · exact shields_setModel (fun hb => by simp [ModelState.new] at hb) (fun _ => rfl)
  case h_14 =>
    obtain ⟨rfl, -⟩ := Prod.mk.inj (Option.some.inj h)
    exact shields_modelOr _ rfl rfl rfl
  case h_17 => cases h

/-- A step of one provider, seen from any. -/
theorem shields_setProvider {pool : VramPool} {id : ProviderId} {state : ProviderVramState}
    (h : Shields (pool.provider id) state) (j : ProviderId) :
    Shields (pool.provider j) ((pool.setProvider id state).provider j) := by
  rw [VramPool.provider_setProvider]
  split
  · next hj => exact hj ▸ h
  · exact .refl _

theorem permitStep_shields {r : Reservation} {pool pool' : VramPool} {env : Surroundings}
    {pc : ReservePc} (h : r.permitStep pool env = some (pool', pc)) (j : ProviderId) :
    Shields (pool.provider j) (pool'.provider j) := by
  unfold Reservation.permitStep at h
  split at h
  · have hpool : pool' = pool := by
      repeat' split at h
      all_goals exact (Prod.mk.inj (Option.some.inj h)).1.symm
    exact hpool ▸ .refl _
  · obtain ⟨rfl, -⟩ := Prod.mk.inj (Option.some.inj h)
    unfold VramPool.dropKv
    split
    · refine shields_setProvider ?_ j
      exact shields_of_models rfl
    · exact .refl _
  · obtain ⟨rfl, -⟩ := Prod.mk.inj (Option.some.inj h)
    unfold VramPool.dropActive
    split
    · refine shields_setProvider ?_ j
      exact shields_modifyModel (fun _ hb => hb) (fun _ hl => hl)
    · exact .refl _
  · obtain ⟨rfl, -⟩ := Prod.mk.inj (Option.some.inj h)
    unfold VramPool.dropLastActive
    split
    · refine shields_setProvider ?_ j
      exact shields_modifyModel (fun _ hb => hb) (fun _ hl => hl)
    · exact .refl _
  · obtain ⟨rfl, -⟩ := Prod.mk.inj (Option.some.inj h)
    unfold VramPool.dropTotal
    split
    · refine shields_setProvider ?_ j
      exact shields_of_models rfl
    · exact .refl _
  · cases h

theorem reservation_shields {r r' : Reservation} {pool pool' : VramPool} {env : Surroundings}
    (h : r.step pool env = some (pool', r')) (j : ProviderId) :
    Shields (pool.provider j) (pool'.provider j) := by
  unfold Reservation.step at h
  split at h
  · next state pc hstep =>
    obtain ⟨rfl, -⟩ := Prod.mk.inj (Option.some.inj h)
    exact shields_setProvider (reserveStep_shields hstep) j
  · obtain ⟨⟨pool₁, pc⟩, hpermit, heq⟩ := Option.map_eq_some_iff.mp h
    obtain ⟨rfl, -⟩ := Prod.mk.inj heq
    exact permitStep_shields hpermit j

end Reservations

/-! ## Passes beside reservations -/

/-- An instance: its reservations, what its pool keeps of a provider besides, and its passes. -/
structure Governed where
  reservations : Reservations
  lastMemAvailableMb : ProviderId → ℕ
  apuMaxConcurrentCache : ProviderId → ℕ
  passes : List SyncPass

inductive GovernAction
  /-- A reservation, a dropped permit, an eviction by the planner or another call of the pool. -/
  | reserve (a : ReserveAction)
  /-- A pass begins; the report is what it will hear. -/
  | sync (id : ProviderId) (r : SyncReport)
  /-- The next call of a pass. -/
  | call (k : ℕ) (now : Millis)

namespace Governed

def start : Governed :=
  { reservations := .start, lastMemAvailableMb := fun _ => 0
    apuMaxConcurrentCache := fun _ => 4, passes := [] }

variable (s : Governed)

def pool : VramPool := s.reservations.pool

def synced : SyncedPool :=
  { pool := s.pool, lastMemAvailableMb := s.lastMemAvailableMb
    apuMaxConcurrentCache := s.apuMaxConcurrentCache }

def setSynced (p : SyncedPool) : Governed :=
  { s with
    reservations.pool := p.pool
    lastMemAvailableMb := p.lastMemAvailableMb
    apuMaxConcurrentCache := p.apuMaxConcurrentCache }

def step (s : Governed) : GovernAction → Option Governed
  | .reserve a => (s.reservations.step a).map fun reservations => { s with reservations }
  | .sync id r => some { s with passes := s.passes ++ [{ id, rest := SyncProgram.syncCalls r }] }
  | .call k now => do
    let pass ← s.passes[k]?
    let ⟨c, rest⟩ ← pass.rest.next
    let (reply, synced) := s.synced.handle pass.id now c
    return { s.setSynced synced with passes := advance s.passes k { pass with rest := rest reply } [] }

/-- A call that would leave a model blocked that is not marked loaded. -/
def strands (state : ProviderVramState) : SyncCall → Bool
  | .markModelUnloaded model => state.isDispatchBlocked model
  | .setDispatchBlocked model true => !state.hasLoaded model
  | _ => false

/-- No model is unloaded while it is blocked, and none is blocked once it is unloaded. -/
def Spares (s : Governed) : GovernAction → Bool
  | .reserve (.update (.markModelUnloaded id model _)) =>
    !(s.pool.provider id).isDispatchBlocked model
  | .call k _ =>
    match s.passes[k]? with
    | some pass => pass.rest.next.all fun call => !strands (s.pool.provider pass.id) call.1
    | none => true
  | _ => true

end Governed

section Sync
open ProviderVramState
variable {now : Millis} {p : SyncedProvider}

theorem setMaxConcurrent_shields (model : String) (limit : ℕ) :
    Shields p.state (p.setMaxConcurrent model limit).state := by
  unfold SyncedProvider.setMaxConcurrent
  refine shields_setModel (fun hb => ?_) (fun hl => ?_)
  · split at hb
    · next ms hlookup => simpa [isDispatchBlocked, hlookup] using hb
    · simp [ModelState.new] at hb
  · split
    · next ms hlookup => simpa [hasLoaded, hlookup] using hl
    · next hlookup => simp [hasLoaded, hlookup] at hl

/-- Only two of the calls block or unload. -/
theorem handle_shields (c : SyncCall) (hblock : ∀ model, c ≠ .setDispatchBlocked model true)
    (hunload : ∀ model, c ≠ .markModelUnloaded model) :
    Shields p.state (c.handle now p).2.state := by
  cases c with
  | safetyPermil | lastMemAvailableMb | setLastMemAvailableMb | loadedModelNames
    | providerActiveRequests | activeRequests | maxConcurrent | sumLoadedMaxConcurrent
    | baselineTps | baselineP95Ms | stableCycleCount => exact .refl _
  | setSafetyPermil | setTotalVram => exact shields_of_models rfl
  | decaySafetyPermil =>
    refine shields_of_models ?_
    show p.state.decaySafety.models = _
    unfold decaySafety
    split <;> rfl
  | markModelLoaded model weightMb => exact shields_load weightMb now
  | markModelUnloaded model => exact absurd rfl (hunload model)
  | setModelProfile model profile => exact shields_setProfile profile
  | setDispatchBlocked model value =>
    cases value with
    | true => exact absurd rfl (hblock model)
    | false => exact shields_modifyModel (fun _ hb => by cases hb) (fun _ hl => hl)
  | setGovernorCap | incrementStableCycleCount | resetStableCycleCount =>
    exact shields_modifyModel (fun _ hb => hb) (fun _ hl => hl)
  | setMaxConcurrent model limit => exact setMaxConcurrent_shields model limit
  | setBaselineTps | setBaselineP95Ms => exact shields_modelOr _ rfl rfl rfl

/-- A call keeps the blocked models loaded, unless it strands one. -/
theorem handle_blockedLoaded (hall : p.state.BlockedLoaded) (c : SyncCall)
    (hspares : Governed.strands p.state c = false) : (c.handle now p).2.state.BlockedLoaded := by
  by_cases hblock : ∃ model, c = .setDispatchBlocked model true
  · obtain ⟨model, rfl⟩ := hblock
    exact setDispatchBlocked_blockedLoaded hall (by simpa [Governed.strands] using hspares) true
  by_cases hunload : ∃ model, c = .markModelUnloaded model
  · obtain ⟨model, rfl⟩ := hunload
    exact unload_blockedLoaded hall (by simpa [Governed.strands] using hspares) now
  · exact (handle_shields c (fun m h => hblock ⟨m, h⟩) fun m h => hunload ⟨m, h⟩).blockedLoaded hall

/-! ## A pass without pressure -/

theorem restore_blockedLoaded (h : p.state.BlockedLoaded) (r : SyncReport) :
    (p.restore r).state.BlockedLoaded := by
  have hsafety : (p.restoreSafety r.budget).state.BlockedLoaded := by
    unfold SyncedProvider.restoreSafety
    split
    · split
      · exact (shields_of_models rfl).blockedLoaded h
      · exact h
    · exact h
  refine foldl_invariant (I := fun p : SyncedProvider => p.state.BlockedLoaded) hsafety
    (fun p profile hp => ?_) _
  unfold SyncedProvider.restoreLimit
  split
  · exact (setMaxConcurrent_shields _ _).blockedLoaded hp
  · exact hp

theorem relearn_shields (state : ProviderVramState) (model : String) :
    Shields state (state.relearn model) := by
  have hreset : Shields state (state.resetStableCycleCount model) :=
    shields_modifyModel (fun _ hb => hb) (fun _ hl => hl)
  have htps : ∀ st : ProviderVramState, Shields st (st.setBaselineTps model 0) :=
    fun _ => shields_modelOr (.new 0 false 128 1) rfl rfl rfl
  have hp95 : ∀ st : ProviderVramState, Shields st (st.setBaselineP95Ms model 0) :=
    fun _ => shields_modelOr (.new 0 false 128 1) rfl rfl rfl
  exact (hreset.trans (htps _)).trans (hp95 _)

theorem beforeGovernor_blockedLoaded (h : p.state.BlockedLoaded) (r : SyncReport)
    (o : OnlineReport) : (p.beforeGovernor r o).state.BlockedLoaded := by
  have hrestore := restore_blockedLoaded h r
  have hprobed : BlockedLoaded
      { (p.restore r).state with
        totalMb := o.vramTotalMb r.providerTotalVramMb }.decaySafety := by
    unfold decaySafety
    split
    · exact (shields_of_models rfl).blockedLoaded hrestore
    · exact (shields_of_models rfl).blockedLoaded hrestore
  unfold SyncedProvider.beforeGovernor SyncedProvider.trackDrift
  split
  · dsimp only
    split
    · exact foldl_invariant hprobed (fun st model hs => (relearn_shields st model).blockedLoaded hs) _
    · exact hprobed
  · exact hprobed

theorem analyze_blocksNone (r : SyncReport) (o : OnlineReport) (governorActive : Bool)
    (m : RunningModel) :
    BlocksNone p.state (SyncedProvider.analyze r o governorActive p m).state := by
  have haimd : ∀ (ms : ModelState) (x : AimdInput), (ms.aimd x).dispatchBlocked =
      ms.dispatchBlocked := by
    intro ms x
    unfold ModelState.aimd
    dsimp only
    repeat' split
    all_goals rfl
  have haimdLoaded : ∀ (ms : ModelState) (x : AimdInput), (ms.aimd x).isLoaded = ms.isLoaded := by
    intro ms x
    unfold ModelState.aimd
    dsimp only
    repeat' split
    all_goals rfl
  have hprofile : Shields p.state (p.state.setProfile m.name
      { weightMb := m.weightMb, kvPerRequestMb := m.kvPerReq }) := shields_setProfile _
  have hentry : ∀ (st : ProviderVramState) (x : AimdInput),
      BlocksNone st (st.modifyModel m.name fun ms => ms.aimd x) := by
    intro st x
    have hsame : Shields st (st.modifyModel m.name fun ms => ms.aimd x) :=
      shields_modifyModel (fun ms hb => by rwa [haimd] at hb) (fun ms hl => by rwa [haimdLoaded])
    exact hsame.blocked
  intro model hm
  exact hprofile.blocked model (hentry _ _ model hm)

theorem nudge_blocksNone (numParallel : ℕ) (rec : String × ℕ) :
    BlocksNone p.state (SyncedProvider.nudge numParallel p rec).state := by
  unfold SyncedProvider.nudge
  dsimp only
  split
  · exact fun _ h => h
  split
  · exact fun _ h => h
  split
  · exact fun _ h => h
  · exact (setMaxConcurrent_shields _ _).blocked

/-- No model is blocked. -/
def NoneBlocked (state : ProviderVramState) : Prop :=
  ∀ model, state.isDispatchBlocked model = false

theorem NoneBlocked.of_blocksNone {state state' : ProviderVramState} (hnone : NoneBlocked state)
    (h : BlocksNone state state') : NoneBlocked state' := by
  intro model
  refine Bool.eq_false_of_not_eq_true fun hblocked => ?_
  exact Bool.false_ne_true ((hnone model).symm.trans (h model hblocked))

/-- A pass that finds no pressure leaves no model blocked. -/
theorem syncProvider_noneBlocked (hall : p.state.BlockedLoaded) {r : SyncReport}
    {o : OnlineReport} (honline : r.online = some o)
    (hcalm : p.state.totalActiveCount ≤ r.numParallel) : NoneBlocked (p.syncProvider r).state := by
  have hbefore := beforeGovernor_blockedLoaded hall r o
  have htotal := SyncedProvider.beforeGovernor_total (p := p) r o
  set p₁ := p.beforeGovernor r o with hp₁
  have hgovernor : (p₁.state.governor r.numParallel o.queue).1 = p₁.state.resetGovernor := by
    unfold governor
    dsimp only
    rw [if_neg]
    rw [resetGovernor_totalActiveCount, htotal]
    omega
  have hreset : NoneBlocked p₁.state.resetGovernor := resetGovernor_unblocked hbefore
  have hunload : NoneBlocked (p₁.state.resetGovernor.unloadGone
      (o.psModels.map RunningModel.name) r.now) :=
    foldl_invariant hreset (fun _ _ h => h.of_blocksNone (blocksNone_unload r.now)) _
  have hload : NoneBlocked ((p₁.state.resetGovernor.unloadGone
      (o.psModels.map RunningModel.name) r.now).loadRunning o.psModels r.now) :=
    foldl_invariant hunload (fun _ m h => h.of_blocksNone (shields_load m.weightMb r.now).blocked) _
  have hfinal : ∀ (active : Bool) (p₂ : SyncedProvider), NoneBlocked p₂.state →
      NoneBlocked ((o.psModels.foldl (SyncedProvider.analyze r o active) p₂).nudgeAll r o).state := by
    intro active p₂ h₂
    have hanalyze := foldl_invariant (I := fun p : SyncedProvider => NoneBlocked p.state) h₂
      (fun _ m h => h.of_blocksNone (analyze_blocksNone r o active m)) o.psModels
    unfold SyncedProvider.nudgeAll
    split
    · exact foldl_invariant (I := fun p : SyncedProvider => NoneBlocked p.state) hanalyze
        (fun _ rec h => h.of_blocksNone (nudge_blocksNone r.numParallel rec)) _
    · exact hanalyze
  rw [SyncedProvider.syncProvider_eq honline, ← hp₁, hgovernor]
  exact hfinal _ _ hload

end Sync

namespace Governed
open ProviderVramState
variable {s t : Governed}

/-- In every provider, every model that is blocked is marked loaded. -/
def AllBlockedLoaded (s : Governed) : Prop := ∀ id, (s.pool.provider id).BlockedLoaded

theorem setProvider_blockedLoaded {pool : VramPool} {id : ProviderId} {state : ProviderVramState}
    (hall : ∀ j, (pool.provider j).BlockedLoaded) (h : state.BlockedLoaded) (j : ProviderId) :
    ((pool.setProvider id state).provider j).BlockedLoaded := by
  rw [VramPool.provider_setProvider]
  split
  · exact h
  · exact hall j

theorem reserve_allBlockedLoaded (hall : s.AllBlockedLoaded) {a : ReserveAction}
    (hspares : Spares s (.reserve a) = true) (h : s.step (.reserve a) = some t) : t.AllBlockedLoaded := by
  obtain ⟨reservations, hstep, rfl⟩ := Option.map_eq_some_iff.mp h
  intro j
  show (reservations.pool.provider j).BlockedLoaded
  cases a with
  | request id model distributed =>
    obtain rfl := Option.some.inj hstep
    exact hall j
  | step k env =>
    obtain ⟨r, -, hr⟩ := Option.bind_eq_some_iff.mp hstep
    obtain ⟨⟨pool', r'⟩, hr', hreturn⟩ := Option.bind_eq_some_iff.mp hr
    obtain rfl := Option.some.inj hreturn
    exact (reservation_shields hr' j).blockedLoaded (hall j)
  | drop k =>
    obtain ⟨r, -, hr⟩ := Option.bind_eq_some_iff.mp hstep
    split at hr
    · obtain rfl := Option.some.inj hr
      exact hall j
    · cases hr
  | update c =>
    simp only [Reservations.step] at hstep
    split at hstep
    · obtain rfl := Option.some.inj hstep
      cases c with
      | tryReserve | dropPermit => next hupdate => cases hupdate
      | setTotalVram id totalMb =>
        have htotal : BlockedLoaded { s.pool.provider id with totalMb } :=
          (shields_of_models rfl).blockedLoaded (hall id)
        exact setProvider_blockedLoaded hall htotal j
      | setModelProfile id model profile =>
        exact setProvider_blockedLoaded hall ((shields_setProfile profile).blockedLoaded (hall id)) j
      | markModelLoaded id model weightMb now =>
        exact setProvider_blockedLoaded hall ((shields_load weightMb now).blockedLoaded (hall id)) j
      | markModelUnloaded id model now =>
        have hunloaded : ((s.pool.setProvider id
            ((s.pool.provider id).unload model now).1).provider j).BlockedLoaded :=
          setProvider_blockedLoaded hall
            (unload_blockedLoaded (hall id) (by simpa [Spares] using hspares) now) j
        show ((s.pool.markModelUnloaded id model now).provider j).BlockedLoaded
        unfold VramPool.markModelUnloaded
        dsimp only
        split
        · rwa [VramPool.provider_countUnload]
        · exact hunloaded
    · cases hstep

theorem call_allBlockedLoaded (hall : s.AllBlockedLoaded) {k : ℕ} {now : Millis}
    (hspares : Spares s (.call k now) = true) (h : s.step (.call k now) = some t) :
    t.AllBlockedLoaded := by
  obtain ⟨pass, hpass, hrest⟩ := Option.bind_eq_some_iff.mp h
  obtain ⟨⟨c, rest⟩, hnext, hreturn⟩ := Option.bind_eq_some_iff.mp hrest
  obtain rfl := Option.some.inj hreturn
  have hfree : strands (s.pool.provider pass.id) c = false := by
    simpa [Spares, hpass, hnext] using hspares
  have hkept : ((c.handle now (s.synced.provider pass.id)).2).state.BlockedLoaded :=
    handle_blockedLoaded (p := s.synced.provider pass.id) (hall pass.id) c hfree
  intro j
  show ((s.synced.handle pass.id now c).2.pool.provider j).BlockedLoaded
  rw [SyncedPool.handle_provider]
  split
  · exact hkept
  · exact hall j

theorem run_allBlockedLoaded (h : Run step (fun s a => Spares s a) start s) : s.AllBlockedLoaded := by
  refine h.invariant (I := AllBlockedLoaded) ?_ fun x y a _ hx hok hs => ?_
  · intro id model hblocked
    cases hblocked
  · cases a with
    | reserve a => exact reserve_allBlockedLoaded hx hok hs
    | sync id r =>
      obtain rfl := Option.some.inj hs
      exact hx
    | call k now => exact call_allBlockedLoaded hx hok hs

/-- In every run of passes, evictions, reservations and drops in which no model is unloaded while it
is blocked, and none is blocked once it is unloaded, every blocked model is marked loaded; the reset
of the next pass unblocks it, and a pass without pressure leaves it so. -/
theorem blocked_models_loaded (h : Run step (fun s a => Spares s a) start s) (id : ProviderId) :
    (∀ model, (s.pool.provider id).isDispatchBlocked model →
        (s.pool.provider id).hasLoaded model ∧
          (s.pool.provider id).resetGovernor.isDispatchBlocked model = false) ∧
      ∀ r o, r.online = some o → (s.pool.provider id).totalActiveCount ≤ r.numParallel →
        ∀ model, ((s.synced.provider id).syncProvider r).state.isDispatchBlocked model = false := by
  have hall := run_allBlockedLoaded h id
  refine ⟨fun model hblocked => ⟨hall model hblocked, resetGovernor_unblocked hall model⟩, ?_⟩
  intro r o honline hcalm
  exact syncProvider_noneBlocked (p := s.synced.provider id) hall honline hcalm

/-- Two requests for `a` on a provider with `a` and `b` loaded. -/
def twoRequests : List GovernAction :=
  let env : Surroundings := { seen := .new 0 true 128 0, now := 1, lease := 0 }
  let reserve : List GovernAction := List.replicate 6 (.reserve (.step 0 env))
  let again : List GovernAction := List.replicate 6 (.reserve (.step 1 env))
  [GovernAction.reserve (.update (.markModelLoaded 0 "a" 0 1)),
    GovernAction.reserve (.update (.markModelLoaded 0 "b" 0 1)),
    GovernAction.reserve (.request 0 "a" false)] ++ reserve ++
    [GovernAction.reserve (.request 0 "a" false)] ++ again

/-- A pass with `num_parallel` 1 while requests for `a` and, for a shorter time, `b` wait; the
provider still runs the models `names`. -/
def pressureReport (names : List String) (h : names.Nodup) : SyncReport :=
  { now := 1, numParallel := 1, numParallel_pos := Nat.one_pos, providerTotalVramMb := 0, budget := none, profiles := []
    online := some {
      agentTotalVramMb := none, hw := none, psModels := names.map RunningModel.unknown
      psNodup := by simpa [Function.comp_def, RunningModel.unknown] using h
      recommendations := []
      queue := {
        demand := fun model => if model = "b" then 1 else 0
        jobModel := [(7, "a")], enqueueAt := fun _ => some 1 } } }

/-- The provider still runs both: `b` is blocked and loaded, and the next reset unblocks it. -/
theorem pressure_blocks_loaded :
    ∃ s : Governed, (s.pool.provider 0).isDispatchBlocked "b" = true ∧
      (s.pool.provider 0).hasLoaded "b" = true ∧
        (s.pool.provider 0).resetGovernor.isDispatchBlocked "b" = false := by
  have hexec : (exec step (fun s a => Spares s a) start (twoRequests ++
      [.sync 0 (pressureReport ["a", "b"] (by decide))] ++ List.replicate 25 (.call 0 1))).any
        (fun s => (s.pool.provider 0).isDispatchBlocked "b") = true := by decide +kernel
  obtain ⟨s, hrun, hblocked⟩ := Run.exists_of_exec (fun _ _ h => h) hexec
  have hloaded := (blocked_models_loaded hrun 0).1 "b" hblocked
  exact ⟨s, hblocked, hloaded⟩

/-- The provider has let `b` go: the pass blocks it and then unloads it. -/
theorem blocked_model_unloaded :
    ¬ ∀ s, Run step (fun _ _ => True) start s → (∀ pass ∈ s.passes, pass.rest.next.isNone) →
      ∀ id model, (s.pool.provider id).isDispatchBlocked model →
        (s.pool.provider id).hasLoaded model := by
  intro hall
  have hexec : (exec step (fun _ _ => true) start (twoRequests ++
      [GovernAction.sync 0 (pressureReport ["a"] (by decide))] ++ List.replicate 21 (.call 0 1))).any
        (fun s => (s.pool.provider 0).isDispatchBlocked "b" &&
          !(s.pool.provider 0).hasLoaded "b" && s.passes.all fun pass => pass.rest.next.isNone) =
      true := by decide +kernel
  obtain ⟨s, hrun, hend⟩ := @Run.exists_of_exec _ _ _ _ (fun _ _ => True)
    (fun _ _ _ => trivial) _ _ _ hexec
  simp only [Bool.and_eq_true, Bool.not_eq_true', List.all_eq_true] at hend
  have hloaded := hall s hrun hend.2 0 "b" hend.1.1
  exact Bool.false_ne_true (hend.1.2.symm.trans hloaded)

end Governed

end Veronex
