import Veronex.Capacity.SyncCalls
import Veronex.Dispatch.Scoring
import Veronex.Foundation.Pool
import Veronex.Foundation.Trace

/-! # Ramping up

While a provider is in RampUp, every claim that gets to it limits the claimed model to one request,
and the passes of `sync_provider` raise limits again. Claims, the single calls of passes and dropped
permits interleave.

`ramp_up_kept_iff`: the claims lower the limit of a model at most once, and never after a pass raised
it, exactly if no claim gets to the provider for the model once a pass has raised its limit above 1.
-/
namespace Veronex
set_option autoImplicit false
open Concurrency

structure Ramping where
  scoring : Scoring
  lastMemAvailableMb : ProviderId → ℕ
  passes : List SyncPass

inductive RampEvent
  | claim (candidates : List LlmProvider) (model : String) (keyTier : Option KeyTier)
    (providerType : ProviderType)
  | sync (id : ProviderId) (r : SyncReport)
  /-- The next call of a pass. -/
  | call (k : ℕ) (now : Millis)
  | drop (permit : VramPermit) (now : Millis)
  /-- Time passes, the circuit breaker is told outcomes and the planner sets standby flags. -/
  | elapse (now : ℕ) (cb : CircuitBreakerMap) (isStandby : ProviderId → Bool)

namespace Ramping
variable (s : Ramping)

def synced : SyncedPool :=
  { pool := s.scoring.pool, lastMemAvailableMb := s.lastMemAvailableMb
    apuMaxConcurrentCache := s.scoring.apuMaxConcurrentCache }

def setSynced (p : SyncedPool) : Ramping :=
  { s with
    scoring.pool := p.pool
    scoring.apuMaxConcurrentCache := p.apuMaxConcurrentCache
    lastMemAvailableMb := p.lastMemAvailableMb }

/-- The next call of a pass; nothing where there is none. -/
def callPass (k : ℕ) (now : Millis) : Option Ramping := do
  let pass ← s.passes[k]?
  let ⟨c, rest⟩ ← pass.rest.next
  let (reply, synced) := s.synced.handle pass.id now c
  return { s.setSynced synced with
    passes := advance s.passes k { pass with rest := rest reply } [] }

def event (s : Ramping) : RampEvent → Ramping
  | .claim candidates model keyTier providerType =>
    { s with scoring := (s.scoring.scoreAndClaim candidates model keyTier providerType).state }
  | .sync id r => { s with passes := s.passes ++ [{ id, rest := SyncProgram.syncCalls r }] }
  | .call k now => (s.callPass k now).getD s
  | .drop permit now => { s with scoring.pool := s.scoring.pool.drop permit now }
  | .elapse now cb isStandby => { s with scoring := { s.scoring with now, cb, isStandby } }

def maxConcurrent (id : ProviderId) (model : String) : ℕ := s.scoring.maxConcurrent id model

/-- A claim lowers the limit of a model to 1. -/
def Lowers (id : ProviderId) (model : String) (s : Ramping) : RampEvent → Prop
  | .claim candidates m keyTier providerType =>
    1 < s.maxConcurrent id model ∧
      (s.event (.claim candidates m keyTier providerType)).maxConcurrent id model = 1
  | _ => False

/-- A pass raises the limit of a model. -/
def Raises (id : ProviderId) (model : String) (s : Ramping) : RampEvent → Prop
  | .call k now => s.maxConcurrent id model < (s.event (.call k now)).maxConcurrent id model
  | _ => False

end Ramping

namespace Scoring

/-- A round of the claim loop for candidate `b` gets past the gates of the provider. -/
def Passes (s : Scoring) (id : ProviderId) (b : LlmProvider) (avail : ℤ) : Prop :=
  b.id = id ∧ 0 < avail ∧ (s.cb.isAllowed id s.now).2 = true

/-- The claim loop gets to the provider: no candidate before it is claimed. -/
def Reaches (id : ProviderId) (model : String) : List (LlmProvider × ℤ) → Scoring → Prop
  | [], _ => False
  | (provider, avail) :: rest, s =>
    s.Passes id provider avail ∨
      ∃ s' reason, s.tryProvider model provider avail = (s', .error reason) ∧
        Reaches id model rest s'

end Scoring

/-- A claim for the model gets to the provider while the limit is above 1. -/
def Ramping.Clamps (id : ProviderId) (model : String) (s : Ramping) : RampEvent → Prop
  | .claim candidates m keyTier providerType =>
    m = model ∧ 1 < s.maxConcurrent id model ∧
      s.scoring.Reaches id model (s.scoring.scored candidates model keyTier providerType)
  | _ => False

/-! ## What a claim does to a limit -/

namespace ProviderVramState
variable {state state' state'' : ProviderVramState} {model : String} {ms : ModelState}

/-- No limit changes, except that a model may get an entry, with limit 1. -/
def SparesLimits (model : String) (state state' : ProviderVramState) : Prop :=
  ∀ m, state'.maxConcurrent m = state.maxConcurrent m ∨
    m = model ∧ state.maxConcurrent m = 0 ∧ state'.maxConcurrent m ≤ 1

theorem SparesLimits.refl (model : String) (state : ProviderVramState) :
    SparesLimits model state state := fun _ => .inl rfl

theorem SparesLimits.trans (h : SparesLimits model state state')
    (h' : SparesLimits model state' state'') : SparesLimits model state state'' := by
  intro m
  rcases h m with heq | ⟨hm, hzero, hle⟩ <;> rcases h' m with heq' | ⟨hm', hzero', hle'⟩
  · exact .inl (heq'.trans heq)
  · exact .inr ⟨hm', heq ▸ hzero', hle'⟩
  · exact .inr ⟨hm, hzero, by omega⟩
  · exact .inr ⟨hm, hzero, hle'⟩

theorem maxConcurrent_of_lookup (h : state.models.lookup model = some ms) :
    state.maxConcurrent model = ms.maxConcurrent := by
  rw [maxConcurrent, h]
  rfl

theorem setModel_maxConcurrent (m : String) :
    (state.setModel model ms).maxConcurrent m =
      if m = model then ms.maxConcurrent else state.maxConcurrent m := by
  unfold maxConcurrent setModel
  by_cases hm : m = model
  · subst hm
    simp
  · simp [AList.lookup_insert_ne hm, hm]

theorem sparesLimits_setModel (h : ms.maxConcurrent = state.maxConcurrent model ∨
    state.maxConcurrent model = 0 ∧ ms.maxConcurrent ≤ 1) :
    SparesLimits model state (state.setModel model ms) := by
  intro m
  rw [setModel_maxConcurrent]
  by_cases hm : m = model
  · rw [if_pos hm, hm]
    rcases h with heq | ⟨hzero, hle⟩
    · exact .inl heq
    · exact .inr ⟨rfl, hzero, hle⟩
  · rw [if_neg hm]
    exact .inl rfl

theorem sparesLimits_modelOr (fresh : ModelState) (hfresh : fresh.maxConcurrent = 1)
    (h : ms.maxConcurrent = (state.modelOr model fresh).maxConcurrent) :
    SparesLimits model state (state.setModel model ms) := by
  refine sparesLimits_setModel ?_
  cases hlookup : state.models.lookup model with
  | none =>
    rw [modelOr, hlookup, Option.getD_none, hfresh] at h
    exact .inr ⟨by simp [maxConcurrent, hlookup], by omega⟩
  | some old =>
    rw [modelOr, hlookup, Option.getD_some] at h
    exact .inl (h.trans (maxConcurrent_of_lookup hlookup).symm)

theorem checkLimit_sparesLimits (probePermits : ℤ) (probeRate : ℕ) :
    SparesLimits model state (state.checkLimit model probePermits probeRate).1 := by
  unfold checkLimit
  split
  · next old hlookup =>
    refine sparesLimits_setModel (.inl ?_)
    exact (maxConcurrent_of_lookup hlookup).symm
  · exact .refl _ _

theorem grant_sparesLimits (cost : ReserveCost) :
    SparesLimits model state (state.grant model cost) := by
  have htrack : ∀ st : ProviderVramState, SparesLimits model st (st.track model cost) := by
    intro st
    have hentry : SparesLimits model st (st.setModel model
        { st.modelOr model (.new cost.weightCost cost.needLoadWeight cost.kvMb 1) with
          activeKvMb := (st.modelOr model
            (.new cost.weightCost cost.needLoadWeight cost.kvMb 1)).activeKvMb + cost.kvMb
          activeCount := (st.modelOr model
            (.new cost.weightCost cost.needLoadWeight cost.kvMb 1)).activeCount + 1 }) :=
      sparesLimits_modelOr _ rfl rfl
    exact hentry
  have hload : ∀ st : ProviderVramState, SparesLimits model st (st.markLoading model cost) := by
    intro st
    unfold markLoading
    split
    · next old hlookup =>
      refine sparesLimits_setModel (.inl ?_)
      exact (maxConcurrent_of_lookup hlookup).symm
    · next hlookup =>
      refine sparesLimits_setModel (.inr ⟨?_, le_rfl⟩)
      simp [maxConcurrent, hlookup]
  have hreserved : SparesLimits model state
      { state with reservedKvMb := state.reservedKvMb + cost.kvMb } := .refl model state
  unfold grant
  dsimp only
  split
  · exact (hreserved.trans (hload _)).trans (htrack _)
  · exact hreserved.trans (htrack _)

theorem tryReserve_sparesLimits (probePermits : ℤ) (probeRate : ℕ) :
    SparesLimits model state (state.tryReserve model probePermits probeRate).1 := by
  unfold tryReserve
  split
  · unfold tryReserveUnprobed
    dsimp only
    split
    · exact sparesLimits_modelOr (.new 0 false 0 1) rfl rfl
    · exact sparesLimits_modelOr (.new 0 false 0 1) rfl rfl
  · have hcheck : SparesLimits model state (state.checkLimit model probePermits probeRate).1 :=
      checkLimit_sparesLimits probePermits probeRate
    unfold tryReserveProbed
    dsimp only
    split
    · exact hcheck
    unfold casLoop
    split
    · dsimp only
      split
      · exact hcheck
      · exact hcheck
    · exact hcheck.trans (grant_sparesLimits _)

end ProviderVramState

namespace Scoring
variable {s : Scoring} {id : ProviderId} {model m : String} {b : LlmProvider} {avail : ℤ}

theorem setMaxConcurrent_maxConcurrent (limit : ℕ) :
    (s.setMaxConcurrent b.id model limit).maxConcurrent id m =
      if id = b.id ∧ m = model then limit else s.maxConcurrent id m := by
  unfold setMaxConcurrent maxConcurrent
  rw [VramPool.provider_setProvider]
  by_cases hid : id = b.id
  · subst hid
    rw [if_pos rfl]
    refine (ProviderVramState.setModel_maxConcurrent m).trans ?_
    by_cases hm : m = model
    · rw [if_pos hm, if_pos ⟨rfl, hm⟩]
      split <;> rfl
    · rw [if_neg hm, if_neg fun h => hm h.2]
      rfl
  · rw [if_neg hid, if_neg fun h => hid h.1]

theorem rampUp_maxConcurrent (hramp : s.thermal.get id = .rampUp) :
    (s.rampUp b.id model).maxConcurrent id m =
      if id = b.id ∧ m = model ∧ 1 < s.maxConcurrent id m then 1 else s.maxConcurrent id m := by
  have hsnapshot : ∀ value, (s.setPreHardMaxConcurrent b.id model value).maxConcurrent id m =
      s.maxConcurrent id m := by
    intro value
    unfold setPreHardMaxConcurrent
    split <;> rfl
  by_cases hid : id = b.id
  · have hlevel : s.thermal.get b.id = .rampUp := hid ▸ hramp
    unfold rampUp
    rw [hlevel]
    dsimp only
    by_cases hm : m = model
    · by_cases hlimit : 1 < s.maxConcurrent id m
      · have hlimit' : 1 < s.maxConcurrent b.id model := hid ▸ hm ▸ hlimit
        rw [if_pos hlimit', setMaxConcurrent_maxConcurrent, if_pos ⟨hid, hm⟩,
          if_pos ⟨hid, hm, hlimit⟩]
      · have hlimit' : ¬ 1 < s.maxConcurrent b.id model := hid ▸ hm ▸ hlimit
        rw [if_neg hlimit', if_neg fun h => hlimit h.2.2]
    · have hother : ¬ (id = b.id ∧ m = model ∧ 1 < s.maxConcurrent id m) := fun h => hm h.2.1
      rw [if_neg hother]
      split
      · rw [setMaxConcurrent_maxConcurrent, if_neg fun h => hm h.2]
        split
        · exact hsnapshot _
        · rfl
      · rfl
  · have hother : ¬ (id = b.id ∧ m = model ∧ 1 < s.maxConcurrent id m) := fun h => hid h.1
    rw [if_neg hother]
    unfold rampUp
    split
    · dsimp only
      split
      · rw [setMaxConcurrent_maxConcurrent, if_neg fun h => hid h.1]
        split
        · exact hsnapshot _
        · rfl
      · rfl
    · rfl

theorem tryReserve_maxConcurrent {pool pool' : VramPool} {permit : Option VramPermit}
    (h : pool.tryReserve b.id model = (pool', permit)) :
    (pool'.provider id).maxConcurrent m = (pool.provider id).maxConcurrent m ∨
      id = b.id ∧ m = model ∧ (pool.provider id).maxConcurrent m = 0 ∧
        (pool'.provider id).maxConcurrent m ≤ 1 := by
  have hpool : pool' = pool.setProvider b.id
      ((pool.provider b.id).tryReserve model pool.probePermits pool.probeRate).1 :=
    (Prod.mk.inj h).1.symm
  rw [hpool, VramPool.provider_setProvider]
  split
  · next hid =>
    subst hid
    rcases ProviderVramState.tryReserve_sparesLimits pool.probePermits pool.probeRate m with
      heq | ⟨hm, hzero, hle⟩
    · exact .inl heq
    · exact .inr ⟨rfl, hm, hzero, hle⟩
  · exact .inl rfl

/-- A round either stops at a gate or ramps the provider up and tries to reserve. -/
theorem tryProvider_cases (s : Scoring) (model : String) (b : LlmProvider) (avail : ℤ) :
    (∃ cb, (s.tryProvider model b avail).1 = { s with cb } ∧
      (¬ s.Passes b.id b avail ∨ s.thermalGate b.id ≠ none)) ∨
    (s.Passes b.id b avail ∧ (s.tryProvider model b avail).1.thermal = s.thermal ∧
      ∃ cb permit, (Scoring.rampUp { s with cb } b.id model).pool.tryReserve b.id model =
        ((s.tryProvider model b avail).1.pool, permit)) := by
  unfold tryProvider
  by_cases havail : avail ≤ 0
  · rw [if_pos havail]
    exact .inl ⟨s.cb, rfl, .inl fun h => absurd h.2.1 (by omega)⟩
  rw [if_neg havail]
  have hpasses : s.Passes b.id b avail ↔ (s.cb.isAllowed b.id s.now).2 = true :=
    ⟨fun h => h.2.2, fun h => ⟨rfl, by omega, h⟩⟩
  generalize s.cb.isAllowed b.id s.now = answer at hpasses ⊢
  obtain ⟨cb, allowed⟩ := answer
  dsimp only at hpasses ⊢
  by_cases hallowed : allowed = false
  · rw [if_pos hallowed]
    exact .inl ⟨cb, rfl, .inl fun h => by simp [hpasses.mp h] at hallowed⟩
  rw [if_neg hallowed]
  cases hgate : Scoring.thermalGate { s with cb } b.id with
  | some reason =>
    have hclosed : s.thermalGate b.id = some reason := hgate
    exact .inl ⟨cb, rfl, .inr (by simp [hclosed])⟩
  | none =>
    refine .inr ⟨hpasses.mpr (by simpa using hallowed), ?_⟩
    have hthermal : (Scoring.rampUp { s with cb } b.id model).thermal = s.thermal :=
      (rampUp_frame { s with cb } b.id model).2.2.1
    dsimp only
    obtain ⟨woken, hwoken, hpool, hkept⟩ : ∃ woken,
        (if (Scoring.rampUp { s with cb } b.id model).isStandby b.id then
          (Scoring.rampUp { s with cb } b.id model).setStandby b.id false
        else Scoring.rampUp { s with cb } b.id model) = woken ∧
          woken.pool = (Scoring.rampUp { s with cb } b.id model).pool ∧
          woken.thermal = s.thermal := by
      refine ⟨_, rfl, ?_⟩
      split
      · exact ⟨rfl, hthermal⟩
      · exact ⟨rfl, hthermal⟩
    rw [hwoken]
    cases hreserve : woken.pool.tryReserve b.id model with
    | mk pool permit =>
      have htried : (Scoring.rampUp { s with cb } b.id model).pool.tryReserve b.id model =
          (pool, permit) := by rw [← hpool, hreserve]
      cases permit with
      | some permit => exact ⟨hkept, cb, some permit, htried⟩
      | none => exact ⟨hkept, cb, none, htried⟩

theorem thermalGate_rampUp (hramp : s.thermal.get id = .rampUp) : s.thermalGate id = none := by
  unfold thermalGate
  rw [hramp]

/-- Every round leaves the thermal map as it was. -/
theorem tryProvider_thermal (s : Scoring) (model : String) (b : LlmProvider) (avail : ℤ) :
    (s.tryProvider model b avail).1.thermal = s.thermal := by
  rcases tryProvider_cases s model b avail with ⟨cb, hstopped, -⟩ | ⟨-, hthermal, -⟩
  · rw [hstopped]
  · exact hthermal

/-- A limit of a provider in RampUp, before and after a claim gets to it. -/
def Clamped (limit limit' : ℕ) : Prop := limit' ≤ 1 ∧ (1 ≤ limit → limit' = 1)

theorem Clamped.trans {limit limit' limit'' : ℕ} (h : Clamped limit limit')
    (h' : Clamped limit' limit'') : Clamped limit limit'' := by
  refine ⟨h'.1, fun hpos => h'.2 ?_⟩
  have hone := h.2 hpos
  omega

theorem Clamped.of_eq {limit limit' : ℕ} (heq : limit' = limit) (hle : limit ≤ 1) :
    Clamped limit limit' := by
  refine ⟨by omega, fun hpos => ?_⟩
  omega

/-- A round that gets to the provider, for a provider in RampUp. -/
theorem tryProvider_clamped (hramp : s.thermal.get id = .rampUp) (hpasses : s.Passes id b avail) :
    Clamped (s.maxConcurrent id model) ((s.tryProvider model b avail).1.maxConcurrent id model) := by
  obtain rfl : b.id = id := hpasses.1
  rcases tryProvider_cases s model b avail with
    ⟨cb, -, hclosed | hclosed⟩ | ⟨-, -, cb, permit, hreserve⟩
  · exact absurd hpasses hclosed
  · exact absurd (thermalGate_rampUp hramp) hclosed
  · have hramped : (Scoring.rampUp { s with cb } b.id model).maxConcurrent b.id model =
        if b.id = b.id ∧ model = model ∧ 1 < s.maxConcurrent b.id model then 1
        else s.maxConcurrent b.id model := rampUp_maxConcurrent hramp
    have hlimit : Clamped (s.maxConcurrent b.id model)
        ((Scoring.rampUp { s with cb } b.id model).maxConcurrent b.id model) := by
      rw [hramped]
      split
      · exact ⟨le_rfl, fun _ => rfl⟩
      · next hsmall => exact .of_eq rfl (by simpa using hsmall)
    refine hlimit.trans ?_
    have htried : (s.tryProvider model b avail).1.maxConcurrent b.id model =
        (Scoring.rampUp { s with cb } b.id model).maxConcurrent b.id model ∨
        b.id = b.id ∧ model = model ∧
          (Scoring.rampUp { s with cb } b.id model).maxConcurrent b.id model = 0 ∧
          (s.tryProvider model b avail).1.maxConcurrent b.id model ≤ 1 :=
      tryReserve_maxConcurrent hreserve
    rcases htried with heq | ⟨-, -, hzero, hle⟩
    · exact .of_eq heq hlimit.1
    · refine ⟨hle, fun hpos => ?_⟩
      exact absurd hzero (Nat.ne_of_gt hpos)

/-- Every other round leaves the limit as it was. -/
theorem tryProvider_spared (hramp : s.thermal.get id = .rampUp)
    (hnot : ¬ (m = model ∧ s.Passes id b avail)) :
    (s.tryProvider model b avail).1.maxConcurrent id m = s.maxConcurrent id m := by
  rcases tryProvider_cases s model b avail with ⟨cb, hstopped, -⟩ | ⟨hpasses, -, cb, permit, hreserve⟩
  · rw [hstopped]
    rfl
  · have hother : ¬ (id = b.id ∧ m = model) := by
      rintro ⟨rfl, rfl⟩
      exact hnot ⟨rfl, hpasses⟩
    have hramped : (Scoring.rampUp { s with cb } b.id model).maxConcurrent id m =
        if id = b.id ∧ m = model ∧ 1 < s.maxConcurrent id m then 1 else s.maxConcurrent id m :=
      rampUp_maxConcurrent hramp
    rw [if_neg fun h => hother ⟨h.1, h.2.1⟩] at hramped
    rcases tryReserve_maxConcurrent hreserve with heq | ⟨hid, hm, -⟩
    · exact Eq.trans heq hramped
    · exact absurd ⟨hid, hm⟩ hother

/-- The claim loop stops after a round that claims, and goes on after one that does not. -/
theorem claimLoop_cons (model : String) (b : LlmProvider) (avail : ℤ) (l : List (LlmProvider × ℤ))
    (s : Scoring) :
    (∃ permit, s.tryProvider model b avail = ((claimLoop model ((b, avail) :: l) s).state, .ok permit)) ∨
    ∃ s' reason, s.tryProvider model b avail = (s', .error reason) ∧
      (claimLoop model ((b, avail) :: l) s).state = (claimLoop model l s').state := by
  cases hround : s.tryProvider model b avail with
  | mk s' answer =>
    cases answer with
    | ok permit => exact .inl ⟨permit, by simp only [claimLoop, hround]⟩
    | error reason => exact .inr ⟨s', reason, rfl, by simp only [claimLoop, hround]⟩

theorem claimLoop_thermal (model : String) (l : List (LlmProvider × ℤ)) (s : Scoring) :
    (claimLoop model l s).state.thermal = s.thermal := by
  induction l generalizing s with
  | nil => rfl
  | cons x l ih =>
    obtain ⟨b, avail⟩ := x
    have hround := tryProvider_thermal s model b avail
    rcases claimLoop_cons model b avail l s with ⟨permit, hok⟩ | ⟨s', reason, herror, hrest⟩
    · rwa [hok] at hround
    · rw [herror] at hround
      rw [hrest, ih s', hround]

theorem claimLoop_spared (l : List (LlmProvider × ℤ)) (hramp : s.thermal.get id = .rampUp)
    (hnot : ¬ (m = model ∧ s.Reaches id model l)) :
    (claimLoop model l s).state.maxConcurrent id m = s.maxConcurrent id m := by
  induction l generalizing s with
  | nil => rfl
  | cons x l ih =>
    obtain ⟨b, avail⟩ := x
    have hround : (s.tryProvider model b avail).1.maxConcurrent id m = s.maxConcurrent id m :=
      tryProvider_spared hramp fun h => hnot ⟨h.1, .inl h.2⟩
    have hthermal := tryProvider_thermal s model b avail
    rcases claimLoop_cons model b avail l s with ⟨permit, hok⟩ | ⟨s', reason, herror, hrest⟩
    · rwa [hok] at hround
    · rw [herror] at hround hthermal
      rw [hrest, ih (hthermal ▸ hramp) fun h => hnot ⟨h.1, .inr ⟨s', reason, herror, h.2⟩⟩, hround]

theorem claimLoop_clamped (l : List (LlmProvider × ℤ)) (hramp : s.thermal.get id = .rampUp)
    (hreaches : s.Reaches id model l) :
    Clamped (s.maxConcurrent id model) ((claimLoop model l s).state.maxConcurrent id model) := by
  induction l generalizing s with
  | nil => exact hreaches.elim
  | cons x l ih =>
    obtain ⟨b, avail⟩ := x
    have hthermal := tryProvider_thermal s model b avail
    have hround : s.Passes id b avail → Clamped (s.maxConcurrent id model)
        ((s.tryProvider model b avail).1.maxConcurrent id model) := tryProvider_clamped hramp
    have hspared : ¬ (model = model ∧ s.Passes id b avail) →
        (s.tryProvider model b avail).1.maxConcurrent id model = s.maxConcurrent id model :=
      tryProvider_spared hramp
    rcases claimLoop_cons model b avail l s with ⟨permit, hok⟩ | ⟨s', reason, herror, hrest⟩
    · rw [hok] at hround
      rcases hreaches with hpasses | ⟨s', reason, herror, -⟩
      · exact hround hpasses
      · rw [hok] at herror
        cases herror
    · rw [herror] at hthermal hround hspared
      rw [hrest]
      have hramp' : s'.thermal.get id = .rampUp := hthermal ▸ hramp
      by_cases hlater : s'.Reaches id model l
      · by_cases hpasses : s.Passes id b avail
        · exact (hround hpasses).trans (ih hramp' hlater)
        · have hsame := hspared fun h => hpasses h.2
          exact hsame ▸ ih hramp' hlater
      · have hpasses : s.Passes id b avail := by
          rcases hreaches with hpasses | ⟨s'', reason', herror', hlater'⟩
          · exact hpasses
          · rw [herror] at herror'
            cases herror'
            exact absurd hlater' hlater
        have hsame := claimLoop_spared (m := model) l hramp' fun h => hlater h.2
        exact (hround hpasses).trans (.of_eq hsame (hround hpasses).1)

end Scoring

/-! ## Dropped permits -/

/-- Dropping a permit changes no limit. -/
theorem VramPool.drop_maxConcurrent (pool : VramPool) (permit : VramPermit) (now : Millis)
    (id : ProviderId) (m : String) :
    ((pool.drop permit now).provider id).maxConcurrent m = (pool.provider id).maxConcurrent m := by
  have hset : ∀ (p : VramPool) (j : ProviderId) (state : ProviderVramState),
      state.maxConcurrent m = (p.provider j).maxConcurrent m →
      ((p.setProvider j state).provider id).maxConcurrent m = (p.provider id).maxConcurrent m := by
    intro p j state hsame
    rw [provider_setProvider]
    split
    · next hid => rw [hsame, hid]
    · rfl
  have hmodify : ∀ (state : ProviderVramState) (model : String) (f : ModelState → ModelState),
      (∀ ms, (f ms).maxConcurrent = ms.maxConcurrent) →
      (state.modifyModel model f).maxConcurrent m = state.maxConcurrent m := by
    intro state model f hf
    unfold ProviderVramState.modifyModel
    split
    · next ms hlookup =>
      rw [ProviderVramState.setModel_maxConcurrent]
      split
      · next hm => rw [hf, hm, ProviderVramState.maxConcurrent_of_lookup hlookup]
      · rfl
    · rfl
  have hkv : ∀ p : VramPool,
      ((p.dropKv permit).provider id).maxConcurrent m = (p.provider id).maxConcurrent m := by
    intro p
    unfold dropKv
    split
    · exact hset _ _ _ rfl
    · rfl
  have hactive : ∀ p : VramPool,
      ((p.dropActive permit).provider id).maxConcurrent m = (p.provider id).maxConcurrent m := by
    intro p
    unfold dropActive
    split
    · exact hset _ _ _ (hmodify _ _ _ fun _ => rfl)
    · rfl
  have hlast : ∀ p : VramPool,
      ((p.dropLastActive permit now).provider id).maxConcurrent m =
        (p.provider id).maxConcurrent m := by
    intro p
    unfold dropLastActive
    split
    · exact hset _ _ _ (hmodify _ _ _ fun _ => rfl)
    · rfl
  have htotal : ∀ p : VramPool,
      ((p.dropTotal permit).provider id).maxConcurrent m = (p.provider id).maxConcurrent m := by
    intro p
    unfold dropTotal
    split
    · exact hset _ _ _ rfl
    · rfl
  exact (htotal _).trans ((hlast _).trans ((hactive _).trans (hkv pool)))

/-! ## Runs -/

namespace Ramping
variable {s : Ramping} {id : ProviderId} {model m : String}

theorem event_thermal (s : Ramping) (e : RampEvent) :
    (s.event e).scoring.thermal = s.scoring.thermal := by
  cases e with
  | claim candidates m keyTier providerType => exact Scoring.claimLoop_thermal ..
  | call k now =>
    change ((s.callPass k now).getD s).scoring.thermal = s.scoring.thermal
    cases hcall : s.callPass k now with
    | none => rfl
    | some s' =>
      obtain ⟨pass, hpass, hnext⟩ := Option.bind_eq_some_iff.mp hcall
      obtain ⟨next, hnext, hdone⟩ := Option.bind_eq_some_iff.mp hnext
      cases hdone
      rfl
  | _ => rfl

/-- A claim that gets to the provider for the model limits it to 1; no other claim changes its
limit. -/
theorem claim_maxConcurrent (hramp : s.scoring.thermal.get id = .rampUp)
    (candidates : List LlmProvider) (keyTier : Option KeyTier) (providerType : ProviderType) :
    (m = model ∧ Scoring.Clamped (s.maxConcurrent id model)
      ((s.event (.claim candidates m keyTier providerType)).maxConcurrent id model)) ∨
    (s.event (.claim candidates m keyTier providerType)).maxConcurrent id model =
      s.maxConcurrent id model := by
  by_cases hreaches : m = model ∧
      s.scoring.Reaches id m (s.scoring.scored candidates m keyTier providerType)
  · obtain ⟨rfl, hreaches⟩ := hreaches
    exact .inl ⟨rfl, Scoring.claimLoop_clamped _ hramp hreaches⟩
  · refine .inr (Scoring.claimLoop_spared _ hramp fun h => hreaches ⟨h.1.symm, h.2⟩)

theorem lowers_iff (hramp : s.scoring.thermal.get id = .rampUp) (e : RampEvent) :
    Lowers id model s e ↔ Clamps id model s e := by
  cases e with
  | claim candidates m keyTier providerType =>
    constructor
    · rintro ⟨hlimit, hone⟩
      by_cases hreaches : model = m ∧
          s.scoring.Reaches id m (s.scoring.scored candidates m keyTier providerType)
      · obtain ⟨rfl, hreaches⟩ := hreaches
        exact ⟨rfl, hlimit, hreaches⟩
      · have hspared : (s.event (.claim candidates m keyTier providerType)).maxConcurrent id model =
            s.maxConcurrent id model := Scoring.claimLoop_spared _ hramp hreaches
        omega
    · rintro ⟨rfl, hlimit, hreaches⟩
      have hclamped : Scoring.Clamped (s.maxConcurrent id m)
          ((s.event (.claim candidates m keyTier providerType)).maxConcurrent id m) :=
        Scoring.claimLoop_clamped _ hramp hreaches
      exact ⟨hlimit, hclamped.2 (by omega)⟩
  | _ => exact Iff.rfl

/-- Only a pass brings a limit above 1. -/
theorem raises_of_lost (hramp : s.scoring.thermal.get id = .rampUp) (e : RampEvent)
    (hbefore : s.maxConcurrent id model ≤ 1) (hafter : ¬ (s.event e).maxConcurrent id model ≤ 1) :
    Raises id model s e := by
  cases e with
  | claim candidates m keyTier providerType =>
    rcases claim_maxConcurrent hramp candidates keyTier providerType with ⟨-, hclamped⟩ | heq
    · exact absurd hclamped.1 hafter
    · exact absurd (heq ▸ hbefore) hafter
  | sync j r => exact absurd hbefore hafter
  | call k now => exact Nat.lt_of_le_of_lt hbefore (Nat.lt_of_not_le hafter)
  | drop permit now =>
    have hdrop := s.scoring.pool.drop_maxConcurrent permit now id model
    refine absurd ?_ hafter
    exact hdrop.trans_le hbefore
  | elapse now cb isStandby => exact absurd hbefore hafter

/-- Claims lower the limit of a model at most once while its provider is in RampUp, and never after
a pass raised it, exactly if no claim gets to the provider for the model while the limit is above 1
and after a pass raised it. -/
theorem ramp_up_kept_iff {s₀ : Ramping} (id : ProviderId) (model : String)
    (hramp : s₀.scoring.thermal.get id = .rampUp) (events : List RampEvent) :
    (NeverAfter event s₀ events (Lowers id model) (Lowers id model) ∧
        NeverAfter event s₀ events (Raises id model) (Lowers id model)) ↔
      NeverAfter event s₀ events (Raises id model) (Clamps id model) := by
  have hkept : ∀ (s : Ramping) e, s.scoring.thermal.get id = .rampUp →
      (s.event e).scoring.thermal.get id = .rampUp := by
    intro s e h
    rw [event_thermal, h]
  have hsame : NeverAfter event s₀ events (Raises id model) (Lowers id model) ↔
      NeverAfter event s₀ events (Raises id model) (Clamps id model) :=
    neverAfter_congr hramp hkept fun s e h => lowers_iff h e
  rw [hsame]
  refine ⟨fun h => h.2, fun h => ⟨?_, h⟩⟩
  rw [← hsame] at h
  have honce : ∀ s e, s.scoring.thermal.get id = .rampUp → Lowers id model s e →
      (s.event e).maxConcurrent id model ≤ 1 := by
    intro s e _ hlowers
    cases e with
    | claim candidates m keyTier providerType => exact hlowers.2.le
    | _ => exact hlowers.elim
  have hhigh : ∀ s e, s.scoring.thermal.get id = .rampUp → Lowers id model s e →
      ¬ s.maxConcurrent id model ≤ 1 := by
    intro s e _ hlowers
    cases e with
    | claim candidates m keyTier providerType => exact Nat.not_le_of_gt hlowers.1
    | _ => exact hlowers.elim
  exact NeverAfter.of_gap hramp hkept honce hhigh (fun s e h => raises_of_lost h e) h

/-- Provider 1 in RampUp, with a model that is loaded, stable and limited to 4. -/
def stableModel : Ramping :=
  { scoring := {
      now := 0
      pool := VramPool.new.setProvider 1 (ProviderVramState.fresh.setModel "m"
        { ModelState.new 0 true 128 4 with baselineTps := 100 })
      thermal := (Thermal.new 300).setState 1 (some { ThrottleState.none with level := .rampUp })
      cb := .new, isStandby := fun _ => false
      preHardMaxConcurrent := fun _ _ => 0, apuMaxConcurrentCache := fun _ => 4 }
    lastMemAvailableMb := fun _ => 0
    passes := [] }

def claimModel : RampEvent := .claim [ollamaProvider 1] "m" none .ollama

/-- Claims without a pass between them. -/
theorem claims_lower_once :
    NeverAfter event stableModel [claimModel, claimModel] (Lowers 1 "m") (Lowers 1 "m") ∧
      NeverAfter event stableModel [claimModel, claimModel] (Raises 1 "m") (Lowers 1 "m") := by
  refine (ramp_up_kept_iff 1 "m" (by decide) _).mpr ?_
  intro pre a mid b hprefix hraise
  have hmem : a ∈ [claimModel, claimModel] := hprefix.subset (by simp)
  obtain rfl : a = claimModel := by simpa using hmem
  exact hraise.elim

/-- A pass of a provider with `num_parallel` 4 that sees the throughput maintained. -/
def stableReport : SyncReport :=
  { now := 1, numParallel := 4, numParallel_pos := by decide, providerTotalVramMb := 0
    budget := none, profiles := []
    online := some {
      agentTotalVramMb := none, hw := none, queue := ProviderVramState.emptyQueue
      psModels := [{ RunningModel.unknown "m" with
        stats := { ThroughputStats.none with sampleCount := 3, tpsX100 := 100 } }]
      psNodup := List.nodup_singleton _, recommendations := [] } }

/-- After a claim and a whole pass. -/
def raisedModel : Ramping :=
  (claimModel :: .sync 1 stableReport :: List.replicate 30 (.call 0 1)).foldl event stableModel

theorem raised_limit_lowered_again :
    ¬ ∀ (s₀ : Ramping) (id : ProviderId) (model : String), s₀.scoring.thermal.get id = .rampUp →
      ∀ events, NeverAfter event s₀ events (Lowers id model) (Lowers id model) ∧
        NeverAfter event s₀ events (Raises id model) (Lowers id model) := by
  intro hall
  have honce := (hall stableModel 1 "m" (by decide)
    (claimModel :: .sync 1 stableReport :: List.replicate 30 (.call 0 1) ++ [claimModel])).1
  refine honce [] claimModel (.sync 1 stableReport :: List.replicate 30 (.call 0 1)) claimModel
    (List.prefix_refl _) ?_ ?_
  · show 1 < stableModel.maxConcurrent 1 "m" ∧ (stableModel.event claimModel).maxConcurrent 1 "m" = 1
    decide +kernel
  · show 1 < raisedModel.maxConcurrent 1 "m" ∧ (raisedModel.event claimModel).maxConcurrent 1 "m" = 1
    decide +kernel

end Ramping

end Veronex
