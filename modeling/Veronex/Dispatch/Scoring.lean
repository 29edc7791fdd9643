import Veronex.Capacity.VramPool
import Veronex.Dispatch.CircuitBreaker
import Veronex.Dispatch.Thermal
import Veronex.Foundation.StableSort

/-! # Scoring the candidates of a job

`score_and_claim` of `application/use_cases/inference/dispatcher.rs`, on the pool, the thermal map and
the circuit breaker of an instance while no other thread writes them.

`headroom_order_iff`: the order in which the candidates are tried is the order of their headroom
exactly when none of them is full beside one that is not.
-/
namespace Veronex
set_option autoImplicit false
open Concurrency

def MODEL_LOCALITY_BONUS_MB : ℤ := 100000
def MAX_SCORING_CANDIDATES : ℕ := 50

structure LlmProvider where
  id : ProviderId
  providerType : ProviderType
  isFreeTier : Bool

inductive Rejection
  | noVramAvail
  | circuitBreakerOpen
  | thermalHard
  | thermalCooldown
  | thermalSoftBusy
  | tryReserveNone
  deriving DecidableEq

/-- What scoring reads and writes. The last three are atomics of the pool that nothing else here
reads. -/
structure Scoring where
  now : ℕ
  pool : VramPool
  thermal : Thermal
  cb : CircuitBreakerMap
  isStandby : ProviderId → Bool
  preHardMaxConcurrent : ProviderId → String → ℕ
  apuMaxConcurrentCache : ProviderId → ℕ

namespace Scoring
variable (s : Scoring)

/-! ## The pool -/

/-- `available_vram_mb` -/
def availableVramMb (id : ProviderId) : ℕ :=
  match s.pool.providers.lookup id with
  | none => 0
  | some state =>
    let raw := computeAvailable state
    if raw = I64_MAX then
      let mc := max (s.apuMaxConcurrentCache id) 4
      max (min ((mc - state.totalActiveCount) * 1024) (U32 - 1)) 1
    else raw.toNat

def loadedModelNames (id : ProviderId) : List String :=
  ((s.pool.provider id).models.entries.filter fun e => e.2.isLoaded).map Sigma.fst

def providerActiveRequests (id : ProviderId) : ℕ := (s.pool.provider id).totalActiveCount

def maxConcurrent (id : ProviderId) (model : String) : ℕ :=
  ((s.pool.provider id).models.lookup model).elim 0 ModelState.maxConcurrent

def setMaxConcurrent (id : ProviderId) (model : String) (limit : ℕ) : Scoring :=
  let state := s.pool.provider id
  let ms := match state.models.lookup model with
    | some ms => { ms with maxConcurrent := limit }
    | none => .new 0 false 128 limit
  { s with
    pool := s.pool.setProvider id (state.setModel model ms)
    apuMaxConcurrentCache := Function.update s.apuMaxConcurrentCache id
      (max (s.apuMaxConcurrentCache id) limit) }

/-- Nothing is stored for a model the provider does not know. -/
def setPreHardMaxConcurrent (id : ProviderId) (model : String) (value : ℕ) : Scoring :=
  if ((s.pool.provider id).models.lookup model).isSome then
    let ofProvider := Function.update (s.preHardMaxConcurrent id) model value
    { s with preHardMaxConcurrent := Function.update s.preHardMaxConcurrent id ofProvider }
  else s

def setStandby (id : ProviderId) (value : Bool) : Scoring :=
  { s with isStandby := Function.update s.isStandby id value }

/-! ## `score_and_claim` -/

def avail (model : String) (b : LlmProvider) : ℤ :=
  match b.providerType with
  | .ollama =>
    let base := i64 (s.availableVramMb b.id)
    -- 0 is taken for a provider that was not probed
    let base := if base = 0 then I64_MAX / 2 else base
    if model ∈ s.loadedModelNames b.id then min (base + MODEL_LOCALITY_BONUS_MB) I64_MAX else base
  | .gemini => I64_MAX

def tierPref (keyTier : Option KeyTier) (p : LlmProvider) : Bool :=
  match keyTier with
  | some .paid => !p.isFreeTier
  | some .free => p.isFreeTier
  | none => false

/-- The comparison of the sort does not put `b` before `a`. -/
def scoredBefore (keyTier : Option KeyTier) (providerType : ProviderType)
    (a b : LlmProvider × ℤ) : Bool :=
  if providerType = .ollama then
    if tierPref keyTier a.1 = tierPref keyTier b.1 then decide (b.2 ≤ a.2)
    else tierPref keyTier a.1
  else decide (b.2 ≤ a.2)

/-- The candidates with their scores, in the order they are tried. -/
def scored (candidates : List LlmProvider) (model : String) (keyTier : Option KeyTier)
    (providerType : ProviderType) : List (LlmProvider × ℤ) :=
  ((candidates.take MAX_SCORING_CANDIDATES).map fun b => (b, s.avail model b)).mergeSort
    (scoredBefore keyTier providerType)

/-- The thermal gate: why a provider is passed over. -/
def thermalGate (id : ProviderId) : Option Rejection :=
  match s.thermal.get id with
  | .hard => some .thermalHard
  | .cooldown => some .thermalCooldown
  | .soft => if 0 < s.providerActiveRequests id then some .thermalSoftBusy else none
  | _ => none

/-- What a ramping provider is limited to, before it is tried. -/
def rampUp (id : ProviderId) (model : String) : Scoring :=
  match s.thermal.get id with
  | .rampUp =>
    let currentMc := s.maxConcurrent id model
    if 1 < currentMc then
      let s := if s.preHardMaxConcurrent id model = 0 then
          s.setPreHardMaxConcurrent id model currentMc
        else s
      s.setMaxConcurrent id model 1
    else s
  | _ => s

/-- One round of the claim loop. -/
def tryProvider (model : String) (provider : LlmProvider) (avail : ℤ) :
    Scoring × Except Rejection VramPermit :=
  if avail ≤ 0 then (s, .error .noVramAvail)
  else
    let (cb, allowed) := s.cb.isAllowed provider.id s.now
    let s := { s with cb }
    if allowed = false then (s, .error .circuitBreakerOpen)
    else match s.thermalGate provider.id with
      | some reason => (s, .error reason)
      | none =>
        let s := s.rampUp provider.id model
        let s := if s.isStandby provider.id then s.setStandby provider.id false else s
        match s.pool.tryReserve provider.id model with
        | (pool, some permit) => ({ s with pool }, .ok permit)
        | (pool, none) => ({ s with pool }, .error .tryReserveNone)

end Scoring

/-- What `score_and_claim` returns, with the rejections it logs. -/
structure ClaimResult where
  state : Scoring
  rejections : List (ProviderId × Rejection)
  claim : Option (LlmProvider × VramPermit)

namespace Scoring

def claimLoop (model : String) : List (LlmProvider × ℤ) → Scoring → ClaimResult
  | [], s => { state := s, rejections := [], claim := none }
  | (provider, avail) :: rest, s =>
    match s.tryProvider model provider avail with
    | (s', .ok permit) => { state := s', rejections := [], claim := some (provider, permit) }
    | (s', .error reason) =>
      let result := claimLoop model rest s'
      { result with rejections := (provider.id, reason) :: result.rejections }

def scoreAndClaim (s : Scoring) (candidates : List LlmProvider) (model : String)
    (keyTier : Option KeyTier) (providerType : ProviderType) : ClaimResult :=
  claimLoop model (s.scored candidates model keyTier providerType) s

end Scoring

/-- The providers `try_reserve` was called for, in their order. -/
def ClaimResult.tried (r : ClaimResult) : List ProviderId :=
  (r.rejections.filter fun x => x.2 = .tryReserveNone).map Prod.fst ++
    (r.claim.map fun x => x.1.id).toList

/-! ## The gates -/

namespace Scoring
variable {s : Scoring} {model : String} {id : ProviderId} {b : LlmProvider} {avail : ℤ}

/-- The circuit breaker and the thermal gate let the provider pass. -/
structure Gated (s : Scoring) (id : ProviderId) : Prop where
  allowed : (s.cb.isAllowed id s.now).2 = true
  cool : s.thermalGate id = none

/-- An answer of `is_allowed` stays until another call. -/
theorem isAllowed_kept {cb : CircuitBreakerMap} {now : ℕ} {p q : ProviderId}
    (h : (cb.isAllowed p now).2 = true) : ((cb.isAllowed q now).1.isAllowed p now).2 = true := by
  unfold CircuitBreakerMap.isAllowed at h ⊢
  dsimp only at h ⊢
  rw [CircuitBreakerMap.circuit_put]
  by_cases hq : p = q
  · subst hq
    rw [if_pos rfl]
    unfold ProviderCircuit.isAllowed at h ⊢
    cases hstate : (cb.circuit p).state with
    | «open» until' =>
      rw [hstate] at h
      dsimp only at h ⊢
      split at h
      · next hpast => simp [hpast]
      · cases h
    | _ => simp [hstate]
  · rw [if_neg hq]
    exact h

theorem state_tryReserve_active {state : ProviderVramState} {probePermits : ℤ} {probeRate : ℕ}
    (h : (state.tryReserve model probePermits probeRate).2 = none) :
    (state.tryReserve model probePermits probeRate).1.totalActiveCount = state.totalActiveCount := by
  unfold ProviderVramState.tryReserve at h ⊢
  split
  · next hzero =>
    rw [if_pos hzero] at h
    unfold ProviderVramState.tryReserveUnprobed at h ⊢
    dsimp only at h ⊢
    split at h
    · next hblocked => rw [if_pos hblocked]; rfl
    · cases h
  · next hprobed =>
    rw [if_neg hprobed] at h
    unfold ProviderVramState.tryReserveProbed at h ⊢
    have hchecked : ∀ x, (state.checkLimit model probePermits probeRate) = x →
        x.1.totalActiveCount = state.totalActiveCount := by
      rintro x rfl
      unfold ProviderVramState.checkLimit
      split <;> rfl
    generalize state.checkLimit model probePermits probeRate = checked at h hchecked ⊢
    have hactive := hchecked checked rfl
    obtain ⟨state', blocked⟩ := checked
    dsimp only at h hactive ⊢
    split
    · exact hactive
    · next hfree =>
      rw [if_neg hfree] at h
      unfold ProviderVramState.casLoop at h ⊢
      split at h
      · next hshort =>
        rw [if_pos hshort]
        dsimp only
        split
        · exact hactive
        · exact hactive
      · cases h

/-- A reservation that fails leaves every count of active requests as it was. -/
theorem tryReserve_active {pool pool' : VramPool} (h : pool.tryReserve id model = (pool', none))
    (j : ProviderId) :
    (pool'.provider j).totalActiveCount = (pool.provider j).totalActiveCount := by
  unfold VramPool.tryReserve at h
  dsimp only at h
  obtain ⟨hpool, hnone⟩ := Prod.mk.inj h
  have hfailed := Option.map_eq_none_iff.mp hnone
  rw [← hpool, VramPool.provider_setProvider]
  split
  · next hj =>
    subst hj
    exact state_tryReserve_active hfailed
  · rfl

theorem setMaxConcurrent_active (s : Scoring) (id : ProviderId) (model : String) (limit : ℕ)
    (j : ProviderId) :
    (s.setMaxConcurrent id model limit).providerActiveRequests j = s.providerActiveRequests j := by
  simp only [setMaxConcurrent, providerActiveRequests, VramPool.provider_setProvider]
  split
  · next hj => subst hj; rfl
  · rfl

/-- What a ramp-up and a wake-up leave alone. -/
theorem rampUp_frame (s : Scoring) (id : ProviderId) (model : String) :
    (s.rampUp id model).cb = s.cb ∧ (s.rampUp id model).now = s.now ∧
      (s.rampUp id model).thermal = s.thermal ∧
      ∀ j, (s.rampUp id model).providerActiveRequests j = s.providerActiveRequests j := by
  have hset : ∀ s' : Scoring, s'.cb = s.cb → s'.now = s.now → s'.thermal = s.thermal →
      s'.pool = s.pool → (s'.setMaxConcurrent id model 1).cb = s.cb ∧
        (s'.setMaxConcurrent id model 1).now = s.now ∧
        (s'.setMaxConcurrent id model 1).thermal = s.thermal ∧
        ∀ j, (s'.setMaxConcurrent id model 1).providerActiveRequests j =
          s.providerActiveRequests j := by
    intro s' hcb hnow hthermal hpool
    refine ⟨hcb, hnow, hthermal, fun j => (setMaxConcurrent_active s' id model 1 j).trans ?_⟩
    rw [providerActiveRequests, hpool, providerActiveRequests]
  unfold rampUp
  split
  · dsimp only
    split
    · split
      · refine hset _ ?_ ?_ ?_ ?_ <;> (unfold setPreHardMaxConcurrent; split <;> rfl)
      · exact hset s rfl rfl rfl rfl
    · exact ⟨rfl, rfl, rfl, fun _ => rfl⟩
  · exact ⟨rfl, rfl, rfl, fun _ => rfl⟩

theorem Gated.of_frame {s' : Scoring} (h : s.Gated id)
    (hallowed : (s'.cb.isAllowed id s'.now).2 = true) (hthermal : s'.thermal = s.thermal)
    (hactive : s'.providerActiveRequests id = s.providerActiveRequests id) : s'.Gated id := by
  refine ⟨hallowed, ?_⟩
  have hcool := h.cool
  unfold thermalGate at hcool ⊢
  rw [hthermal, hactive]
  exact hcool

/-- A provider that passes the gates is tried, and what fails changes no gate. -/
theorem tryProvider_gated (model : String) (hgated : s.Gated b.id) (havail : 0 < avail) :
    ∃ s', ((∃ permit, s.tryProvider model b avail = (s', .ok permit)) ∨
      s.tryProvider model b avail = (s', .error .tryReserveNone) ∧
        ∀ id, s.Gated id → s'.Gated id) := by
  unfold tryProvider
  rw [if_neg (not_le.mpr havail)]
  have hallowed := hgated.allowed
  have hkept : ∀ id, s.Gated id →
      ((s.cb.isAllowed b.id s.now).1.isAllowed id s.now).2 = true :=
    fun id h => isAllowed_kept h.allowed
  generalize s.cb.isAllowed b.id s.now = answer at hallowed hkept
  obtain ⟨cb, allowed⟩ := answer
  obtain rfl : allowed = true := hallowed
  have hcool : Scoring.thermalGate { s with cb } b.id = none := hgated.cool
  dsimp only
  rw [if_neg (by decide), hcool]
  obtain ⟨hcb, hnow, hthermal, hactive⟩ := rampUp_frame { s with cb } b.id model
  generalize Scoring.rampUp { s with cb } b.id model = ramped at hcb hnow hthermal hactive
  dsimp only
  obtain ⟨woken, hwoken, hwcb, hwnow, hwthermal, hwactive⟩ : ∃ woken,
      (if ramped.isStandby b.id then ramped.setStandby b.id false else ramped) = woken ∧
        woken.cb = cb ∧ woken.now = s.now ∧ woken.thermal = s.thermal ∧
        ∀ j, woken.providerActiveRequests j = s.providerActiveRequests j := by
    refine ⟨_, rfl, ?_⟩
    split
    · exact ⟨hcb, hnow, hthermal, hactive⟩
    · exact ⟨hcb, hnow, hthermal, hactive⟩
  rw [hwoken]
  cases hreserve : woken.pool.tryReserve b.id model with
  | mk pool permit =>
    cases permit with
    | some permit => exact ⟨_, .inl ⟨permit, rfl⟩⟩
    | none =>
      refine ⟨_, .inr ⟨rfl, fun id h => h.of_frame ?_ hwthermal ?_⟩⟩
      · rw [hwcb, hwnow]
        exact hkept id h
      · have hsame := tryReserve_active hreserve id
        exact hsame.trans (hwactive id)

/-- Candidates that pass the gates are tried one after the other. -/
theorem claimLoop_tried {l : List (LlmProvider × ℤ)}
    (h : ∀ x ∈ l, s.Gated x.1.id ∧ 0 < x.2) :
    (claimLoop model l s).tried <+: l.map fun x => x.1.id := by
  induction l generalizing s with
  | nil => exact List.prefix_refl _
  | cons x l ih =>
    obtain ⟨b, avail⟩ := x
    obtain ⟨hgated, havail⟩ := h (b, avail) List.mem_cons_self
    obtain ⟨s', ⟨permit, hok⟩ | ⟨hfailed, hkept⟩⟩ := tryProvider_gated model hgated havail
    · simp only [claimLoop, hok, ClaimResult.tried, List.filter_nil, List.map_nil, List.nil_append,
        Option.map_some, Option.toList_some, List.map_cons]
      exact List.prefix_append [b.id] _
    · have hrest := ih fun y hy => by
        obtain ⟨hgate, hpos⟩ := h y (List.mem_cons_of_mem _ hy)
        exact ⟨hkept _ hgate, hpos⟩
      simp only [claimLoop, hfailed, ClaimResult.tried, List.filter_cons, decide_true, if_true,
        List.map_cons, List.cons_append]
      exact List.cons_prefix_cons.mpr ⟨rfl, hrest⟩

/-! ## The scores -/

/-- `compute_available` of a provider. -/
def headroom (s : Scoring) (id : ProviderId) : ℤ := computeAvailable (s.pool.provider id)

/-- An Ollama candidate with probed VRAM that passes the gates and has not loaded the model. -/
structure Contender (s : Scoring) (model : String) (b : LlmProvider) : Prop where
  ollama : b.providerType = .ollama
  probed : 0 < (s.pool.provider b.id).totalMb
  /-- The headroom is not the `i64::MAX` that stands for a provider without probed VRAM. -/
  limited : s.headroom b.id ≠ I64_MAX
  unloaded : model ∉ s.loadedModelNames b.id
  gated : s.Gated b.id

theorem computeAvailable_bounds (state : ProviderVramState) :
    -2 ^ 63 ≤ computeAvailable state ∧ computeAvailable state < 2 ^ 63 := by
  have hword : ∀ x : ℤ, -2 ^ 63 ≤ i64 x ∧ i64 x < 2 ^ 63 := by
    intro x
    have hlo := Int.le_bmod (x := x) (m := U64) (by decide)
    have hhi := Int.bmod_lt (x := x) (m := U64) (by decide)
    simp only [i64, U64] at hlo hhi ⊢
    omega
  unfold computeAvailable
  split
  · simp only [I64_MAX]; omega
  · exact hword _

/-- Memory sizes far below a machine word never read as unprobed. -/
theorem limited_of_words {state : ProviderVramState} (hprobed : 0 < state.totalMb)
    (htotal : state.totalMb < 2 ^ 62) (hloaded : state.cachedLoadedWeightMb < 2 ^ 61)
    (hkv : state.reservedKvMb < 2 ^ 61) (hpermil : state.safetyPermil ≤ 1000)
    (hsafety : state.totalMb * state.safetyPermil < 2 ^ 63) : computeAvailable state ≠ I64_MAX := by
  have htotalWord : i64 (state.totalMb : ℤ) = state.totalMb := i64_of_bounds (by omega) (by omega)
  have hproduct : (state.totalMb : ℤ) * state.safetyPermil < 2 ^ 63 := by exact_mod_cast hsafety
  have hnonneg : (0 : ℤ) ≤ (state.totalMb : ℤ) * state.safetyPermil :=
    Int.mul_nonneg (Int.natCast_nonneg _) (Int.natCast_nonneg _)
  have hle : (state.totalMb : ℤ) * state.safetyPermil ≤ state.totalMb * 1000 :=
    Int.mul_le_mul_of_nonneg_left (by exact_mod_cast hpermil) (Int.natCast_nonneg _)
  have hmargin : safetyMb state.totalMb state.safetyPermil =
      (state.totalMb : ℤ) * state.safetyPermil / 1000 := by
    rw [safetyMb, htotalWord, i64_of_bounds (by omega) hproduct,
      Int.tdiv_eq_ediv_of_nonneg hnonneg]
  have hbuffer : DEFAULT_BUFFER_MB = 512 := rfl
  rw [computeAvailable, if_neg (by rw [htotalWord]; omega), hmargin, hbuffer,
    i64_of_bounds (by omega) (by omega), I64_MAX]
  omega

variable {candidates : List LlmProvider} {keyTier : Option KeyTier}

/-- The score of a contender is its headroom, except that a full one gets the score of a provider
that was not probed. -/
theorem avail_of_contender (h : s.Contender model b) :
    s.avail model b = if s.headroom b.id ≤ 0 then I64_MAX / 2 else s.headroom b.id := by
  obtain ⟨state, hstate⟩ : ∃ state, s.pool.providers.lookup b.id = some state := by
    cases hlookup : s.pool.providers.lookup b.id with
    | some state => exact ⟨state, rfl⟩
    | none =>
      have hprobed := h.probed
      rw [VramPool.provider, hlookup] at hprobed
      exact absurd hprobed (lt_irrefl 0)
  have hprovider : s.pool.provider b.id = state := by rw [VramPool.provider, hstate]; rfl
  have hlimited : computeAvailable state ≠ I64_MAX := hprovider ▸ h.limited
  obtain ⟨-, hhi⟩ := computeAvailable_bounds state
  have hbase : i64 (s.availableVramMb b.id) = max (computeAvailable state) 0 := by
    rw [availableVramMb, hstate]
    dsimp only
    rw [if_neg hlimited, Int.toNat_eq_max, i64_of_bounds (by omega) (by omega)]
  simp only [avail, h.ollama, if_neg h.unloaded, headroom, hprovider, hbase]
  by_cases hfull : computeAvailable state ≤ 0
  · rw [if_pos hfull, max_eq_right hfull, if_pos rfl]
  · rw [if_neg hfull, max_eq_left (by omega), if_neg (by omega)]

theorem avail_pos (h : s.Contender model b) : 0 < s.avail model b := by
  rw [avail_of_contender h]
  split
  · decide
  · omega

/-- Of two candidates, in the order they are listed, none is full while the other is not, and full
ones come in the order of their headroom. -/
def FullLast (headroom : ProviderId → ℤ) (a b : LlmProvider) : Prop :=
  (headroom a.id ≤ 0 →
    headroom b.id ≤ 0 ∧ headroom b.id ≤ headroom a.id ∨ I64_MAX / 2 < headroom b.id) ∧
  (0 < headroom a.id → headroom b.id ≤ 0 → I64_MAX / 2 ≤ headroom a.id)

theorem mem_scored {providerType : ProviderType} {x : LlmProvider × ℤ}
    (h : x ∈ s.scored candidates model keyTier providerType) :
    x.1 ∈ candidates ∧ x.2 = s.avail model x.1 := by
  obtain ⟨b, hb, rfl⟩ := List.mem_map.mp (List.mem_mergeSort.mp h)
  exact ⟨List.mem_of_mem_take hb, rfl⟩

end Scoring

open Scoring

/-- Candidates of one tier preference are tried in the order of their headroom exactly when no full
one is listed beside one that is not full. -/
theorem headroom_order_iff {s : Scoring} {candidates : List LlmProvider} {model : String}
    {keyTier : Option KeyTier} (hcontend : ∀ b ∈ candidates, s.Contender model b)
    (htier : ∀ a ∈ candidates, ∀ b ∈ candidates, tierPref keyTier a = tierPref keyTier b) :
    (s.scoreAndClaim candidates model keyTier .ollama).tried <+:
        (s.scored candidates model keyTier .ollama).map (fun x => x.1.id) ∧
      ((s.scored candidates model keyTier .ollama).Pairwise
          (fun x y => s.headroom y.1.id ≤ s.headroom x.1.id) ↔
        (candidates.take MAX_SCORING_CANDIDATES).Pairwise (FullLast s.headroom)) := by
  refine ⟨claimLoop_tried fun x hx => ?_, ?_⟩
  · obtain ⟨hmem, hscore⟩ := mem_scored hx
    rw [hscore]
    exact ⟨(hcontend _ hmem).gated, avail_pos (hcontend _ hmem)⟩
  have htrans : ∀ a b c : LlmProvider × ℤ, scoredBefore keyTier .ollama a b →
      scoredBefore keyTier .ollama b c → scoredBefore keyTier .ollama a c := by
    intro a b c hab hbc
    unfold scoredBefore at hab hbc ⊢
    cases ha : tierPref keyTier a.1 <;> cases hb : tierPref keyTier b.1 <;>
      cases hc : tierPref keyTier c.1 <;> simp_all
    all_goals omega
  have htotal : ∀ a b : LlmProvider × ℤ,
      scoredBefore keyTier .ollama a b || scoredBefore keyTier .ollama b a := by
    intro a b
    unfold scoredBefore
    cases ha : tierPref keyTier a.1 <;> cases hb : tierPref keyTier b.1 <;> simp
    all_goals omega
  rw [scored, pairwise_mergeSort_iff htrans htotal, List.pairwise_map]
  have hiff : ∀ a ∈ candidates, ∀ b ∈ candidates,
      (((scoredBefore keyTier .ollama (a, s.avail model a) (b, s.avail model b) = true →
          s.headroom b.id ≤ s.headroom a.id) ∧
        (scoredBefore keyTier .ollama (a, s.avail model a) (b, s.avail model b) = false →
          s.headroom a.id ≤ s.headroom b.id)) ↔ FullLast s.headroom a b) := by
    intro a ha b hb
    have hsame : scoredBefore keyTier .ollama (a, s.avail model a) (b, s.avail model b) =
        decide (s.avail model b ≤ s.avail model a) := by
      simp [scoredBefore, htier a ha b hb]
    have hmax : I64_MAX / 2 = 4611686018427387903 := by decide
    rw [hsame, decide_eq_true_iff, decide_eq_false_iff_not, avail_of_contender (hcontend a ha),
      avail_of_contender (hcontend b hb), FullLast, hmax]
    by_cases hfa : s.headroom a.id ≤ 0 <;> by_cases hfb : s.headroom b.id ≤ 0
    · rw [if_pos hfa, if_pos hfb]; omega
    · rw [if_pos hfa, if_neg hfb]; omega
    · rw [if_neg hfa, if_pos hfb]; omega
    · rw [if_neg hfa, if_neg hfb]; omega
  constructor
  · intro h
    refine h.imp_of_mem fun ha hb hab => ?_
    exact (hiff _ (List.mem_of_mem_take ha) _ (List.mem_of_mem_take hb)).mp hab
  · intro h
    refine h.imp_of_mem fun ha hb hab => ?_
    exact (hiff _ (List.mem_of_mem_take ha) _ (List.mem_of_mem_take hb)).mpr hab

/-! ## Two providers -/

/-- A provider of this memory with this much weight loaded. -/
def loadedProvider (totalMb loadedMb : ℕ) : ProviderVramState :=
  { ProviderVramState.fresh with totalMb, cachedLoadedWeightMb := loadedMb }

/-- Providers 1 and 2 of 1000 MB and 24000 MB with 600 MB loaded, nothing throttled. -/
def fullAndFree : Scoring :=
  { now := 0
    pool := (VramPool.new.setProvider 1 (loadedProvider 1000 600)).setProvider 2
      (loadedProvider 24000 600)
    thermal := .new 300, cb := .new, isStandby := fun _ => false
    preHardMaxConcurrent := fun _ _ => 0, apuMaxConcurrentCache := fun _ => 4 }

def ollamaProvider (id : ProviderId) : LlmProvider :=
  { id, providerType := .ollama, isFreeTier := false }

theorem contender_of_fullAndFree : ∀ b ∈ [ollamaProvider 1, ollamaProvider 2],
    fullAndFree.Contender "m" b := by
  intro b hb
  rcases List.mem_pair.mp hb with rfl | rfl
  · exact ⟨rfl, by decide, by decide, by decide, by decide, by decide⟩
  · exact ⟨rfl, by decide, by decide, by decide, by decide, by decide⟩

/-- A candidate that is not full, alone. -/
theorem free_provider_tried :
    (fullAndFree.scoreAndClaim [ollamaProvider 2] "m" none .ollama).tried <+:
        (fullAndFree.scored [ollamaProvider 2] "m" none .ollama).map (fun x => x.1.id) ∧
      (fullAndFree.scored [ollamaProvider 2] "m" none .ollama).Pairwise
        (fun x y => fullAndFree.headroom y.1.id ≤ fullAndFree.headroom x.1.id) := by
  have hiff := @headroom_order_iff fullAndFree [ollamaProvider 2] "m" none
    (fun b hb => contender_of_fullAndFree b (List.mem_pair.mpr (.inr (List.mem_singleton.mp hb))))
    (fun _ _ _ _ => rfl)
  exact ⟨hiff.1, hiff.2.mpr (List.pairwise_singleton _ _)⟩

/-- The full provider gets the job; the free one is not even tried. -/
theorem full_provider_tried_first :
    ¬ ∀ (s : Scoring) (candidates : List LlmProvider) (model : String) (keyTier : Option KeyTier),
      (∀ b ∈ candidates, s.Contender model b) →
      (∀ a ∈ candidates, ∀ b ∈ candidates, tierPref keyTier a = tierPref keyTier b) →
        ∀ before id, before ++ [id] <+: (s.scoreAndClaim candidates model keyTier .ollama).tried →
          ∀ b ∈ candidates, s.headroom id ≤ 0 → 0 < s.headroom b.id → b.id ∈ before := by
  intro hall
  have htried : (fullAndFree.scoreAndClaim [ollamaProvider 1, ollamaProvider 2] "m" none .ollama).tried =
      [1] := by
    have hsorted : fullAndFree.scored [ollamaProvider 1, ollamaProvider 2] "m" none .ollama =
        [ollamaProvider 1, ollamaProvider 2].map fun b => (b, fullAndFree.avail "m" b) :=
      List.mergeSort_of_pairwise (by decide +kernel)
    rw [scoreAndClaim, hsorted]
    decide +kernel
  have hbefore := hall fullAndFree [ollamaProvider 1, ollamaProvider 2] "m" none
    contender_of_fullAndFree (fun _ _ _ _ => rfl) [] 1 (by rw [htried]; exact List.prefix_refl _)
    (ollamaProvider 2) (List.mem_pair.mpr (.inr rfl)) (by decide) (by decide)
  cases hbefore

end Veronex
