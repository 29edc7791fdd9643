import Veronex.Domain.Values
import Veronex.Foundation.Trace
import Mathlib.Data.List.AList
import Mathlib.Data.List.Sort

/-! # The circuit breaker

`infrastructure/outbound/circuit_breaker.rs`. Every call runs under the lock of its provider's
entry, so that a run is a list of calls; the clock goes on in between.

`open_circuit_blocks_iff`: an open circuit lets nothing pass before `until` exactly when no success
arrives while it is open and `until` lies ahead.
-/
namespace Veronex
set_option autoImplicit false
open Concurrency

def FAILURE_THRESHOLD : ℕ := 5

/-- 60 s; instants are in ms. -/
def CIRCUIT_BREAKER_COOLDOWN : ℕ := 60000

def CIRCUIT_BREAKER_LATENCY_WINDOW : ℕ := 100
def CIRCUIT_BREAKER_LATENCY_MIN_SAMPLES : ℕ := 20
def CIRCUIT_BREAKER_P99_THRESHOLD_MS : ℕ := 30000

inductive CircuitState
  | closed
  | open (until' : ℕ)
  | halfOpen
  deriving DecidableEq

structure ProviderCircuit where
  state : CircuitState
  consecutiveFailures : ℕ
  latencies : List ℕ

namespace ProviderCircuit

def new : ProviderCircuit := { state := .closed, consecutiveFailures := 0, latencies := [] }

def pushLatency (circuit : ProviderCircuit) (latencyMs : ℕ) : ProviderCircuit :=
  let kept := if CIRCUIT_BREAKER_LATENCY_WINDOW ≤ circuit.latencies.length then
      circuit.latencies.tail
    else circuit.latencies
  { circuit with latencies := kept ++ [latencyMs] }

/-- The index is `ceil(0.99 * n) - 1`; the window keeps `n` at most 100. -/
def p99LatencyMs (circuit : ProviderCircuit) : Option ℕ :=
  let n := circuit.latencies.length
  if n < CIRCUIT_BREAKER_LATENCY_MIN_SAMPLES then none
  else (circuit.latencies.mergeSort (· ≤ ·))[min ((99 * n + 99) / 100 - 1) (n - 1)]?

/-- `is_allowed`, on the circuit of the provider. -/
def isAllowed (circuit : ProviderCircuit) (now : ℕ) : ProviderCircuit × Bool :=
  match circuit.state with
  | .closed | .halfOpen => (circuit, true)
  | .open until' =>
    if until' ≤ now then ({ circuit with state := .halfOpen }, true) else (circuit, false)

def onSuccess (circuit : ProviderCircuit) : ProviderCircuit :=
  { circuit with state := .closed, consecutiveFailures := 0 }

def onFailure (circuit : ProviderCircuit) (now : ℕ) : ProviderCircuit :=
  let failures := circuit.consecutiveFailures + 1
  if FAILURE_THRESHOLD ≤ failures ∨ circuit.state = .halfOpen then
    { circuit with state := .open (now + CIRCUIT_BREAKER_COOLDOWN), consecutiveFailures := 0 }
  else { circuit with consecutiveFailures := failures }

def recordLatency (circuit : ProviderCircuit) (latencyMs : ℕ) : ProviderCircuit :=
  let circuit := circuit.pushLatency latencyMs
  if circuit.state ≠ .closed then circuit
  else match circuit.p99LatencyMs with
    | some p99 =>
      if CIRCUIT_BREAKER_P99_THRESHOLD_MS < p99 then { circuit with state := .halfOpen } else circuit
    | none => circuit

end ProviderCircuit

/-! ## The map -/

structure CircuitBreakerMap where
  inner : AList (fun _ : ProviderId => ProviderCircuit)

namespace CircuitBreakerMap

def new : CircuitBreakerMap := { inner := ∅ }

/-- The circuit of a provider, the one `or_insert_with` would insert where there is none. -/
def circuit (cb : CircuitBreakerMap) (p : ProviderId) : ProviderCircuit :=
  (cb.inner.lookup p).getD .new

def put (cb : CircuitBreakerMap) (p : ProviderId) (circuit : ProviderCircuit) :
    CircuitBreakerMap :=
  { inner := cb.inner.insert p circuit }

def isAllowed (cb : CircuitBreakerMap) (p : ProviderId) (now : ℕ) : CircuitBreakerMap × Bool :=
  let (circuit, allowed) := (cb.circuit p).isAllowed now
  (cb.put p circuit, allowed)

def onSuccess (cb : CircuitBreakerMap) (p : ProviderId) : CircuitBreakerMap :=
  match cb.inner.lookup p with
  | some circuit => cb.put p circuit.onSuccess
  | none => cb

def onFailure (cb : CircuitBreakerMap) (p : ProviderId) (now : ℕ) : CircuitBreakerMap :=
  cb.put p ((cb.circuit p).onFailure now)

def recordLatency (cb : CircuitBreakerMap) (p : ProviderId) (latencyMs : ℕ) : CircuitBreakerMap :=
  cb.put p ((cb.circuit p).recordLatency latencyMs)

@[simp] theorem circuit_put (cb : CircuitBreakerMap) (p q : ProviderId) (c : ProviderCircuit) :
    (cb.put p c).circuit q = if q = p then c else cb.circuit q := by
  unfold circuit put
  by_cases hq : q = p
  · subst hq
    simp
  · simp [AList.lookup_insert_ne hq, hq]

/-- A provider without an entry has a closed circuit. -/
theorem onSuccess_circuit (cb : CircuitBreakerMap) (p q : ProviderId) :
    ((cb.onSuccess p).circuit q).state = if q = p then .closed else (cb.circuit q).state := by
  unfold onSuccess
  cases hp : cb.inner.lookup p with
  | some c =>
    rw [circuit_put]
    split <;> rfl
  | none =>
    by_cases hq : q = p
    · subst hq
      simp [circuit, hp, ProviderCircuit.new]
    · rw [if_neg hq]

end CircuitBreakerMap

/-! ## Runs -/

structure Breaker where
  now : ℕ
  map : CircuitBreakerMap

inductive BreakerCall
  | isAllowed (p : ProviderId)
  | onSuccess (p : ProviderId)
  | onFailure (p : ProviderId)
  | recordLatency (p : ProviderId) (latencyMs : ℕ)
  | tick (elapsed : ℕ)

namespace Breaker

def call (b : Breaker) : BreakerCall → Breaker
  | .isAllowed p => { b with map := (b.map.isAllowed p b.now).1 }
  | .onSuccess p => { b with map := b.map.onSuccess p }
  | .onFailure p => { b with map := b.map.onFailure p b.now }
  | .recordLatency p latencyMs => { b with map := b.map.recordLatency p latencyMs }
  | .tick elapsed => { b with now := b.now + elapsed }

def init (now : ℕ) : Breaker := { now, map := .new }

def state (b : Breaker) (p : ProviderId) : CircuitState := (b.map.circuit p).state

/-- What `is_allowed` answers now. -/
def allows (b : Breaker) (p : ProviderId) : Bool := (b.map.isAllowed p b.now).2

end Breaker

/-- Once the circuit is open until some instant, nothing is allowed before it. -/
def OpenBlocks (p : ProviderId) (b : Breaker) (calls : List BreakerCall) : Prop :=
  ∀ before after, before ++ after <+: calls → ∀ until',
    (before.foldl Breaker.call b).state p = .open until' →
      ((before ++ after).foldl Breaker.call b).now < until' →
        ((before ++ after).foldl Breaker.call b).allows p = false

/-- A call is not the success of a request of an open circuit before its cooldown has elapsed. -/
def NotEarly (p : ProviderId) (b : Breaker) (call : BreakerCall) : Prop :=
  call = .onSuccess p → ∀ until', b.state p = .open until' → until' ≤ b.now

section Runs
variable {p : ProviderId} {b : Breaker} {calls : List BreakerCall}

/-- What a call can do to the state of a circuit. -/
inductive CircuitMoved (p : ProviderId) (b : Breaker) : BreakerCall → CircuitState → Prop
  | stays (c : BreakerCall) : CircuitMoved p b c (b.state p)
  | probes {until' : ℕ} (hopen : b.state p = .open until') (hnow : until' ≤ b.now) :
      CircuitMoved p b (.isAllowed p) .halfOpen
  | closes : CircuitMoved p b (.onSuccess p) .closed
  | opens : CircuitMoved p b (.onFailure p) (.open (b.now + CIRCUIT_BREAKER_COOLDOWN))
  | degrades {latencyMs : ℕ} (hclosed : b.state p = .closed) :
      CircuitMoved p b (.recordLatency p latencyMs) .halfOpen

theorem pushLatency_state (circuit : ProviderCircuit) (latencyMs : ℕ) :
    (circuit.pushLatency latencyMs).state = circuit.state := rfl

theorem Breaker.call_moved (p : ProviderId) (b : Breaker) (c : BreakerCall) :
    CircuitMoved p b c ((b.call c).state p) := by
  have hsame : (b.call c).state p = b.state p → CircuitMoved p b c ((b.call c).state p) := by
    intro heq
    rw [heq]
    exact .stays c
  -- a call for another provider
  have hother : ∀ q circuit, q ≠ p → (b.map.put q circuit).circuit p = b.map.circuit p := by
    intro q circuit hq
    rw [CircuitBreakerMap.circuit_put, if_neg (Ne.symm hq)]
  cases c with
  | isAllowed q =>
    by_cases hq : q = p
    · subst hq
      have hput : (b.call (.isAllowed q)).state q = ((b.map.circuit q).isAllowed b.now).1.state := by
        simp [Breaker.call, Breaker.state, CircuitBreakerMap.isAllowed]
      cases hstate : b.state q with
      | «open» until' =>
        by_cases hnow : until' ≤ b.now
        · have hmoved : (b.call (.isAllowed q)).state q = .halfOpen := by
            rw [hput, ProviderCircuit.isAllowed, show (b.map.circuit q).state = _ from hstate]
            simp [hnow]
          rw [hmoved]
          exact .probes hstate hnow
        · refine hsame ?_
          rw [hput, ProviderCircuit.isAllowed, show (b.map.circuit q).state = _ from hstate]
          simp [hnow, Breaker.state]
      | _ =>
        refine hsame ?_
        rw [hput, ProviderCircuit.isAllowed, show (b.map.circuit q).state = _ from hstate]
        rfl
    · exact hsame (congrArg ProviderCircuit.state (hother q _ hq))
  | onSuccess q =>
    have hput := b.map.onSuccess_circuit q p
    by_cases hq : p = q
    · subst hq
      rw [if_pos rfl] at hput
      have hmoved : (b.call (.onSuccess p)).state p = .closed := hput
      rw [hmoved]
      exact .closes
    · rw [if_neg hq] at hput
      exact hsame hput
  | onFailure q =>
    by_cases hq : q = p
    · subst hq
      have hput : (b.call (.onFailure q)).state q = ((b.map.circuit q).onFailure b.now).state := by
        simp [Breaker.call, Breaker.state, CircuitBreakerMap.onFailure]
      by_cases hopens : FAILURE_THRESHOLD ≤ (b.map.circuit q).consecutiveFailures + 1 ∨
          (b.map.circuit q).state = .halfOpen
      · have hmoved : (b.call (.onFailure q)).state q =
            .open (b.now + CIRCUIT_BREAKER_COOLDOWN) := by
          rw [hput, ProviderCircuit.onFailure, if_pos hopens]
        rw [hmoved]
        exact .opens
      · refine hsame ?_
        rw [hput, ProviderCircuit.onFailure, if_neg hopens]
        rfl
    · exact hsame (congrArg ProviderCircuit.state (hother q _ hq))
  | recordLatency q latencyMs =>
    by_cases hq : q = p
    · subst hq
      have hput : (b.call (.recordLatency q latencyMs)).state q =
          ((b.map.circuit q).recordLatency latencyMs).state := by
        simp [Breaker.call, Breaker.state, CircuitBreakerMap.recordLatency]
      rw [ProviderCircuit.recordLatency] at hput
      split at hput
      · exact hsame hput
      · next hclosed =>
        rw [not_not, pushLatency_state] at hclosed
        split at hput
        · split at hput
          · rw [hput]
            exact .degrades hclosed
          · exact hsame hput
        · exact hsame hput
    · exact hsame (congrArg ProviderCircuit.state (hother q _ hq))
  | tick elapsed => exact hsame rfl

theorem call_now (b : Breaker) (c : BreakerCall) : b.now ≤ (b.call c).now := by
  cases c with
  | tick elapsed => exact Nat.le_add_right _ _
  | _ => exact le_rfl

/-- No circuit is open for longer than the cooldown from now. -/
def Breaker.Bounded (p : ProviderId) (b : Breaker) : Prop :=
  ∀ until', b.state p = .open until' → until' ≤ b.now + CIRCUIT_BREAKER_COOLDOWN

theorem Breaker.Bounded.call (h : b.Bounded p) (c : BreakerCall) : (b.call c).Bounded p := by
  intro until' hopen
  have hnow := call_now b c
  have hmoved := b.call_moved p c
  rw [hopen] at hmoved
  generalize hstate : CircuitState.open until' = state at hmoved
  cases hmoved with
  | stays =>
    have hbefore := h until' hstate.symm
    omega
  | opens =>
    obtain rfl := CircuitState.open.inj hstate
    omega
  | probes => cases hstate
  | closes => cases hstate
  | degrades => cases hstate

/-- Until this instant the circuit is open. -/
def Breaker.Blocked (p : ProviderId) (until' : ℕ) (b : Breaker) : Prop :=
  b.now < until' → ∃ u, until' ≤ u ∧ b.state p = .open u

theorem Breaker.Blocked.call {until' : ℕ} {c : BreakerCall} (h : b.Blocked p until')
    (hbound : until' ≤ b.now + CIRCUIT_BREAKER_COOLDOWN) (hearly : NotEarly p b c) :
    (b.call c).Blocked p until' := by
  intro hnow
  have hclock := call_now b c
  have hbefore : b.now < until' := by omega
  obtain ⟨u, hu, hopen⟩ := h hbefore
  have hmoved := b.call_moved p c
  generalize (b.call c).state p = state at hmoved ⊢
  cases hmoved with
  | stays => exact ⟨u, hu, hopen⟩
  | probes hopen' hpast =>
    obtain rfl := CircuitState.open.inj (hopen.symm.trans hopen')
    omega
  | closes =>
    have hpast := hearly rfl u hopen
    omega
  | opens => exact ⟨_, hbound, rfl⟩
  | degrades hclosed => cases hopen.symm.trans hclosed

theorem blocked_not_allowed {until' : ℕ} (h : b.Blocked p until') (hnow : b.now < until') :
    b.allows p = false := by
  obtain ⟨u, hu, hopen⟩ := h hnow
  have hstate : (b.map.circuit p).state = .open u := hopen
  have hahead : ¬ u ≤ b.now := by omega
  simp [Breaker.allows, CircuitBreakerMap.isAllowed, ProviderCircuit.isAllowed, hstate, hahead]

theorem allows_of_closed (h : b.state p = .closed) : b.allows p = true := by
  have hstate : (b.map.circuit p).state = .closed := h
  simp [Breaker.allows, CircuitBreakerMap.isAllowed, ProviderCircuit.isAllowed, hstate]

/-- A success that is not early keeps the circuit open. -/
theorem blocked_run (hbound : b.Bounded p) (h : EveryCall Breaker.call b calls (NotEarly p))
    {until' : ℕ} (hopen : b.state p = .open until') :
    (calls.foldl Breaker.call b).Blocked p until' ∧ b.now ≤ (calls.foldl Breaker.call b).now := by
  induction calls using List.reverseRecOn with
  | nil => exact ⟨fun _ => ⟨until', le_rfl, hopen⟩, le_rfl⟩
  | append_singleton calls c ih =>
    obtain ⟨hbefore, hlast⟩ := everyCall_concat.mp h
    obtain ⟨hblocked, hclock⟩ := ih hbefore
    have huntil := hbound until' hopen
    rw [List.foldl_concat]
    exact ⟨hblocked.call (by omega) hlast, hclock.trans (call_now _ c)⟩

end Runs

/-- An open circuit lets nothing pass before `until` exactly when no request that started before
succeeds in the meantime. -/
theorem open_circuit_blocks_iff (p : ProviderId) (now : ℕ) (calls : List BreakerCall) :
    OpenBlocks p (Breaker.init now) calls ↔
      EveryCall Breaker.call (Breaker.init now) calls (NotEarly p) := by
  constructor
  · rintro h before c hprefix rfl until' hopen
    by_contra hearly
    have hclosed : ((before ++ [BreakerCall.onSuccess p]).foldl Breaker.call (Breaker.init now)).state p =
        .closed := by
      rw [List.foldl_concat]
      exact (CircuitBreakerMap.onSuccess_circuit _ p p).trans (if_pos rfl)
    have hahead : ((before ++ [BreakerCall.onSuccess p]).foldl Breaker.call (Breaker.init now)).now <
        until' := by
      rw [List.foldl_concat]
      exact not_le.mp hearly
    have hblocked := h before [.onSuccess p] hprefix until' hopen hahead
    rw [allows_of_closed hclosed] at hblocked
    cases hblocked
  · intro h before after hprefix until' hopen hnow
    have hbound : (before.foldl Breaker.call (Breaker.init now)).Bounded p :=
      foldl_invariant (I := Breaker.Bounded p) (by intro u hu; cases hu)
        (fun _ c hb => hb.call c) before
    have hlater : EveryCall Breaker.call (before.foldl Breaker.call (Breaker.init now)) after
        (NotEarly p) := by
      intro mid c hmid
      have hwhole : (before ++ mid) ++ [c] <+: calls := by
        rw [List.append_assoc]
        exact ((List.prefix_append_right_inj before).mpr hmid).trans hprefix
      have hearly := h (before ++ mid) c hwhole
      rwa [List.foldl_append] at hearly
    rw [List.foldl_append] at hnow ⊢
    exact blocked_not_allowed (blocked_run hbound hlater hopen).1 hnow

/-- Five requests fail, a sixth, started before, succeeds. -/
theorem late_success_closes_circuit :
    ¬ ∀ calls, OpenBlocks 0 (Breaker.init 0) calls := by
  intro hall
  have hopens := hall (List.replicate 5 (.onFailure 0) ++ [.onSuccess 0])
    (List.replicate 5 (.onFailure 0)) [.onSuccess 0] (List.prefix_refl _) 60000 (by decide) (by decide)
  revert hopens
  decide

end Veronex
