import Veronex.Domain.Values
import Veronex.Foundation.Transition
import Mathlib.Logic.Function.Basic
import Mathlib.Data.List.Basic

/-! # The circuit breaker of the MCP servers

`veronex-mcp/src/circuit_breaker.rs` and what `execute_one` (`bridge.rs`) tells it. Every operation
runs under the lock of the server's entry, so that it is one step; a call is in progress between its
check and its end.

`guards` is kept for the statements: what each opening of a circuit still asks for. `lets_through`:
which steps keep a circuit to it.
-/
namespace Veronex.Mcp
set_option autoImplicit false
open Concurrency

def FAILURE_THRESHOLD : ℕ := 5

/-- 60 s, in ms. -/
def HALF_OPEN_AFTER : ℕ := 60000

inductive ServerState
  | closed (consecutiveFailures : ℕ)
  | open (since : ℕ)
  | halfOpen
  deriving DecidableEq

namespace ServerState

def new : ServerState := .closed 0

def recordSuccess (_ : ServerState) : ServerState := .closed 0

def recordFailure (now : ℕ) : ServerState → ServerState
  | .closed failures =>
    if FAILURE_THRESHOLD ≤ failures + 1 then .open now else .closed (failures + 1)
  | .open since => .open since
  | .halfOpen => .open now

/-- The answer: whether the circuit is open. -/
def checkAndMaybePromote (now : ℕ) : ServerState → ServerState × Bool
  | .open since => if since + HALF_OPEN_AFTER ≤ now then (.halfOpen, false) else (.open since, true)
  | .closed failures => (.closed failures, false)
  | .halfOpen => (.halfOpen, false)

end ServerState

/-- How a call that was let through ends. -/
inductive CallEnd
  /-- The result of the tool is in the cache. -/
  | cacheHit
  | toolResult (isError : Bool)
  | failed
  | timedOut
  /-- The request it was made for is gone. -/
  | dropped
  deriving DecidableEq

/-- What is recorded: whether the call has succeeded. -/
def CallEnd.recorded : CallEnd → Option Bool
  | .toolResult isError => some (!isError)
  | .failed | .timedOut => some false
  | .cacheHit | .dropped => none

/-- What the opening of a circuit asks for. -/
inductive Guard
  /-- Nothing passes for `HALF_OPEN_AFTER`, and then one call. -/
  | waiting (since : ℕ)
  /-- Nothing passes until the outcome of this call is recorded. -/
  | probing (call : ℕ)
  deriving DecidableEq

/-- A call that was let through. -/
structure ServerCall where
  server : Uuid
  ended : Bool
  deriving DecidableEq

structure BreakerWorld where
  now : ℕ
  /-- A server without an entry has the state of a new one. -/
  servers : Uuid → ServerState
  calls : List ServerCall
  guards : Uuid → List Guard

inductive BreakerAction
  /-- `is_open`, before a call. -/
  | check (server : Uuid)
  | finish (k : ℕ) (outcome : CallEnd)
  | tick (elapsed : ℕ)

namespace Guard

def passes (now : ℕ) : Guard → Bool
  | .waiting since => decide (since + HALF_OPEN_AFTER ≤ now)
  | .probing _ => false

/-- The guard after this call was let through. -/
def probedBy (k : ℕ) : Guard → Guard
  | .waiting _ => .probing k
  | .probing j => .probing j

/-- What a new state of a circuit adds. -/
def opened : ServerState → ServerState → List Guard
  | .open _, .open _ => []
  | _, .open since => [.waiting since]
  | _, _ => []

end Guard

namespace BreakerWorld

def init : BreakerWorld :=
  { now := 0, servers := fun _ => .new, calls := [], guards := fun _ => [] }

section Steps
variable (w : BreakerWorld)

def isOpen (server : Uuid) : Bool := ((w.servers server).checkAndMaybePromote w.now).2

/-- `record_success` or `record_failure`. -/
def record (server : Uuid) (success : Bool) : ServerState :=
  if success then (w.servers server).recordSuccess else (w.servers server).recordFailure w.now

def step (w : BreakerWorld) : BreakerAction → Option BreakerWorld
  | .check server =>
    let w' := { w with
      servers := Function.update w.servers server
        ((w.servers server).checkAndMaybePromote w.now).1 }
    if w.isOpen server then some w'
    else some { w' with
      calls := w.calls ++ [⟨server, false⟩]
      guards := Function.update w.guards server
        ((w.guards server).map (Guard.probedBy w.calls.length)) }
  | .finish k outcome => do
    let c ← w.calls[k]?
    if c.ended then none
    else
      let calls := w.calls.set k { c with ended := true }
      match outcome.recorded with
      | none => some { w with calls }
      | some success =>
        let state := w.record c.server success
        some { w with
          calls
          servers := Function.update w.servers c.server state
          guards := Function.update w.guards c.server
            ((w.guards c.server).filter (· ≠ .probing k) ++
              Guard.opened (w.servers c.server) state) }
  | .tick elapsed => some { w with now := w.now + elapsed }

end Steps

/-- A call is let through exactly if every guard of its server lets it pass. -/
def Obeys (w : BreakerWorld) : BreakerAction → Prop
  | .check server => w.isOpen server = false ↔ ∀ g ∈ w.guards server, g.passes w.now = true
  | _ => True

/-- No call comes while the circuit is half open, and no call but the probe ends then with an
outcome; nor does one succeed while the circuit is open. -/
def Sequential (w : BreakerWorld) : BreakerAction → Prop
  | .check server => w.servers server ≠ .halfOpen
  | .finish k outcome => ∀ c ∈ w.calls[k]?, ∀ success ∈ outcome.recorded,
    match w.servers c.server with
    | .closed _ => True
    | .open _ => success = false
    | .halfOpen => .probing k ∈ w.guards c.server
  | .tick _ => True

/-! ## States -/

variable {w w' : BreakerWorld} {a : BreakerAction} {server : Uuid}

/-- A circuit is in the state its one guard says. -/
def Agrees : ServerState → List Guard → Prop
  | .closed _, guards => guards = []
  | .open since, guards => guards = [.waiting since]
  | .halfOpen, guards => ∃ k, guards = [.probing k]

def Ordered (w : BreakerWorld) : Prop := ∀ server, Agrees (w.servers server) (w.guards server)

theorem ordered_update (h : w.Ordered) {state : ServerState} {guards : List Guard}
    (hagrees : Agrees state guards) (s : Uuid) :
    Agrees (Function.update w.servers server state s) (Function.update w.guards server guards s) := by
  by_cases hs : s = server
  · subst hs
    rw [Function.update_self, Function.update_self]
    exact hagrees
  · rw [Function.update_of_ne hs, Function.update_of_ne hs]
    exact h s

/-- An opened circuit has one new guard. -/
theorem agrees_recordFailure {now k : ℕ} {state : ServerState} {guards : List Guard}
    (h : Agrees state guards) (hprobe : state = .halfOpen → Guard.probing k ∈ guards) :
    Agrees (state.recordFailure now)
      (guards.filter (· ≠ .probing k) ++ Guard.opened state (state.recordFailure now)) := by
  cases state with
  | closed failures =>
    obtain rfl : guards = [] := h
    simp only [ServerState.recordFailure]
    split
    · rfl
    · rfl
  | «open» since =>
    obtain rfl : guards = [.waiting since] := h
    rfl
  | halfOpen =>
    obtain ⟨j, rfl⟩ := h
    obtain rfl : k = j := by simpa using hprobe rfl
    simp [ServerState.recordFailure, Guard.opened, Agrees]

theorem agrees_recordSuccess {k : ℕ} {state : ServerState} {guards : List Guard}
    (h : Agrees state guards) (hopen : ∀ since, state ≠ .open since)
    (hprobe : state = .halfOpen → Guard.probing k ∈ guards) :
    Agrees state.recordSuccess
      (guards.filter (· ≠ .probing k) ++ Guard.opened state state.recordSuccess) := by
  cases state with
  | closed failures =>
    obtain rfl : guards = [] := h
    rfl
  | «open» since => exact absurd rfl (hopen since)
  | halfOpen =>
    obtain ⟨j, rfl⟩ := h
    obtain rfl : k = j := by simpa using hprobe rfl
    simp [ServerState.recordSuccess, Guard.opened, Agrees]

/-- What a check makes of a circuit. -/
theorem agrees_check {now : ℕ} {state : ServerState} {guards : List Guard}
    (h : Agrees state guards) (hhalf : state ≠ .halfOpen) (k : ℕ) :
    ((state.checkAndMaybePromote now).2 = true →
      (state.checkAndMaybePromote now).1 = state ∧ ∃ g ∈ guards, g.passes now = false) ∧
    ((state.checkAndMaybePromote now).2 = false →
      Agrees (state.checkAndMaybePromote now).1 (guards.map (Guard.probedBy k)) ∧
        ∀ g ∈ guards, g.passes now = true) := by
  cases state with
  | closed failures =>
    obtain rfl : guards = [] := h
    exact ⟨by rintro ⟨⟩, fun _ => ⟨rfl, by rintro _ ⟨⟩⟩⟩
  | «open» since =>
    obtain rfl : guards = [.waiting since] := h
    by_cases helapsed : since + HALF_OPEN_AFTER ≤ now
    · simp [ServerState.checkAndMaybePromote, Guard.passes, Guard.probedBy, Agrees, helapsed]
    · simp [ServerState.checkAndMaybePromote, Guard.passes, helapsed]
  | halfOpen => exact absurd rfl hhalf

/-- A step that comes in order keeps the circuit to its guard. -/
theorem step_ordered (h : w.Ordered) (ha : w.Sequential a) (hs : w.step a = some w') :
    w'.Ordered ∧ w.Obeys a := by
  cases a with
  | check server =>
    obtain ⟨hblocked, hpassed⟩ := agrees_check (h server) ha w.calls.length
    simp only [step] at hs
    by_cases hopen : w.isOpen server = true
    · rw [if_pos hopen] at hs
      obtain rfl : _ = w' := Option.some.inj hs
      obtain ⟨hstays, g, hg, hblocks⟩ := hblocked hopen
      refine ⟨?_, iff_of_false (by simp [hopen]) fun hall => ?_⟩
      · intro s
        dsimp only
        rw [hstays, Function.update_eq_self]
        exact h s
      · rw [hall g hg] at hblocks
        cases hblocks
    · rw [if_neg hopen] at hs
      obtain rfl : _ = w' := Option.some.inj hs
      rw [Bool.not_eq_true] at hopen
      obtain ⟨hagrees, hall⟩ := hpassed hopen
      exact ⟨ordered_update h hagrees, iff_of_true hopen hall⟩
  | finish k outcome =>
    obtain ⟨c, hc, hs⟩ := Option.bind_eq_some_iff.mp hs
    obtain ⟨-, hs⟩ := Option.ite_none_left_eq_some.mp hs
    refine ⟨?_, trivial⟩
    cases hrecorded : outcome.recorded with
    | none =>
      rw [hrecorded] at hs
      obtain rfl : _ = w' := Option.some.inj hs
      exact h
    | some success =>
      rw [hrecorded] at hs
      obtain rfl : _ = w' := Option.some.inj hs
      have hcond := ha c hc success hrecorded
      have hprobe : w.servers c.server = .halfOpen → Guard.probing k ∈ w.guards c.server := by
        intro hstate
        rw [hstate] at hcond
        exact hcond
      cases success with
      | true =>
        have hopen : ∀ since, w.servers c.server ≠ .open since := by
          intro since hstate
          rw [hstate] at hcond
          cases hcond
        exact ordered_update h (agrees_recordSuccess (h c.server) hopen hprobe)
      | false => exact ordered_update h (agrees_recordFailure (h c.server) hprobe)
  | tick elapsed =>
    obtain rfl : _ = w' := Option.some.inj hs
    exact ⟨h, trivial⟩

theorem run_ordered (h : Run step Sequential init w) : w.Ordered :=
  h.invariant (fun _ => rfl) fun _ _ _ _ hi ha hs => (step_ordered hi ha hs).1

/-! ## Steps out of order -/

/-- From here a run leads to a step that does not keep to the guards. -/
def Fails (w : BreakerWorld) : Prop := ∃ v a, Run step (fun _ _ => True) w v ∧ ¬ v.Obeys a

theorem fails_of_check (h : w.isOpen server = false) {k : ℕ} (hk : Guard.probing k ∈ w.guards server) :
    w.Fails := by
  refine ⟨w, .check server, .refl w, fun hobeys => ?_⟩
  have hpasses := hobeys.mp h _ hk
  cases hpasses

/-- A closed circuit lets a second call through. -/
theorem fails_of_closed {failures : ℕ} {g : Guard} (server : Uuid)
    (h : w.servers server = .closed failures) (hg : g ∈ w.guards server) : w.Fails := by
  have hpass : ∀ v : BreakerWorld, v.servers server = .closed failures → v.isOpen server = false := by
    intro v hv
    rw [isOpen, hv]
    rfl
  obtain ⟨v, hv⟩ : ∃ v, w.step (.check server) = some v := by
    simp only [step]
    split
    · exact ⟨_, rfl⟩
    · exact ⟨_, rfl⟩
  have hnot : ¬ w.isOpen server = true := by rw [hpass w h]; exact Bool.false_ne_true
  have hprobes : v.servers server = .closed failures ∧
      ∃ k, Guard.probing k ∈ v.guards server := by
    simp only [step] at hv
    rw [if_neg hnot] at hv
    obtain rfl : _ = v := Option.some.inj hv
    dsimp only
    rw [Function.update_self, Function.update_self, h]
    refine ⟨rfl, ?_⟩
    have hmem := List.mem_map_of_mem (f := Guard.probedBy w.calls.length) hg
    cases g with
    | waiting since => exact ⟨_, hmem⟩
    | probing j => exact ⟨_, hmem⟩
  obtain ⟨hclosed, k, hk⟩ := hprobes
  obtain ⟨u, a, hrun, hfails⟩ := fails_of_check (hpass v hclosed) hk
  exact ⟨u, a, (Run.single trivial hv).trans hrun, hfails⟩

/-- A circuit that has opened again lets a second probe through beside the first one. -/
theorem fails_of_open {since k : ℕ} (server : Uuid) (h : w.servers server = .open since)
    (hnow : since ≤ w.now) (hk : Guard.probing k ∈ w.guards server) : w.Fails := by
  have hpass : isOpen { w with now := w.now + HALF_OPEN_AFTER } server = false := by
    have helapsed : since + HALF_OPEN_AFTER ≤ w.now + HALF_OPEN_AFTER := by omega
    simp [isOpen, h, ServerState.checkAndMaybePromote, helapsed]
  obtain ⟨v, a, hrun, hfails⟩ := fails_of_check hpass hk
  exact ⟨v, a, (Run.single trivial (a := .tick HALF_OPEN_AFTER) rfl).trans hrun, hfails⟩

/-- A step out of order can be followed by a call that passes against a guard. -/
theorem step_fails (h : w.Ordered) (ha : ¬ w.Sequential a) (hs : w.step a = some w') :
    ¬ w.Obeys a ∨ w'.Fails := by
  cases a with
  | check server =>
    left
    have hhalf : w.servers server = .halfOpen := not_not.mp ha
    have hagrees := h server
    rw [hhalf] at hagrees
    obtain ⟨k, hk⟩ := hagrees
    intro hobeys
    have hpass : w.isOpen server = false := by rw [isOpen, hhalf]; rfl
    have hblocks := hobeys.mp hpass (.probing k) (by rw [hk]; exact List.mem_singleton_self _)
    cases hblocks
  | finish k outcome =>
    right
    obtain ⟨c, hc, hs⟩ := Option.bind_eq_some_iff.mp hs
    obtain ⟨-, hs⟩ := Option.ite_none_left_eq_some.mp hs
    simp only [Sequential, hc, Option.mem_def, Option.some.injEq, forall_eq', not_forall] at ha
    obtain ⟨success, hrecorded, hbad⟩ := ha
    rw [hrecorded] at hs
    obtain rfl : _ = w' := Option.some.inj hs
    have hagrees := h c.server
    cases hstate : w.servers c.server with
    | closed failures =>
      rw [hstate] at hbad
      exact absurd trivial hbad
    | «open» since =>
      rw [hstate] at hbad hagrees
      obtain rfl : success = true := Bool.not_eq_false _ ▸ hbad
      have hguard : Guard.waiting since ∈ (w.guards c.server).filter (· ≠ .probing k) := by
        rw [hagrees]
        simp
      refine fails_of_closed c.server (g := .waiting since) (Function.update_self ..) ?_
      dsimp only
      rw [Function.update_self]
      exact List.mem_append_left _ hguard
    | halfOpen =>
      rw [hstate] at hbad hagrees
      obtain ⟨j, hj⟩ := hagrees
      have hmem : Guard.probing j ∈ (w.guards c.server).filter (· ≠ .probing k) := by
        rw [hj] at hbad ⊢
        have hne : j ≠ k := by
          rintro rfl
          exact hbad (List.mem_singleton_self _)
        simp [hne]
      cases success with
      | true =>
        refine fails_of_closed c.server (g := .probing j) (Function.update_self ..) ?_
        dsimp only
        rw [Function.update_self]
        exact List.mem_append_left _ hmem
      | false =>
        have hopens : w.record c.server false = .open w.now := by
          rw [record, hstate]
          rfl
        refine fails_of_open c.server (k := j) ((Function.update_self ..).trans hopens) le_rfl ?_
        dsimp only
        rw [Function.update_self]
        exact List.mem_append_left _ hmem
  | tick elapsed => exact absurd trivial ha

/-- While every step comes in order, every check lets a call through exactly as the guards say; the
first one out of order does not, or it leads to a check that does not. -/
theorem lets_through (h : Run step Sequential init w) (hs : w.step a = some w') :
    (w.Sequential a → w.Obeys a) ∧ (¬ w.Sequential a → ¬ w.Obeys a ∨ w'.Fails) := by
  have hordered := run_ordered h
  exact ⟨fun ha => (step_ordered hordered ha hs).2, fun ha => step_fails hordered ha hs⟩

instance (w : BreakerWorld) (a : BreakerAction) : Decidable (w.Obeys a) := by
  cases a with
  | check => exact inferInstanceAs (Decidable (_ ↔ ∀ g ∈ (_ : List Guard), _))
  | finish | tick => exact isTrue trivial

instance (w : BreakerWorld) (a : BreakerAction) : Decidable (w.Sequential a) := by
  cases a with
  | check => exact inferInstanceAs (Decidable (_ ≠ _))
  | finish k outcome =>
    have hmatch : ∀ (c : ServerCall) (success : Bool), Decidable (match w.servers c.server with
        | .closed _ => True
        | .open _ => success = false
        | .halfOpen => Guard.probing k ∈ w.guards c.server) := by
      intro c success
      cases w.servers c.server with
      | closed => exact isTrue trivial
      | «open» => exact inferInstanceAs (Decidable (_ = _))
      | halfOpen => exact inferInstanceAs (Decidable (_ ∈ _))
    exact inferInstanceAs (Decidable (∀ c ∈ (_ : Option ServerCall), ∀ success ∈ (_ : Option Bool), _))
  | tick => exact isTrue trivial

/-- Five calls fail, one after the other. -/
def fiveFailures : List BreakerAction :=
  .flatten ((List.range 5).map fun k => [.check 3, .finish k .timedOut])

theorem lets_through_probe : ∃ w, Run step Sequential init w ∧ w.servers 3 = .open 0 ∧
    w.now = 60000 ∧ w.Obeys (.check 3) := by
  have hexec : (exec step (fun w a => decide (w.Sequential a)) init
      (.flatten [fiveFailures, [.check 3, .tick 60000]])).any
      (fun w => decide (w.servers 3 = .open 0 ∧ w.now = 60000 ∧ (w.step (.check 3)).isSome = true))
        = true := by decide
  obtain ⟨w, hrun, hw⟩ := Run.exists_of_exec (fun _ _ h => of_decide_eq_true h) hexec
  obtain ⟨hstate, hnow, henabled⟩ := of_decide_eq_true hw
  obtain ⟨w', hs⟩ := Option.isSome_iff_exists.mp henabled
  refine ⟨w, hrun, hstate, hnow, (lets_through hrun hs).1 ?_⟩
  intro hhalf
  rw [hstate] at hhalf
  cases hhalf

/-- A second call comes while the probe is in progress; and a call from before the circuit opened
succeeds. -/
theorem lets_through_too_much :
    (∃ w, Run step (fun _ _ => True) init w ∧ w.servers 3 = .halfOpen ∧ w.guards 3 = [.probing 5] ∧
      ¬ w.Obeys (.check 3)) ∧
    ∃ w, Run step (fun _ _ => True) init w ∧ w.now = 0 ∧ w.guards 3 = [.waiting 0] ∧
      ¬ w.Obeys (.check 3) := by
  have hprobe : (exec step (fun _ _ => true) init
      (.flatten [fiveFailures, [.tick 60000, .check 3]])).any
      (fun w => decide (w.servers 3 = .halfOpen ∧ w.guards 3 = [.probing 5] ∧
        ¬ w.Obeys (.check 3))) = true := by decide
  have hlate : (exec step (fun _ _ => true) init
      (.flatten [.replicate 6 (.check 3), (List.range 5).map fun k => .finish k .failed,
        [.finish 5 (.toolResult false)]])).any
      (fun w => decide (w.now = 0 ∧ w.guards 3 = [.waiting 0] ∧ ¬ w.Obeys (.check 3))) = true := by
    decide
  obtain ⟨w, hrun, hw⟩ := Run.exists_of_exec (fun _ _ _ => trivial) hprobe
  obtain ⟨v, hrun', hv⟩ := Run.exists_of_exec (fun _ _ _ => trivial) hlate
  exact ⟨⟨w, hrun, of_decide_eq_true hw⟩, v, hrun', of_decide_eq_true hv⟩

end BreakerWorld
end Veronex.Mcp
