import Veronex.Capacity.VramPool
import Veronex.Foundation.Transition
import Mathlib.Order.WithBot
import Mathlib.Algebra.Order.Ring.Rat

/-! # The thermal throttle

`infrastructure/outbound/capacity/thermal.rs`. `update` reads the state of its provider, computes the
next level and writes it back in three separate steps; the planner's `set_cooldown` may come in
between. The health checker runs one update of a provider at a time.

* `hard_reading_holds`: after a reading at or above `hard_at` no level that is dispatched to appears
  before `cooldown_secs`.
* `snapshot_kept`: the snapshot of the first Hard binds until Normal, unless the provider passes
  through Soft or enters Hard again.
-/
namespace Veronex
set_option autoImplicit false
open Concurrency

/-! ## Temperatures -/

/-- An `f32` as far as comparisons go; `none` is NaN. -/
abbrev F32 := Option (WithBot (WithTop ℚ))

namespace F32

/-- `a >= b` -/
def ge (a b : F32) : Bool :=
  match a, b with
  | some x, some y => decide (y ≤ x)
  | _, _ => false

/-- `a < b` -/
def lt (a b : F32) : Bool :=
  match a, b with
  | some x, some y => decide (x < y)
  | _, _ => false

def ofRat (q : ℚ) : F32 := some ((q : WithTop ℚ) : WithBot (WithTop ℚ))

theorem lt_eq_false_of_ge {a b : F32} (h : ge a b = true) : lt a b = false := by
  cases a with
  | none => cases h
  | some x =>
    cases b with
    | none => cases h
    | some y =>
      have hle : y ≤ x := of_decide_eq_true h
      exact decide_eq_false (not_lt.mpr hle)

end F32

/-! ## The state -/

inductive ThrottleLevel
  | normal
  | soft
  | hard
  | cooldown
  | rampUp
  deriving DecidableEq

structure ThermalThresholds where
  normalBelow : F32
  softAt : F32
  hardAt : F32

def ThermalThresholds.gpu : ThermalThresholds :=
  { normalBelow := .ofRat 80, softAt := .ofRat 88, hardAt := .ofRat 93 }

def ThermalThresholds.cpu : ThermalThresholds :=
  { normalBelow := .ofRat 75, softAt := .ofRat 82, hardAt := .ofRat 90 }

structure ThrottleState where
  level : ThrottleLevel
  tempC : F32
  hardSince : Option ℕ
  cooldownEnteredAt : Option ℕ
  preHardTotal : ℕ

/-- What an update reads where there is no state. -/
def ThrottleState.none : ThrottleState :=
  { level := .normal, tempC := Option.none, hardSince := Option.none
    cooldownEnteredAt := Option.none, preHardTotal := 0 }

/-- An update of a provider: what it was called with and what it has read. -/
structure ThermalUpdate where
  tempC : F32
  activeCount : ℕ
  sumMaxConcurrent : ℕ
  prev : ThrottleState
  th : ThermalThresholds
  /-- The level, once computed. -/
  next : Option ThrottleLevel

structure Thermal where
  /-- In ms. -/
  now : ℕ
  cooldownSecs : ℕ
  states : ProviderId → Option ThrottleState
  thresholds : ProviderId → Option ThermalThresholds
  updates : ProviderId → Option ThermalUpdate

/-! ## `update` -/

namespace ThermalUpdate
variable (u : ThermalUpdate) (now cooldownSecs : ℕ)

/-- Whether an instant was set and lies this many seconds back. -/
def elapsed (since : Option ℕ) (secs : ℕ) : Bool :=
  match since with
  | some t => decide (secs ≤ (now - t) / 1000)
  | none => false

def nextLevel : ThrottleLevel :=
  match u.prev.level with
  | .normal =>
    if u.tempC.ge u.th.hardAt then .hard
    else if u.tempC.ge u.th.softAt then .soft
    else .normal
  | .soft =>
    if u.tempC.ge u.th.hardAt then .hard
    else if u.tempC.lt u.th.normalBelow ∧ u.activeCount = 0 then .normal
    else .soft
  | .hard =>
    if u.tempC.ge u.th.hardAt then .hard
    else if elapsed now u.prev.hardSince cooldownSecs then .cooldown
    else .hard
  | .cooldown =>
    if u.tempC.ge u.th.hardAt then .cooldown
    else
      let cooldownElapsed := elapsed now u.prev.cooldownEnteredAt cooldownSecs
      let maxWaitExceeded := elapsed now u.prev.cooldownEnteredAt (cooldownSecs * 3 % U64)
      if cooldownElapsed ∧ u.tempC.lt u.th.softAt then .rampUp
      else if maxWaitExceeded then
        if u.tempC.ge u.th.softAt then .soft else .rampUp
      else .cooldown
  | .rampUp =>
    if u.tempC.ge u.th.hardAt then .hard
    else if u.tempC.ge u.th.softAt then .soft
    else if u.tempC.lt u.th.normalBelow then
      if u.prev.preHardTotal = 0 ∨ u.prev.preHardTotal ≤ u.sumMaxConcurrent then .normal
      else .rampUp
    else .rampUp

/-- The state the update writes for a level; `none` removes it. -/
def persisted (next : ThrottleLevel) : Option ThrottleState :=
  match next with
  | .normal => none
  | .soft =>
    some { level := .soft, tempC := u.tempC, hardSince := none, cooldownEnteredAt := none
           preHardTotal := 0 }
  | .hard =>
    let hardSince := if u.prev.level = .hard then u.prev.hardSince else some now
    let preHardTotal := if u.prev.level = .hard then u.prev.preHardTotal else u.sumMaxConcurrent
    some { level := .hard, tempC := u.tempC, hardSince, cooldownEnteredAt := none, preHardTotal }
  | .cooldown =>
    let cooldownEnteredAt :=
      if u.prev.level = .cooldown ∧ u.tempC.lt u.th.hardAt then u.prev.cooldownEnteredAt
      else some now
    some { level := .cooldown, tempC := u.tempC, hardSince := none, cooldownEnteredAt
           preHardTotal := u.prev.preHardTotal }
  | .rampUp =>
    some { level := .rampUp, tempC := u.tempC, hardSince := none, cooldownEnteredAt := none
           preHardTotal := u.prev.preHardTotal }

end ThermalUpdate

/-! ## Steps -/

inductive ThermalAction
  | tick (elapsed : ℕ)
  | setThresholds (p : ProviderId) (th : ThermalThresholds)
  /-- `update` up to its reads. -/
  | read (p : ProviderId) (tempC : F32) (activeCount sumMaxConcurrent : ℕ)
  | compute (p : ProviderId)
  | persist (p : ProviderId)
  | setCooldown (p : ProviderId)

namespace Thermal

def get (s : Thermal) (p : ProviderId) : ThrottleLevel :=
  match s.states p with
  | some state => state.level
  | none => .normal

def getThresholds (s : Thermal) (p : ProviderId) : ThermalThresholds :=
  (s.thresholds p).getD .cpu

def setState (s : Thermal) (p : ProviderId) (state : Option ThrottleState) : Thermal :=
  { s with states := Function.update s.states p state }

def setUpdate (s : Thermal) (p : ProviderId) (u : Option ThermalUpdate) : Thermal :=
  { s with updates := Function.update s.updates p u }

/-- `set_cooldown`. -/
def setCooldown (s : Thermal) (p : ProviderId) : Thermal :=
  match s.states p with
  | some state =>
    if state.level = .hard then
      s.setState p (some { state with
        level := .cooldown, hardSince := none, cooldownEnteredAt := some s.now })
    else s
  | none => s

def step (s : Thermal) : ThermalAction → Option Thermal
  | .tick elapsed => some { s with now := s.now + elapsed }
  | .setThresholds p th => some { s with thresholds := Function.update s.thresholds p (some th) }
  | .read p tempC activeCount sumMaxConcurrent =>
    match s.updates p with
    | some _ => none
    | none => some (s.setUpdate p (some
        { tempC, activeCount, sumMaxConcurrent, prev := (s.states p).getD .none
          th := s.getThresholds p, next := none }))
  | .compute p => do
    let u ← s.updates p
    if u.next.isSome then none
    else return s.setUpdate p (some { u with next := some (u.nextLevel s.now s.cooldownSecs) })
  | .persist p => do
    let u ← s.updates p
    let next ← u.next
    return (s.setState p (u.persisted s.now next)).setUpdate p none
  | .setCooldown p => some (s.setCooldown p)

/-- `ThermalThrottleMap::new`. -/
def new (cooldownSecs : ℕ) : Thermal :=
  { now := 0, cooldownSecs, states := fun _ => none, thresholds := fun _ => none
    updates := fun _ => none }

end Thermal

/-! ## What a step can be -/

/-- What a step does to the state and the update of a provider. -/
inductive ThermalMoved (p : ProviderId) (s s' : Thermal) : ThermalAction → Prop
  | idle (a : ThermalAction) (hstate : s'.states p = s.states p)
      (hupdate : s'.updates p = s.updates p) : ThermalMoved p s s' a
  | reads {tempC : F32} {activeCount sumMaxConcurrent : ℕ} (hstate : s'.states p = s.states p)
      (hupdate : s'.updates p = some
        { tempC, activeCount, sumMaxConcurrent, prev := (s.states p).getD .none
          th := s.getThresholds p, next := none }) :
      ThermalMoved p s s' (.read p tempC activeCount sumMaxConcurrent)
  | computes {u : ThermalUpdate} (hu : s.updates p = some u) (hstate : s'.states p = s.states p)
      (hupdate : s'.updates p = some { u with next := some (u.nextLevel s.now s.cooldownSecs) }) :
      ThermalMoved p s s' (.compute p)
  | persists {u : ThermalUpdate} {next : ThrottleLevel} (hu : s.updates p = some u)
      (hnext : u.next = some next) (hstate : s'.states p = u.persisted s.now next)
      (hupdate : s'.updates p = none) : ThermalMoved p s s' (.persist p)
  | cools {state : ThrottleState} (hbefore : s.states p = some state) (hhard : state.level = .hard)
      (hstate : s'.states p = some { state with
        level := .cooldown, hardSince := none, cooldownEnteredAt := some s.now })
      (hupdate : s'.updates p = s.updates p) : ThermalMoved p s s' (.setCooldown p)

section Steps
variable {p : ProviderId} {s s' t : Thermal} {a : ThermalAction}

@[simp] theorem setState_states (s : Thermal) (p : ProviderId) (state : Option ThrottleState) :
    (s.setState p state).states = Function.update s.states p state := rfl

@[simp] theorem setUpdate_states (s : Thermal) (p : ProviderId) (u : Option ThermalUpdate) :
    (s.setUpdate p u).states = s.states := rfl

@[simp] theorem setUpdate_updates (s : Thermal) (p : ProviderId) (u : Option ThermalUpdate) :
    (s.setUpdate p u).updates = Function.update s.updates p u := rfl

theorem Thermal.step_moved (p : ProviderId) (h : s.step a = some s') : ThermalMoved p s s' a := by
  cases a with
  | tick elapsed => obtain rfl := Option.some.inj h; exact .idle _ rfl rfl
  | setThresholds q th => obtain rfl := Option.some.inj h; exact .idle _ rfl rfl
  | read q tempC activeCount sumMaxConcurrent =>
    simp only [Thermal.step] at h
    split at h
    · cases h
    · obtain rfl := Option.some.inj h
      by_cases hq : p = q
      · subst hq
        exact .reads rfl (by simp)
      · exact .idle _ rfl (by simp [hq])
  | compute q =>
    obtain ⟨u, hu, h⟩ := Option.bind_eq_some_iff.mp h
    split at h
    · cases h
    · obtain rfl := Option.some.inj h
      by_cases hq : p = q
      · subst hq
        exact .computes hu rfl (by simp)
      · exact .idle _ rfl (by simp [hq])
  | persist q =>
    obtain ⟨u, hu, h⟩ := Option.bind_eq_some_iff.mp h
    obtain ⟨next, hnext, h⟩ := Option.bind_eq_some_iff.mp h
    obtain rfl := Option.some.inj h
    by_cases hq : p = q
    · subst hq
      exact .persists hu hnext (by simp) (by simp)
    · exact .idle _ (by simp [hq]) (by simp [hq, Thermal.setState])
  | setCooldown q =>
    obtain rfl := Option.some.inj h
    unfold Thermal.setCooldown
    cases hstate : s.states q with
    | none => exact .idle _ rfl rfl
    | some state =>
      dsimp only
      split
      · next hhard =>
        by_cases hq : p = q
        · subst hq
          exact .cools hstate hhard (by simp) rfl
        · exact .idle _ (by simp [hq]) rfl
      · exact .idle _ rfl rfl

theorem step_clock (h : s.step a = some s') :
    s'.cooldownSecs = s.cooldownSecs ∧ s.now ≤ s'.now := by
  cases a with
  | tick elapsed => obtain rfl := Option.some.inj h; exact ⟨rfl, Nat.le_add_right _ _⟩
  | setThresholds q th => obtain rfl := Option.some.inj h; exact ⟨rfl, le_rfl⟩
  | read q tempC activeCount sumMaxConcurrent =>
    simp only [Thermal.step] at h
    split at h
    · cases h
    · obtain rfl := Option.some.inj h
      exact ⟨rfl, le_rfl⟩
  | compute q =>
    obtain ⟨u, hu, h⟩ := Option.bind_eq_some_iff.mp h
    split at h
    · cases h
    · obtain rfl := Option.some.inj h
      exact ⟨rfl, le_rfl⟩
  | persist q =>
    obtain ⟨u, hu, h⟩ := Option.bind_eq_some_iff.mp h
    obtain ⟨next, hnext, h⟩ := Option.bind_eq_some_iff.mp h
    obtain rfl := Option.some.inj h
    exact ⟨rfl, le_rfl⟩
  | setCooldown q =>
    obtain rfl := Option.some.inj h
    unfold Thermal.setCooldown
    split
    · split <;> exact ⟨rfl, le_rfl⟩
    · exact ⟨rfl, le_rfl⟩

/-- The level of an update is the one it computed at some instant. -/
def Thermal.Computed (p : ProviderId) (s : Thermal) : Prop :=
  ∀ u next, s.updates p = some u → u.next = some next →
    ∃ now, next = u.nextLevel now s.cooldownSecs

theorem computed_reachable {ok : Thermal → ThermalAction → Prop} {cooldownSecs : ℕ}
    (h : Run Thermal.step ok (Thermal.new cooldownSecs) s) : s.Computed p := by
  refine h.invariant (I := Thermal.Computed p) (fun u next hu => by cases hu)
    fun x y a _ hx _ hstep => ?_
  intro u next hu hnext
  have hsecs := (step_clock hstep).1
  rw [hsecs]
  cases Thermal.step_moved p hstep with
  | idle _ hstate hupdate => exact hx u next (hupdate ▸ hu) hnext
  | reads hstate hupdate =>
    obtain rfl := Option.some.inj (hupdate.symm.trans hu)
    cases hnext
  | computes hu' hstate hupdate =>
    obtain rfl := Option.some.inj (hupdate.symm.trans hu)
    exact ⟨x.now, (Option.some.inj hnext).symm⟩
  | persists hu' hnext' hstate hupdate => cases hupdate.symm.trans hu
  | cools hbefore hhard hstate hupdate => exact hx u next (hupdate ▸ hu) hnext

end Steps

/-! ## The cooldown -/

/-- Hard, or in a cooldown that was entered at this instant or later. -/
def ThrottleState.Held (start : ℕ) (state : ThrottleState) : Prop :=
  state.level = .hard ∨
    state.level = .cooldown ∧ ∃ e, state.cooldownEnteredAt = some e ∧ start ≤ e

/-- Until the cooldown has elapsed since `start`, the provider and an update of it are held. -/
structure Thermal.Held (p : ProviderId) (start : ℕ) (s : Thermal) : Prop where
  started : start ≤ s.now
  state : s.now < start + s.cooldownSecs * 1000 → ∃ state, s.states p = some state ∧ state.Held start
  update : s.now < start + s.cooldownSecs * 1000 → ∀ u, s.updates p = some u → u.prev.Held start ∧
    ∀ next, u.next = some next → next = .hard ∨ next = .cooldown

section Cooldown
variable {p : ProviderId} {s s' t : Thermal} {a : ThermalAction} {start now cooldownSecs : ℕ}
  {u : ThermalUpdate}

theorem nextLevel_of_hard (h : u.tempC.ge u.th.hardAt = true) :
    u.nextLevel now cooldownSecs = if u.prev.level = .cooldown then .cooldown else .hard := by
  cases hlevel : u.prev.level <;> simp [ThermalUpdate.nextLevel, hlevel, h]

theorem elapsed_eq_false {since secs : ℕ} (hpos : 0 < secs) (h : now < since + secs * 1000) :
    ThermalUpdate.elapsed now (some since) secs = false := by
  have hsecs : ¬ secs ≤ (now - since) / 1000 := by omega
  exact decide_eq_false hsecs

/-- A held provider is not released before the cooldown has elapsed. -/
theorem nextLevel_of_held (hheld : u.prev.Held start) (hstarted : start ≤ now)
    (hsoon : now < start + cooldownSecs * 1000) (hword : cooldownSecs * 3 < U64) :
    u.nextLevel now cooldownSecs = .hard ∨ u.nextLevel now cooldownSecs = .cooldown := by
  have hpos : 0 < cooldownSecs := by omega
  rcases hheld with hlevel | ⟨hlevel, e, hentered, he⟩
  · simp only [ThermalUpdate.nextLevel, hlevel]
    split
    · exact .inl rfl
    · split
      · exact .inr rfl
      · exact .inl rfl
  · right
    have hcooldown : ThermalUpdate.elapsed now (some e) cooldownSecs = false :=
      elapsed_eq_false hpos (by omega)
    have hmax : ThermalUpdate.elapsed now (some e) (cooldownSecs * 3 % U64) = false := by
      rw [Nat.mod_eq_of_lt hword]
      exact elapsed_eq_false (by omega) (by omega)
    simp [ThermalUpdate.nextLevel, hlevel, hentered, hcooldown, hmax]

theorem persisted_held {next : ThrottleLevel} (hheld : u.prev.Held start) (hnow : start ≤ now)
    (hnext : next = .hard ∨ next = .cooldown) :
    ∃ state, u.persisted now next = some state ∧ state.Held start := by
  rcases hnext with rfl | rfl
  · exact ⟨_, rfl, .inl rfl⟩
  · refine ⟨_, rfl, .inr ⟨rfl, ?_⟩⟩
    dsimp only
    split
    · next hkept =>
      rcases hheld with hhard | ⟨-, hentered⟩
      · rw [hhard] at hkept
        cases hkept.1
      · exact hentered
    · exact ⟨now, rfl, hnow⟩

theorem Thermal.Held.step (hword : s.cooldownSecs * 3 < U64) (h : s.Held p start)
    (hstep : s.step a = some s') : s'.Held p start := by
  obtain ⟨hsecs, hclock⟩ := step_clock hstep
  have hstarted := h.started
  refine ⟨by omega, fun hsoon => ?_, fun hsoon => ?_⟩
  all_goals
    rw [hsecs] at hsoon
    have hbefore : s.now < start + s.cooldownSecs * 1000 := by omega
    obtain ⟨state, hstate, hheld⟩ := h.state hbefore
    have hupdates := h.update hbefore
  · cases Thermal.step_moved p hstep with
    | idle _ hsame hupdate => exact ⟨state, hsame.trans hstate, hheld⟩
    | reads hsame hupdate => exact ⟨state, hsame.trans hstate, hheld⟩
    | computes hu hsame hupdate => exact ⟨state, hsame.trans hstate, hheld⟩
    | persists hu hnext hstate' hupdate =>
      obtain ⟨hprev, hlevels⟩ := hupdates _ hu
      obtain ⟨state', hpersisted, hheld'⟩ := persisted_held hprev h.started (hlevels _ hnext)
      exact ⟨state', hstate'.trans hpersisted, hheld'⟩
    | cools hcooled hhard hstate' hupdate => exact ⟨_, hstate', .inr ⟨rfl, s.now, rfl, h.started⟩⟩
  · intro u hu
    cases Thermal.step_moved p hstep with
    | idle _ hsame hupdate => exact hupdates u (hupdate ▸ hu)
    | reads hsame hupdate =>
      obtain rfl := Option.some.inj (hupdate.symm.trans hu)
      refine ⟨?_, fun next hnext => by cases hnext⟩
      rw [hstate]
      exact hheld
    | @computes u₀ hu₀ hsame hupdate =>
      obtain rfl := Option.some.inj (hupdate.symm.trans hu)
      obtain ⟨hprev, -⟩ := hupdates u₀ hu₀
      refine ⟨hprev, fun next hnext => ?_⟩
      obtain rfl := Option.some.inj hnext
      exact nextLevel_of_held hprev h.started hbefore hword
    | persists hu₀ hnext hstate' hupdate => cases hupdate.symm.trans hu
    | cools hcooled hhard hstate' hupdate => exact hupdates u (hupdate ▸ hu)

/-- An update that read a temperature at or above `hard_at` holds its provider. -/
theorem held_of_hard_reading (hcomputed : s.Computed p) (hu : s.updates p = some u)
    (hhard : u.tempC.ge u.th.hardAt = true) (hstep : s.step (.persist p) = some s') :
    s'.Held p s.now := by
  obtain ⟨hsecs, hclock⟩ := step_clock hstep
  cases hmoved : Thermal.step_moved p hstep with
  | idle _ hsame hupdate =>
    obtain ⟨u', hu', h⟩ := Option.bind_eq_some_iff.mp hstep
    obtain ⟨next, hnext, h⟩ := Option.bind_eq_some_iff.mp h
    obtain rfl := Option.some.inj h
    simp only [setUpdate_updates, Function.update_self] at hupdate
    cases hupdate.trans hu
  | @persists u' next hu' hnext hstate hupdate =>
    obtain rfl := Option.some.inj (hu.symm.trans hu')
    obtain ⟨now, hlevel⟩ := hcomputed u next hu hnext
    rw [nextLevel_of_hard hhard] at hlevel
    have hlt := F32.lt_eq_false_of_ge hhard
    refine ⟨hclock, fun _ => ?_, fun _ u' hu' => by cases hupdate.symm.trans hu'⟩
    by_cases hprev : u.prev.level = .cooldown
    · rw [if_pos hprev] at hlevel
      subst hlevel
      refine ⟨_, hstate, .inr ⟨rfl, s.now, ?_, le_rfl⟩⟩
      simp [hlt]
    · rw [if_neg hprev] at hlevel
      subst hlevel
      exact ⟨_, hstate, .inl rfl⟩

end Cooldown

/-- After a reading at or above `hard_at` the provider stays in Hard or Cooldown for
`cooldown_secs`, whatever comes later. -/
theorem hard_reading_holds {p : ProviderId} {cooldownSecs : ℕ} {ok ok' : Thermal → ThermalAction → Prop}
    {s s' t : Thermal} {u : ThermalUpdate} (hword : cooldownSecs * 3 < U64)
    (hrun : Run Thermal.step ok (Thermal.new cooldownSecs) s) (hu : s.updates p = some u)
    (hhard : u.tempC.ge u.th.hardAt = true) (hstep : s.step (.persist p) = some s')
    (hlater : Run Thermal.step ok' s' t) (hsoon : t.now < s.now + cooldownSecs * 1000) :
    t.get p = .hard ∨ t.get p = .cooldown := by
  have hsecs : s.cooldownSecs = cooldownSecs :=
    hrun.invariant (I := fun x => x.cooldownSecs = cooldownSecs) rfl
      fun x y a _ hx _ hs => (step_clock hs).1.trans hx
  have hheld := held_of_hard_reading (computed_reachable hrun) hu hhard hstep
  have hkept : t.Held p s.now ∧ t.cooldownSecs = cooldownSecs := by
    refine hlater.invariant (I := fun x => x.Held p s.now ∧ x.cooldownSecs = cooldownSecs)
      ⟨hheld, (step_clock hstep).1.trans hsecs⟩ fun x y a _ hx _ hs => ?_
    exact ⟨hx.1.step (by rw [hx.2]; exact hword) hs, (step_clock hs).1.trans hx.2⟩
  obtain ⟨state, hstate, hlevel⟩ := hkept.1.state (by rw [hkept.2]; exact hsoon)
  rw [Thermal.get, hstate]
  rcases hlevel with hlevel | ⟨hlevel, -⟩
  · exact .inl hlevel
  · exact .inr hlevel

/-- An update with this reading, from its call to its end. -/
def updateWith (tempC : ℚ) (sumMaxConcurrent : ℕ) : List ThermalAction :=
  [.read 0 (.ofRat tempC) 0 sumMaxConcurrent, .compute 0, .persist 0]

/-- A reading of 95 °C and, a second later, one of 20 °C. -/
theorem cooled_provider_held : ∃ t, Run Thermal.step (fun _ _ => True) (Thermal.new 300) t ∧
    t.now = 1000 ∧ (t.get 0 = .hard ∨ t.get 0 = .cooldown) := by
  have hexec : (exec Thermal.step (fun _ _ => true) (Thermal.new 300)
      [.read 0 (.ofRat 95) 0 8, .compute 0]).any (fun s =>
        decide (s.now = 0) && ((s.updates 0).any fun u => u.tempC.ge u.th.hardAt) &&
          (s.step (.persist 0)).any fun s' =>
            (exec Thermal.step (fun _ _ => true) s' (.tick 1000 :: updateWith 20 8)).any fun t =>
              decide (t.now = 1000)) = true := by
    decide +kernel
  obtain ⟨s, hrun, htest⟩ :=
    @Run.exists_of_exec _ _ _ _ (fun _ _ => True) (fun _ _ _ => trivial) _ _ _ hexec
  simp only [Bool.and_eq_true, Option.any_eq_true, decide_eq_true_eq] at htest
  obtain ⟨⟨hstart, u, hu, hhard⟩, s', hstep, t, hlater, hnow⟩ := htest
  have hlater' : Run Thermal.step (fun _ _ => True) s' t := Run.of_exec (fun _ _ _ => trivial) hlater
  refine ⟨t, (hrun.snoc trivial hstep).trans hlater', hnow, ?_⟩
  exact hard_reading_holds (by decide) hrun hu hhard hstep hlater' (by omega)

/-! ## The snapshot of the first Hard -/

/-- Throttled since the Hard whose snapshot this is. -/
def ThrottleState.Carries (total : ℕ) (state : ThrottleState) : Prop :=
  state.preHardTotal = total ∧
    (state.level = .hard ∨ state.level = .cooldown ∨ state.level = .rampUp)

/-- An update of the provider does not take it into Soft, or from RampUp into Hard. -/
def KeepsSnapshot (p : ProviderId) (s : Thermal) : ThermalAction → Prop
  | .compute q => q = p → ∀ u, s.updates p = some u →
      (u.prev.level = .rampUp → u.tempC.ge u.th.hardAt = false ∧ u.tempC.ge u.th.softAt = false) ∧
      (u.prev.level = .cooldown → u.tempC.ge u.th.hardAt = false → u.tempC.ge u.th.softAt = true →
        ThermalUpdate.elapsed s.now u.prev.cooldownEnteredAt (s.cooldownSecs * 3 % U64) = false)
  | _ => True

/-- The updates of the provider are all made with less than this in total. -/
def BelowTotal (p : ProviderId) (total : ℕ) : ThermalAction → Prop
  | .read q _ _ sumMaxConcurrent => q = p → sumMaxConcurrent < total
  | _ => True

structure Thermal.Carries (p : ProviderId) (total : ℕ) (s : Thermal) : Prop where
  state : ∃ state, s.states p = some state ∧ state.Carries total
  update : ∀ u, s.updates p = some u → u.prev.Carries total ∧ u.sumMaxConcurrent < total ∧
    ∀ next, u.next = some next → (next = .hard → u.prev.level = .hard) ∧
      (next = .hard ∨ next = .cooldown ∨ next = .rampUp)

section Snapshot
variable {p : ProviderId} {total now cooldownSecs : ℕ} {s s' t : Thermal} {a : ThermalAction}
  {u : ThermalUpdate}

theorem nextLevel_of_carries (hcarries : u.prev.Carries total) (hbelow : u.sumMaxConcurrent < total)
    (hrampUp : u.prev.level = .rampUp →
      u.tempC.ge u.th.hardAt = false ∧ u.tempC.ge u.th.softAt = false)
    (hcooldown : u.prev.level = .cooldown → u.tempC.ge u.th.hardAt = false →
      u.tempC.ge u.th.softAt = true →
        ThermalUpdate.elapsed now u.prev.cooldownEnteredAt (cooldownSecs * 3 % U64) = false) :
    (u.nextLevel now cooldownSecs = .hard → u.prev.level = .hard) ∧
      (u.nextLevel now cooldownSecs = .hard ∨ u.nextLevel now cooldownSecs = .cooldown ∨
        u.nextLevel now cooldownSecs = .rampUp) := by
  obtain ⟨htotal, hlevel | hlevel | hlevel⟩ := hcarries
  · refine ⟨fun _ => hlevel, ?_⟩
    simp only [ThermalUpdate.nextLevel, hlevel]
    split
    · exact .inl rfl
    · split
      · exact .inr (.inl rfl)
      · exact .inl rfl
  · have hcool := hcooldown hlevel
    have hnext : u.nextLevel now cooldownSecs = .cooldown ∨ u.nextLevel now cooldownSecs = .rampUp := by
      simp only [ThermalUpdate.nextLevel, hlevel]
      split
      · exact .inl rfl
      · next hhard =>
        rw [Bool.not_eq_true] at hhard
        split
        · exact .inr rfl
        · split
          · next hmax =>
            split
            · next hsoft =>
              rw [hcool hhard hsoft] at hmax
              cases hmax
            · exact .inr rfl
          · exact .inl rfl
    rcases hnext with hnext | hnext
    · exact ⟨fun h => (by rw [hnext] at h; cases h), .inr (.inl hnext)⟩
    · exact ⟨fun h => (by rw [hnext] at h; cases h), .inr (.inr hnext)⟩
  · obtain ⟨hhard, hsoft⟩ := hrampUp hlevel
    have hopen : ¬ (u.prev.preHardTotal = 0 ∨ u.prev.preHardTotal ≤ u.sumMaxConcurrent) := by omega
    have hnext : u.nextLevel now cooldownSecs = .rampUp := by
      simp [ThermalUpdate.nextLevel, hlevel, hhard, hsoft, hopen]
    exact ⟨fun h => (by rw [hnext] at h; cases h), .inr (.inr hnext)⟩

theorem persisted_carries {next : ThrottleLevel} (hcarries : u.prev.Carries total)
    (hagain : next = .hard → u.prev.level = .hard)
    (hnext : next = .hard ∨ next = .cooldown ∨ next = .rampUp) :
    ∃ state, u.persisted now next = some state ∧ state.Carries total := by
  rcases hnext with rfl | rfl | rfl
  · refine ⟨_, rfl, ?_, .inl rfl⟩
    show (if u.prev.level = .hard then u.prev.preHardTotal else u.sumMaxConcurrent) = total
    rw [if_pos (hagain rfl)]
    exact hcarries.1
  · exact ⟨_, rfl, hcarries.1, .inr (.inl rfl)⟩
  · exact ⟨_, rfl, hcarries.1, .inr (.inr rfl)⟩

theorem Thermal.Carries.step (h : s.Carries p total) (hkeeps : KeepsSnapshot p s a)
    (hbelow : BelowTotal p total a) (hstep : s.step a = some s') : s'.Carries p total := by
  obtain ⟨state, hstate, hcarries⟩ := h.state
  constructor
  · cases Thermal.step_moved p hstep with
    | idle _ hsame hupdate => exact ⟨state, hsame.trans hstate, hcarries⟩
    | reads hsame hupdate => exact ⟨state, hsame.trans hstate, hcarries⟩
    | computes hu hsame hupdate => exact ⟨state, hsame.trans hstate, hcarries⟩
    | persists hu hnext hstate' hupdate =>
      obtain ⟨hprev, -, hlevels⟩ := h.update _ hu
      obtain ⟨hagain, hlevel⟩ := hlevels _ hnext
      obtain ⟨state', hpersisted, hcarries'⟩ := persisted_carries hprev hagain hlevel
      exact ⟨state', hstate'.trans hpersisted, hcarries'⟩
    | @cools before hbefore hhard hstate' hupdate =>
      obtain rfl := Option.some.inj (hstate.symm.trans hbefore)
      exact ⟨_, hstate', hcarries.1, .inr (.inl rfl)⟩
  · intro u hu
    cases Thermal.step_moved p hstep with
    | idle _ hsame hupdate => exact h.update u (hupdate ▸ hu)
    | reads hsame hupdate =>
      obtain rfl := Option.some.inj (hupdate.symm.trans hu)
      refine ⟨?_, hbelow rfl, fun next hnext => by cases hnext⟩
      rw [hstate]
      exact hcarries
    | @computes u₀ hu₀ hsame hupdate =>
      obtain rfl := Option.some.inj (hupdate.symm.trans hu)
      obtain ⟨hprev, hsum, -⟩ := h.update u₀ hu₀
      obtain ⟨hrampUp, hcooldown⟩ := hkeeps rfl u₀ hu₀
      refine ⟨hprev, hsum, fun next hnext => ?_⟩
      obtain rfl := Option.some.inj hnext
      exact nextLevel_of_carries hprev hsum hrampUp hcooldown
    | persists hu₀ hnext hstate' hupdate => cases hupdate.symm.trans hu
    | cools hbefore hhard hstate' hupdate => exact h.update u (hupdate ▸ hu)

end Snapshot

/-- A provider that entered Hard from Normal is not Normal again before an update with at least the
total it entered with, if no update takes it into Soft or from RampUp into Hard. -/
theorem snapshot_kept {p : ProviderId} {s s' t : Thermal} {u : ThermalUpdate}
    (hu : s.updates p = some u) (hprev : u.prev.level = .normal) (hnext : u.next = some .hard)
    (hstep : s.step (.persist p) = some s')
    (hlater : Run Thermal.step
      (fun x a => KeepsSnapshot p x a ∧ BelowTotal p u.sumMaxConcurrent a) s' t) :
    t.get p ≠ .normal := by
  have hentered : s'.Carries p u.sumMaxConcurrent := by
    cases Thermal.step_moved p hstep with
    | idle _ hsame hupdate =>
      obtain ⟨u', hu', h⟩ := Option.bind_eq_some_iff.mp hstep
      obtain ⟨next, hnext', h⟩ := Option.bind_eq_some_iff.mp h
      obtain rfl := Option.some.inj h
      simp only [setUpdate_updates, Function.update_self] at hupdate
      cases hupdate.trans hu
    | persists hu' hnext' hstate hupdate =>
      obtain rfl := Option.some.inj (hu.symm.trans hu')
      obtain rfl := Option.some.inj (hnext.symm.trans hnext')
      refine ⟨⟨_, hstate, ?_, .inl rfl⟩, fun u' hu' => by cases hupdate.symm.trans hu'⟩
      rw [hprev]
      rfl
  have hcarried : t.Carries p u.sumMaxConcurrent :=
    hlater.invariant hentered fun x y a _ hx hok hs => hx.step hok.1 hok.2 hs
  obtain ⟨state, hstate, -, hlevel⟩ := hcarried.state
  rw [Thermal.get, hstate]
  intro hnormal
  dsimp only at hnormal
  rw [hnormal] at hlevel
  rcases hlevel with h | h | h <;> cases h

/-- Hard at a total of 8, cooled down, and two updates at 20 °C with a total of 1. -/
theorem cooled_provider_ramps_up : ∃ t : Thermal, t.now = 300000 ∧ t.get 0 ≠ .normal := by
  have hexec : (exec Thermal.step (fun _ _ => true) (Thermal.new 300)
      [.read 0 (.ofRat 95) 0 8, .compute 0]).any (fun s =>
        ((s.updates 0).any fun u => decide (u.prev.level = .normal ∧ u.next = some .hard ∧
            u.sumMaxConcurrent = 8)) &&
          (s.step (.persist 0)).any fun s' =>
            (exec Thermal.step (fun x a => match a with
              | .compute _ => (x.updates 0).all fun u => !u.tempC.ge u.th.softAt && !u.tempC.ge u.th.hardAt
              | .read _ _ _ total => decide (total < 8)
              | _ => true) s' ([.setCooldown 0, .tick 300000] ++ updateWith 20 1 ++ updateWith 20 1)).any
              fun t => decide (t.now = 300000)) = true := by
    decide +kernel
  obtain ⟨s, hrun, htest⟩ :=
    @Run.exists_of_exec _ _ _ _ (fun _ _ => True) (fun _ _ _ => trivial) _ _ _ hexec
  simp only [Bool.and_eq_true, Option.any_eq_true, decide_eq_true_eq] at htest
  obtain ⟨⟨u, hu, hprev, hnext, htotal⟩, s', hstep, t, hlater, hnow⟩ := htest
  refine ⟨t, hnow, snapshot_kept hu hprev hnext hstep (Run.of_exec (fun x a h => ?_) hlater)⟩
  cases a with
  | compute q =>
    refine ⟨fun _ u' hu' => ?_, trivial⟩
    simp only [hu', Option.all_some, Bool.and_eq_true, Bool.not_eq_true'] at h
    exact ⟨fun _ => ⟨h.2, h.1⟩, fun _ _ hsoft => by rw [h.1] at hsoft; cases hsoft⟩
  | read q tempC activeCount total => exact ⟨trivial, fun _ => htotal ▸ of_decide_eq_true h⟩
  | _ => exact ⟨trivial, trivial⟩

/-- Hard at a total of 8, cooled down, hot again while it ramps up with a total of 1, and cooled down
again. -/
def reheatedRampUp : List ThermalAction :=
  [.setCooldown 0, .tick 300000] ++ updateWith 20 1 ++ updateWith 95 1 ++
    [.setCooldown 0, .tick 300000] ++ updateWith 20 1 ++ updateWith 20 1

/-- Normal again with a total of 1. -/
theorem snapshot_replaced :
    ¬ ∀ s s' t : Thermal, ∀ u, Run Thermal.step (fun _ _ => True) (Thermal.new 300) s →
      s.updates 0 = some u → u.prev.level = .normal → u.next = some .hard →
        s.step (.persist 0) = some s' →
          Run Thermal.step (fun _ a => BelowTotal 0 u.sumMaxConcurrent a) s' t →
            t.get 0 ≠ .normal := by
  intro hall
  have hexec : (exec Thermal.step (fun _ _ => true) (Thermal.new 300)
      [.read 0 (.ofRat 95) 0 8, .compute 0]).any (fun s =>
        ((s.updates 0).any fun u => decide (u.prev.level = .normal ∧ u.next = some .hard ∧
            u.sumMaxConcurrent = 8)) &&
          (s.step (.persist 0)).any fun s' =>
            (exec Thermal.step (fun _ a => match a with
              | .read _ _ _ total => decide (total < 8)
              | _ => true) s' reheatedRampUp).any fun t => decide (t.get 0 = .normal)) = true := by
    decide +kernel
  obtain ⟨s, hrun, htest⟩ :=
    @Run.exists_of_exec _ _ _ _ (fun _ _ => True) (fun _ _ _ => trivial) _ _ _ hexec
  simp only [Bool.and_eq_true, Option.any_eq_true, decide_eq_true_eq] at htest
  obtain ⟨⟨u, hu, hprev, hnext, htotal⟩, s', hstep, t, hlater, hnormal⟩ := htest
  refine hall s s' t u hrun hu hprev hnext hstep (Run.of_exec (fun x a h => ?_) hlater) hnormal
  cases a with
  | read q tempC activeCount total => exact fun _ => htotal ▸ of_decide_eq_true h
  | _ => trivial

end Veronex
