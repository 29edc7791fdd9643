import Veronex.Ollama.Lifecycle

/-! # Stalls of a load probe

`run_probe_with_stall` of `infrastructure/outbound/ollama/lifecycle.rs`: the response of the probe, the
poller of `/api/ps`, the stall detector and the hard cap race. Times are in milliseconds, and the clock
does not pass the due time of a timer before it has fired. The log of the progress is left out.

`hang_detected`: a probe that hangs after the load is given up in time, as long as no poll confirms
the model a second time.
-/
namespace Veronex
set_option autoImplicit false
open Concurrency

def LIFECYCLE_LOAD_TIMEOUT : ℕ := 600000
def LIFECYCLE_STALL_INTERVAL : ℕ := 60000
def LIFECYCLE_PS_POLL_INTERVAL : ℕ := 5000

/-- The interval of the stall detector. -/
def STALL_TICK : ℕ := 5000

structure PsEntry where
  name : String
  sizeVram : ℕ

/-- A missing tag is `latest`. -/
def withTag (model : String) : String :=
  if model.toList.contains ':' then model else model ++ ":latest"

def namesMatch (queryModel psName : String) : Bool := decide (withTag queryModel = withTag psName)

/-- What `/api/ps` answers confirms the model. -/
def confirmedBy (model : String) : Except String (List PsEntry) → Bool
  | .ok loaded => loaded.any fun e => decide (0 < e.sizeVram) && namesMatch model e.name
  | .error _ => false

inductive Poller
  | waiting (due : ℕ)
  | querying (fired : ℕ)

structure ProbeRun where
  model : String
  startedAt : ℕ
  now : ℕ
  lastProgressAt : ℕ
  poller : Poller
  /-- The next tick of the stall detector. -/
  stallDue : ℕ
  /-- When a poll confirmed the model for the first time. -/
  confirmedAt : Option ℕ
  result : Option LoadResult

inductive ProbeAction
  | advance (ms : ℕ)
  /-- A tick of the poller. -/
  | poll
  | polled (answer : Except String (List PsEntry))
  /-- A tick of the stall detector. -/
  | stallTick
  /-- The probe has taken `durationMs`, or failed. -/
  | probed (answer : Except String ℕ)
  | hardCap

namespace ProbeRun

def init (model : String) (startedAt : ℕ) : ProbeRun :=
  { model, startedAt, now := startedAt, lastProgressAt := 0
    poller := .waiting (startedAt + LIFECYCLE_PS_POLL_INTERVAL)
    stallDue := startedAt + STALL_TICK, confirmedAt := none, result := none }

def hasFirstProgress (s : ProbeRun) : Bool := s.lastProgressAt ≠ 0

def noProgressMs (s : ProbeRun) : ℕ :=
  if s.lastProgressAt = 0 then 0 else s.now - s.lastProgressAt

def recordProgress (s : ProbeRun) : ProbeRun := { s with lastProgressAt := s.now }

def capDue (s : ProbeRun) : ℕ := s.startedAt + (LIFECYCLE_LOAD_TIMEOUT + 5000)

/-- A query ends within the interval. -/
def pollerDue (s : ProbeRun) : ℕ :=
  match s.poller with
  | .waiting due => due
  | .querying fired => fired + LIFECYCLE_PS_POLL_INTERVAL

def nextDue (s : ProbeRun) : ℕ := min s.stallDue (min s.pollerDue s.capDue)

/-- The ticks keep their distance when a query was late. -/
def polled (s : ProbeRun) (fired : ℕ) (answer : Except String (List PsEntry)) : ProbeRun :=
  let s' := { s with poller := .waiting (max (fired + LIFECYCLE_PS_POLL_INTERVAL) s.now) }
  if confirmedBy s.model answer then
    { s'.recordProgress with confirmedAt := s.confirmedAt.or (some s.now) }
  else s'

def detectStall (s : ProbeRun) : ProbeRun :=
  let s' := { s with stallDue := s.now + STALL_TICK }
  if s.hasFirstProgress && decide (LIFECYCLE_STALL_INTERVAL ≤ s.noProgressMs) then
    { s' with result := some (.error (.stalled s.noProgressMs)) }
  else s'

def act (s : ProbeRun) : ProbeAction → Option ProbeRun
  | .advance ms => if s.now + ms ≤ s.nextDue then some { s with now := s.now + ms } else none
  | .poll =>
    match s.poller with
    | .waiting due => if due ≤ s.now then some { s with poller := .querying s.now } else none
    | .querying _ => none
  | .polled answer =>
    match s.poller with
    | .querying fired => some (s.polled fired answer)
    | .waiting _ => none
  | .stallTick => if s.stallDue ≤ s.now then some s.detectStall else none
  | .probed (.ok durationMs) =>
    some { s.recordProgress with result := some (.ok (.loadCompleted durationMs)) }
  | .probed (.error e) => some { s with result := some (.error (.providerError e)) }
  | .hardCap =>
    if s.capDue ≤ s.now then
      some { s with
        result := some (.error (.loadTimeout (s.now - s.startedAt) LIFECYCLE_LOAD_TIMEOUT)) }
    else none

/-- The select ends with the first result. -/
def step (s : ProbeRun) (a : ProbeAction) : Option ProbeRun :=
  if s.result.isSome then none else s.act a

/-! ## What is promised -/

/-- While the probe is awaited, the model has not been confirmed for longer than the interval and a
tick. -/
def Detects (s : ProbeRun) : Prop :=
  s.result = none → ∀ c, s.confirmedAt = some c → s.now ≤ c + (LIFECYCLE_STALL_INTERVAL + STALL_TICK)

/-- A stall is found only after a confirmation. -/
def StalledConfirmed (s : ProbeRun) : Prop :=
  ∀ gap, s.result = some (.error (.stalled gap)) → s.confirmedAt.isSome

/-- A poll that confirms the model is the first one to do so. -/
def FirstConfirmation (s : ProbeRun) : ProbeAction → Prop
  | .polled answer => confirmedBy s.model answer = true → s.confirmedAt = none
  | _ => True

/-! ## Steps -/

section Steps
variable {s t : ProbeRun} {a : ProbeAction}

/-- What a step of an awaited probe can do. -/
theorem step_cases (h : s.step a = some t) : s.result = none ∧
    ((∃ ms, a = .advance ms ∧ s.now + ms ≤ s.nextDue ∧ t = { s with now := s.now + ms }) ∨
      (a = .poll ∧ t = { s with poller := .querying s.now }) ∨
      (∃ answer fired, a = .polled answer ∧ t = s.polled fired answer) ∨
      (a = .stallTick ∧ s.stallDue ≤ s.now ∧ t = s.detectStall) ∨
      ∃ result, (∀ gap, result ≠ .error (.stalled gap)) ∧ t.result = some result) := by
  unfold step at h
  split at h
  · cases h
  next hresult =>
  have hnone : s.result = none := by simpa using hresult
  refine ⟨hnone, ?_⟩
  cases a with
  | advance ms =>
    simp only [act] at h
    split at h
    · next hdue => exact .inl ⟨ms, rfl, hdue, (Option.some.inj h).symm⟩
    · cases h
  | poll =>
    simp only [act] at h
    split at h
    · split at h
      · exact .inr (.inl ⟨rfl, (Option.some.inj h).symm⟩)
      · cases h
    · cases h
  | polled answer =>
    simp only [act] at h
    split at h
    · next fired _ => exact .inr (.inr (.inl ⟨answer, fired, rfl, (Option.some.inj h).symm⟩))
    · cases h
  | stallTick =>
    simp only [act] at h
    split at h
    · next hdue => exact .inr (.inr (.inr (.inl ⟨rfl, hdue, (Option.some.inj h).symm⟩)))
    · cases h
  | probed answer =>
    refine .inr (.inr (.inr (.inr ?_)))
    cases answer with
    | ok durationMs =>
      obtain rfl := Option.some.inj h
      exact ⟨.ok (.loadCompleted durationMs), by simp, rfl⟩
    | error e =>
      obtain rfl := Option.some.inj h
      exact ⟨.error (.providerError e), by simp, rfl⟩
  | hardCap =>
    refine .inr (.inr (.inr (.inr ?_)))
    simp only [act] at h
    split at h
    · obtain rfl := Option.some.inj h
      exact ⟨.error (.loadTimeout (s.now - s.startedAt) LIFECYCLE_LOAD_TIMEOUT), by simp, rfl⟩
    · cases h

theorem polled_cases (s : ProbeRun) (fired : ℕ) (answer : Except String (List PsEntry)) :
    (confirmedBy s.model answer = true ∧ (s.polled fired answer).lastProgressAt = s.now ∧
        (s.polled fired answer).confirmedAt = s.confirmedAt.or (some s.now)) ∨
      (confirmedBy s.model answer = false ∧ (s.polled fired answer).lastProgressAt = s.lastProgressAt ∧
        (s.polled fired answer).confirmedAt = s.confirmedAt) := by
  cases hanswer : confirmedBy s.model answer with
  | true => exact .inl ⟨rfl, by simp [polled, hanswer, recordProgress], by simp [polled, hanswer]⟩
  | false => exact .inr ⟨rfl, by simp [polled, hanswer], by simp [polled, hanswer]⟩

@[simp] theorem polled_now (fired : ℕ) (answer : Except String (List PsEntry)) :
    (s.polled fired answer).now = s.now := by
  unfold polled
  split
  · rfl
  · rfl

@[simp] theorem polled_stallDue (fired : ℕ) (answer : Except String (List PsEntry)) :
    (s.polled fired answer).stallDue = s.stallDue := by
  unfold polled
  split
  · rfl
  · rfl

@[simp] theorem polled_result (fired : ℕ) (answer : Except String (List PsEntry)) :
    (s.polled fired answer).result = s.result := by
  unfold polled
  split
  · rfl
  · rfl

/-- A tick of the detector ends the probe, or the last progress is recent. -/
theorem detectStall_cases (s : ProbeRun) :
    (s.lastProgressAt ≠ 0 ∧
        s.detectStall.result = some (.error (.stalled (s.now - s.lastProgressAt))) ∧
        s.detectStall.confirmedAt = s.confirmedAt) ∨
      ((s.lastProgressAt ≠ 0 → s.now - s.lastProgressAt < LIFECYCLE_STALL_INTERVAL) ∧
        s.detectStall = { s with stallDue := s.now + STALL_TICK }) := by
  by_cases hlast : s.lastProgressAt = 0
  · refine .inr ⟨fun h => absurd hlast h, ?_⟩
    simp [detectStall, hasFirstProgress, hlast]
  · by_cases hgap : LIFECYCLE_STALL_INTERVAL ≤ s.now - s.lastProgressAt
    · exact .inl ⟨hlast, by simp [detectStall, hasFirstProgress, noProgressMs, hlast, hgap],
        by simp [detectStall, hasFirstProgress, noProgressMs, hlast, hgap]⟩
    · refine .inr ⟨fun _ => Nat.lt_of_not_le hgap, ?_⟩
      simp [detectStall, hasFirstProgress, noProgressMs, hlast, hgap]

end Steps

/-! ## Runs -/

section Runs
variable {model : String} {startedAt : ℕ} {s t : ProbeRun} {a : ProbeAction}
  {ok : ProbeRun → ProbeAction → Prop}

/-- Nothing but a confirmation is progress while the probe is awaited. -/
structure Quiet (s : ProbeRun) : Prop where
  silent : s.result = none → s.confirmedAt = none → s.lastProgressAt = 0
  stalled : s.StalledConfirmed

theorem Quiet.step (h : s.Quiet) (hstep : s.step a = some t) : t.Quiet := by
  obtain ⟨hnone, hcases⟩ := step_cases hstep
  have hsilent := h.silent hnone
  have hopen : s.StalledConfirmed := h.stalled
  rcases hcases with ⟨ms, -, -, rfl⟩ | ⟨-, rfl⟩ | ⟨answer, fired, -, rfl⟩ | ⟨-, -, rfl⟩ |
    ⟨result, hresult, ht⟩
  · exact ⟨fun _ => hsilent, hopen⟩
  · exact ⟨fun _ => hsilent, hopen⟩
  · constructor
    · intro _ hconfirmed
      rcases polled_cases s fired answer with ⟨-, -, hc⟩ | ⟨-, hlast, hc⟩
      · rw [hc] at hconfirmed
        simp at hconfirmed
      · rw [hlast]
        exact hsilent (hc ▸ hconfirmed)
    · intro gap hgap
      rw [polled_result, hnone] at hgap
      cases hgap
  · rcases detectStall_cases s with ⟨hlast, hresult, hc⟩ | ⟨-, heq⟩
    · constructor
      · intro hopen
        rw [hresult] at hopen
        cases hopen
      · intro gap _
        rw [hc]
        cases hconfirmed : s.confirmedAt with
        | none => exact absurd (hsilent hconfirmed) hlast
        | some c => rfl
    · rw [heq]
      exact ⟨fun _ => hsilent, hopen⟩
  · constructor
    · intro hopen
      rw [ht] at hopen
      cases hopen
    · intro gap hgap
      rw [ht] at hgap
      exact absurd (Option.some.inj hgap) (hresult gap)

/-- In every run a stall is found only after a confirmation. -/
theorem stalled_confirmed (h : Run step ok (init model startedAt) s) : s.StalledConfirmed := by
  have hquiet : s.Quiet := h.invariant ⟨fun _ _ => rfl, fun gap hgap => by cases hgap⟩
    fun x y a _ hx _ hstep => hx.step hstep
  exact hquiet.stalled

/-- The detector ticks before the model has been confirmed for longer than the interval and a tick. -/
structure Watched (s : ProbeRun) : Prop where
  pos : 0 < s.now
  due : s.now ≤ s.stallDue
  soon : s.stallDue ≤ s.now + STALL_TICK
  silent : s.confirmedAt = none → s.lastProgressAt = 0
  seen : ∀ c, s.confirmedAt = some c →
    s.lastProgressAt = c ∧ 0 < c ∧ s.stallDue < c + (LIFECYCLE_STALL_INTERVAL + STALL_TICK)

theorem Watched.init (hstart : 0 < startedAt) : (init model startedAt).Watched where
  pos := hstart
  due := Nat.le_add_right _ _
  soon := le_rfl
  silent _ := rfl
  seen c hc := by cases hc

theorem Watched.step (h : s.Watched) (hok : s.FirstConfirmation a) (hstep : s.step a = some t)
    (hopen : t.result = none) : t.Watched := by
  obtain ⟨hnone, hcases⟩ := step_cases hstep
  rcases hcases with ⟨ms, -, hdue, rfl⟩ | ⟨-, rfl⟩ | ⟨answer, fired, rfl, rfl⟩ | ⟨-, hdue, rfl⟩ |
    ⟨result, -, ht⟩
  · have hsoon := h.soon
    have hle : s.now + ms ≤ s.stallDue := hdue.trans (min_le_left _ _)
    exact ⟨Nat.lt_of_lt_of_le h.pos (Nat.le_add_right _ _), hle, by dsimp only; omega, h.silent,
      h.seen⟩
  · exact ⟨h.pos, h.due, h.soon, h.silent, h.seen⟩
  · have hfirst : confirmedBy s.model answer = true → s.confirmedAt = none := hok
    refine ⟨by simpa using h.pos, by simpa using h.due, by simpa using h.soon, ?_, ?_⟩
    · intro hconfirmed
      rcases polled_cases s fired answer with ⟨-, -, hc⟩ | ⟨-, hlast, hc⟩
      · rw [hc] at hconfirmed
        simp at hconfirmed
      · rw [hlast]
        exact h.silent (hc ▸ hconfirmed)
    · intro c hconfirmed
      rcases polled_cases s fired answer with ⟨hanswer, hlast, hc⟩ | ⟨-, hlast, hc⟩
      · -- the first confirmation: the next tick is at most one interval away
        rw [hc, hfirst hanswer] at hconfirmed
        obtain rfl : s.now = c := Option.some.inj hconfirmed
        have hsoon := h.soon
        refine ⟨hlast, h.pos, ?_⟩
        rw [polled_stallDue]
        unfold LIFECYCLE_STALL_INTERVAL STALL_TICK at *
        omega
      · rw [hlast, polled_stallDue]
        exact h.seen c (hc ▸ hconfirmed)
  · rcases detectStall_cases s with ⟨-, hresult, -⟩ | ⟨hgap, heq⟩
    · rw [hresult] at hopen
      cases hopen
    · rw [heq]
      refine ⟨h.pos, Nat.le_add_right _ _, le_rfl, h.silent, fun c hc => ?_⟩
      obtain ⟨hlast, hpos, -⟩ := h.seen c hc
      have hrecent := hgap (by omega)
      rw [hlast] at hrecent
      refine ⟨hlast, hpos, ?_⟩
      dsimp only
      omega
  · rw [ht] at hopen
    cases hopen

/-- In every run in which no poll confirms the model a second time, a probe that hangs after the load
is given up within the interval and a tick, and not before the model was confirmed. -/
theorem hang_detected (hstart : 0 < startedAt)
    (h : Run step FirstConfirmation (init model startedAt) s) : s.Detects ∧ s.StalledConfirmed := by
  have hwatched : s.result = none → s.Watched :=
    h.invariant (I := fun s => s.result = none → s.Watched) (fun _ => .init hstart) <| by
      intro x y a _ hx hok hstep hopen
      exact (hx (step_cases hstep).1).step hok hstep hopen
  refine ⟨fun hopen c hc => ?_, stalled_confirmed h⟩
  have hw := hwatched hopen
  have hdue := hw.due
  have hseen := (hw.seen c hc).2.2
  omega

end Runs

/-! ## A model that stays resident -/

def resident : PsEntry := { name := "qwen3", sizeVram := 5000000000 }

/-- Five seconds pass, a poll is answered at once, and the detector ticks. -/
def pollRound (answer : Except String (List PsEntry)) : List ProbeAction :=
  [.advance 5000, .poll, .polled answer, .stallTick]

def firstConfirms (s : ProbeRun) : ProbeAction → Bool
  | .polled answer => !confirmedBy s.model answer || s.confirmedAt.isNone
  | _ => true

def stalledFor (gap : Nat) (s : ProbeRun) : Bool :=
  match s.result with
  | some (.error (.stalled g)) => decide (g = gap)
  | _ => false

/-- The model is confirmed by the first poll and by no other: the detector gives the probe up after
65 seconds. -/
theorem hang_found : ∃ s : ProbeRun, (s.Detects ∧ s.StalledConfirmed) ∧
    s.result = some (.error (.stalled 60000)) := by
  have hexec : (exec step firstConfirms (init "qwen3:latest" 1)
      (pollRound (.ok [resident]) ++ (List.replicate 12 (pollRound (.ok []))).flatten)).any
      (stalledFor 60000) = true := by
    decide +kernel
  obtain ⟨s, hrun, hs⟩ := @Run.exists_of_exec _ _ _ _ FirstConfirmation (by
    intro s a h
    cases a with
    | polled answer =>
      intro hanswer
      simpa [firstConfirms, hanswer] using h
    | _ => trivial) _ _ _ hexec
  refine ⟨s, hang_detected (by decide) hrun, ?_⟩
  unfold stalledFor at hs
  split at hs
  · next gap heq => rw [heq, of_decide_eq_true hs]
  · cases hs

/-- Polls that go on to confirm the model keep the detector quiet: a probe that hangs is still awaited
75 seconds after the first confirmation. -/
theorem hang_not_detected : ∃ s : ProbeRun,
    Run step (fun _ _ => True) (init "qwen3:latest" 1) s ∧ ¬ s.Detects ∧
      s.confirmedAt = some 5001 ∧ s.now = 80001 := by
  have hexec : (exec step (fun _ _ => true) (init "qwen3:latest" 1)
      (List.replicate 16 (pollRound (.ok [resident]))).flatten).any
      (fun s => s.result.isNone && decide (s.confirmedAt = some 5001 ∧ s.now = 80001)) = true := by
    decide +kernel
  obtain ⟨s, hrun, hs⟩ := @Run.exists_of_exec _ _ _ _ (fun _ _ => True) (fun _ _ _ => trivial) _ _ _ hexec
  simp only [Bool.and_eq_true, Option.isNone_iff_eq_none, decide_eq_true_eq] at hs
  obtain ⟨hopen, hconfirmed, hnow⟩ := hs
  refine ⟨s, hrun, fun h => ?_, hconfirmed, hnow⟩
  have hlate := h hopen 5001 hconfirmed
  unfold LIFECYCLE_STALL_INTERVAL STALL_TICK at hlate
  omega

end ProbeRun

end Veronex
