import Veronex.Capacity.Governor
import Veronex.Capacity.LoadedWeight
import Veronex.Foundation.Pool
import Veronex.Foundation.Transition

/-! # Loading a model before its job

`ensure_ready` of `infrastructure/outbound/ollama/adapter.rs` with the load slots of `lifecycle.rs`.
Calls interleave where they await: while the context is resolved, while a probe runs, and while
another call's load is waited for. `make_adapter` gives every adapter a map of slots of its own, and
the dispatcher builds an adapter for each job.

`coalesced_of_leading_alone`: one probe at a time for a provider and a model, as long as no call
starts to load while another one of them is loading.
-/
namespace Veronex
set_option autoImplicit false
open Concurrency

inductive LifecycleError
  | loadTimeout (elapsedMs maxMs : ℕ)
  | stalled (lastProgressMs : ℕ)
  | providerError (text : String)
  | circuitOpen
  | resourcesExhausted (availableVramMb requiredMb : ℕ)

inductive LifecycleOutcome
  | alreadyLoaded
  | loadCompleted (durationMs : ℕ)
  | loadCoalesced (waitedMs : ℕ)

abbrev LoadResult := Except LifecycleError LifecycleOutcome

/-- The adapter of the job whose call is the `k`th, or one that was built for anything else. -/
inductive AdapterId
  | job (k : ℕ)
  | built (i : ℕ)
  deriving DecidableEq

structure Adapter where
  id : AdapterId
  providerId : ProviderId
  /-- Whether `with_vram_pool` gave it the pool. -/
  vramPool : Bool

/-- How a call came by its result. -/
inductive Via
  /-- The pool had the model as loaded; `resident`: it had been confirmed, and not evicted since. -/
  | pool (resident : Bool)
  | probe
  | wait (slot : ℕ)

inductive CallPc
  | check
  /-- `resolve_num_ctx`. -/
  | resolve
  | probe (numCtx : ℕ)
  | waiting (slot : ℕ) (since : Millis)
  | woken (slot : ℕ) (since : Millis)
  | returned (result : LoadResult) (via : Via)

/-- A call of `ensure_ready`. -/
structure ReadyCall where
  adapter : Adapter
  model : String
  pc : CallPc

/-- Between the lookup that found no slot and the removal of its own. -/
def ReadyCall.leads (c : ReadyCall) : Bool :=
  match c.pc with
  | .resolve | .probe _ => true
  | _ => false

def ReadyCall.probes (c : ReadyCall) : Bool :=
  match c.pc with
  | .probe _ => true
  | _ => false

def ReadyCall.isOf (c : ReadyCall) (id : ProviderId) (model : String) : Bool :=
  decide (c.adapter.providerId = id ∧ c.model = model)

/-- `notify_waiters` of a slot. -/
def ReadyCall.wake (slot : ℕ) (c : ReadyCall) : ReadyCall :=
  match c.pc with
  | .waiting s since => if s = slot then { c with pc := .woken s since } else c
  | _ => c

/-- A slot is named by the call that made it. -/
structure LoadWorld where
  now : Millis
  pool : VramPool
  built : List Adapter
  /-- `in_flight_loads` of each adapter. -/
  inFlight : AdapterId → String → Option ℕ
  /-- The `result` of each slot. -/
  result : ℕ → Option LoadResult
  /-- `last_progress_at` of each slot. -/
  progress : ℕ → Millis
  calls : List ReadyCall
  /-- A load probe or a preload has completed, or a sync pass has seen the model, and it has not
  been marked unloaded since. -/
  confirmed : ProviderId → String → Bool

/-- What the network answers: the context that is resolved, or how long the probe took. -/
structure LoadAnswer where
  numCtx : ℕ
  probed : Except LifecycleError ℕ

inductive LoadAction
  /-- The dispatcher reserves the model, and builds the adapter of the job. -/
  | dispatch (id : ProviderId) (model : String)
  | build (id : ProviderId) (vramPool : Bool)
  | call (i : ℕ) (model : String)
  /-- A call goes on. -/
  | step (k : ℕ) (answer : LoadAnswer)
  /-- `/api/ps` shows the model of a slot. -/
  | seen (slot : ℕ)
  /-- A call of the pool by anything else: a sync pass, a preload, an eviction, a permit. -/
  | pool (c : PoolCall)
  | tick (ms : Millis)

/-- What a call of the pool says about the models that are resident. -/
def PoolCall.confirms (confirmed : ProviderId → String → Bool) :
    PoolCall → ProviderId → String → Bool
  | .markModelLoaded id model _ _, j, m => decide (j = id ∧ m = model) || confirmed j m
  | .markModelUnloaded id model _, j, m => !decide (j = id ∧ m = model) && confirmed j m
  | _, j, m => confirmed j m

namespace LoadWorld

def init : LoadWorld :=
  { now := 0, pool := .new, built := [], inFlight := fun _ _ => none, result := fun _ => none
    progress := fun _ => 0, calls := [], confirmed := fun _ _ => false }

def setSlot (w : LoadWorld) (a : AdapterId) (model : String) (slot : Option ℕ) :
    AdapterId → String → Option ℕ :=
  Function.update w.inFlight a (Function.update (w.inFlight a) model slot)

/-- `no_progress_ms`. -/
def noProgressMs (w : LoadWorld) (slot : ℕ) : ℕ :=
  if w.progress slot = 0 then 0 else w.now - w.progress slot

/-- Whether the pool has the model as loaded. -/
def findsLoaded (w : LoadWorld) (c : ReadyCall) : Bool :=
  c.adapter.vramPool &&
    (w.pool.provider c.adapter.providerId).loadedModelNames.any (· == c.model)

/-- The call goes on to load the model: it is not loaded, and no load is in flight. -/
def startsLoad (w : LoadWorld) (c : ReadyCall) : Bool :=
  match c.pc with
  | .check => !w.findsLoaded c && (w.inFlight c.adapter.id c.model).isNone
  | _ => false

def setCall (w : LoadWorld) (k : ℕ) (c : ReadyCall) : LoadWorld :=
  { w with calls := w.calls.set k c }

def runPool (w : LoadWorld) (c : PoolCall) : LoadWorld :=
  { w with pool := w.pool.call c, confirmed := c.confirms w.confirmed }

/-- The end of a probe: the slot gets the result, its waiters are woken and it is removed. -/
def finish (w : LoadWorld) (k : ℕ) (c : ReadyCall) (result : LoadResult) : LoadWorld :=
  { w with
    calls := (w.calls.set k { c with pc := .returned result .probe }).map (ReadyCall.wake k)
    result := Function.update w.result k (some result)
    inFlight := w.setSlot c.adapter.id c.model none }

def callStep (w : LoadWorld) (k : ℕ) (c : ReadyCall) (answer : LoadAnswer) : Option LoadWorld :=
  match c.pc with
  | .check =>
    if w.findsLoaded c then
      some (w.setCall k { c with
        pc := .returned (.ok .alreadyLoaded) (.pool (w.confirmed c.adapter.providerId c.model)) })
    else match w.inFlight c.adapter.id c.model with
      | some slot => some (w.setCall k { c with pc := .waiting slot w.now })
      | none => some (w.setCall k { c with pc := .resolve })
  | .resolve =>
    some { w.setCall k { c with pc := .probe answer.numCtx } with
      inFlight := w.setSlot c.adapter.id c.model (some k) }
  | .probe _ =>
    match answer.probed with
    | .ok duration =>
      let w' := { w.finish k c (.ok (.loadCompleted duration)) with
        progress := Function.update w.progress k w.now }
      -- the placeholder weight
      let mark : PoolCall := .markModelLoaded c.adapter.providerId c.model 0 w.now
      if c.adapter.vramPool then some (w'.runPool mark)
      else some { w' with confirmed := mark.confirms w.confirmed }
    | .error e => some (w.finish k c (.error e))
  | .woken slot since =>
    let loaded := (w.result slot).getD (.error (.stalled (w.noProgressMs slot)))
    some (w.setCall k { c with
      pc := .returned (loaded.map fun _ => .loadCoalesced (w.now - since)) (.wait slot) })
  | .waiting .. | .returned .. => none

def step (w : LoadWorld) : LoadAction → Option LoadWorld
  | .dispatch id model =>
    let (pool, permit) := w.pool.tryReserve id model
    let adapter : Adapter := { id := .job w.calls.length, providerId := id, vramPool := true }
    if permit.isSome then
      some { w with pool, calls := w.calls ++ [{ adapter, model, pc := .check }] }
    else none
  | .build id vramPool =>
    some { w with
      built := w.built ++ [{ id := .built w.built.length, providerId := id, vramPool }] }
  | .call i model => do
    let adapter ← w.built[i]?
    return { w with calls := w.calls ++ [{ adapter, model, pc := .check }] }
  | .step k answer => do
    let c ← w.calls[k]?
    w.callStep k c answer
  | .seen slot => some { w with progress := Function.update w.progress slot w.now }
  | .pool c => some (w.runPool c)
  | .tick ms => some { w with now := w.now + ms }

/-- The probes in flight for a model on a provider. -/
def probesInFlight (w : LoadWorld) (id : ProviderId) (model : String) : ℕ :=
  w.calls.countP fun c => c.probes && c.isOf id model

/-- Loads are coalesced: one probe at a time, a call that waited has the result of the load it
waited for, and none is waiting for a load that has its result. -/
structure Coalesced (w : LoadWorld) : Prop where
  probes : ∀ id model, w.probesInFlight id model ≤ 1
  results : ∀ c ∈ w.calls, ∀ result slot, c.pc = .returned result (.wait slot) →
    ∃ loaded waitedMs, w.result slot = some loaded ∧
      result = loaded.map fun _ => .loadCoalesced waitedMs
  waits : ∀ c ∈ w.calls, ∀ slot since, c.pc = .waiting slot since → w.result slot = none

/-- A call starts to load only while no other call of the provider and the model is loading. -/
def LeadsAlone (w : LoadWorld) : LoadAction → Prop
  | .step k _ =>
    match w.calls[k]? with
    | some c => w.startsLoad c = true →
        ∀ d ∈ w.calls, d.leads = true → d.isOf c.adapter.providerId c.model = false
    | none => True
  | _ => True

instance (w : LoadWorld) (a : LoadAction) : Decidable (w.LeadsAlone a) := by
  unfold LeadsAlone
  split
  · split
    · exact inferInstance
    · exact inferInstance
  · exact inferInstance

end LoadWorld

/-! ## Slots -/

variable {w w' : LoadWorld} {k : ℕ} {c c' : ReadyCall} {answer : LoadAnswer}

namespace ReadyCall
variable {slot : ℕ}

@[simp] theorem wake_adapter (slot : ℕ) (c : ReadyCall) : (c.wake slot).adapter = c.adapter := by
  unfold wake
  split
  · split <;> rfl
  · rfl

@[simp] theorem wake_model (slot : ℕ) (c : ReadyCall) : (c.wake slot).model = c.model := by
  unfold wake
  split
  · split <;> rfl
  · rfl

/-- Only a call that waits for the slot is woken. -/
theorem wake_cases (slot : ℕ) (c : ReadyCall) :
    (c.wake slot = c ∧ ∀ since, c.pc ≠ .waiting slot since) ∨
      ∃ since, c.pc = .waiting slot since ∧ (c.wake slot).pc = .woken slot since := by
  unfold wake
  split
  · next s since hpc =>
    by_cases hs : s = slot
    · subst hs
      exact .inr ⟨since, hpc, by simp⟩
    · refine .inl ⟨if_neg hs, fun since' heq => hs ?_⟩
      exact (CallPc.waiting.inj (hpc.symm.trans heq)).1
  · next hother => exact .inl ⟨rfl, fun since heq => hother _ _ heq⟩

@[simp] theorem wake_leads (slot : ℕ) (c : ReadyCall) : (c.wake slot).leads = c.leads := by
  rcases wake_cases slot c with ⟨heq, -⟩ | ⟨since, hpc, hpc'⟩
  · rw [heq]
  · simp [leads, hpc, hpc']

@[simp] theorem wake_probes (slot : ℕ) (c : ReadyCall) : (c.wake slot).probes = c.probes := by
  rcases wake_cases slot c with ⟨heq, -⟩ | ⟨since, hpc, hpc'⟩
  · rw [heq]
  · simp [probes, hpc, hpc']

theorem leads_of_probes (h : c.probes = true) : c.leads = true := by
  unfold probes at h
  unfold leads
  split at h
  · next hpc => simp [hpc]
  · cases h

end ReadyCall

namespace LoadWorld

/-- The slots: one that can be found is being loaded, so is one that is waited for, and one that has
a result has the result its call returned. -/
structure Slotted (w : LoadWorld) : Prop where
  found : ∀ a model s, w.inFlight a model = some s →
    ∃ d, w.calls[s]? = some d ∧ d.adapter.id = a ∧ d.model = model ∧ d.probes = true
  closed : ∀ s result, w.result s = some result →
    ∃ d, w.calls[s]? = some d ∧ d.pc = .returned result .probe
  waits : ∀ c ∈ w.calls, ∀ s since, c.pc = .waiting s since →
    ∃ d, w.calls[s]? = some d ∧ d.probes = true
  woken : ∀ c ∈ w.calls, ∀ s since, c.pc = .woken s since → ∃ loaded, w.result s = some loaded
  results : ∀ c ∈ w.calls, ∀ result s, c.pc = .returned result (.wait s) →
    ∃ loaded waitedMs, w.result s = some loaded ∧
      result = loaded.map fun _ => .loadCoalesced waitedMs

/-- A load that runs has no result. -/
theorem Slotted.result_none (h : w.Slotted) (hk : w.calls[k]? = some c)
    (hopen : ∀ result, c.pc ≠ .returned result .probe) : w.result k = none := by
  cases hr : w.result k with
  | none => rfl
  | some result =>
    obtain ⟨d, hd, hpc⟩ := h.closed k result hr
    rw [hk] at hd
    obtain rfl := Option.some.inj hd
    exact absurd hpc (hopen result)

theorem Slotted.waits_none (h : w.Slotted) (hc : c ∈ w.calls) {s : ℕ} {since : Millis}
    (hpc : c.pc = .waiting s since) : w.result s = none := by
  obtain ⟨d, hd, hprobes⟩ := h.waits c hc s since hpc
  refine h.result_none hd fun result heq => ?_
  simp [ReadyCall.probes, heq] at hprobes

theorem getElem?_setCall_self (hk : w.calls[k]? = some c) :
    (w.setCall k c').calls[k]? = some c' := by
  obtain ⟨hlt, -⟩ := List.getElem?_eq_some_iff.mp hk
  simp [setCall, hlt]

theorem getElem?_setCall_ne {j : ℕ} (hj : j ≠ k) :
    (w.setCall k c').calls[j]? = w.calls[j]? := by
  simp [setCall, List.getElem?_set_ne hj.symm]

/-- A call that does not probe goes on; it may have inserted its slot. -/
theorem Slotted.set (h : w.Slotted) (hk : w.calls[k]? = some c) (hprobes : c.probes = false)
    (hopen : ∀ result, c.pc ≠ .returned result .probe)
    {inFlight : AdapterId → String → Option ℕ}
    (hfound : ∀ a model s, inFlight a model = some s →
      w.inFlight a model = some s ∨
        s = k ∧ c'.adapter.id = a ∧ c'.model = model ∧ c'.probes = true)
    (hwaits : ∀ s since, c'.pc = .waiting s since → ∃ d, w.calls[s]? = some d ∧ d.probes = true)
    (hwoken : ∀ s since, c'.pc ≠ .woken s since)
    (hresults : ∀ result s, c'.pc = .returned result (.wait s) →
      ∃ loaded waitedMs, w.result s = some loaded ∧
        result = loaded.map fun _ => .loadCoalesced waitedMs) :
    ({ w.setCall k c' with inFlight } : LoadWorld).Slotted := by
  have hkept : ∀ (s : ℕ) (d : ReadyCall), w.calls[s]? = some d → d ≠ c →
      (w.setCall k c').calls[s]? = some d := by
    intro s d hd hne
    by_cases hs : s = k
    · subst hs
      rw [hk] at hd
      exact absurd (Option.some.inj hd).symm hne
    · rw [getElem?_setCall_ne hs]
      exact hd
  have hprobing : ∀ (s : ℕ) (d : ReadyCall), w.calls[s]? = some d → d.probes = true →
      (w.setCall k c').calls[s]? = some d := by
    intro s d hd hp
    refine hkept s d hd fun heq => ?_
    rw [heq, hprobes] at hp
    cases hp
  have hmem : ∀ d ∈ (w.setCall k c').calls, d ∈ w.calls ∨ d = c' :=
    fun d hd => List.mem_or_eq_of_mem_set hd
  refine ⟨fun a model s hs => ?_, fun s result hr => ?_, fun d hd s since hpc => ?_,
    fun d hd s since hpc => ?_, fun d hd result s hpc => ?_⟩
  · rcases hfound a model s hs with hold | ⟨rfl, hown⟩
    · obtain ⟨d, hd, ha, hm, hp⟩ := h.found a model s hold
      exact ⟨d, hprobing s d hd hp, ha, hm, hp⟩
    · exact ⟨c', getElem?_setCall_self hk, hown⟩
  · obtain ⟨d, hd, hpc⟩ := h.closed s result hr
    refine ⟨d, hkept s d hd fun heq => ?_, hpc⟩
    exact hopen result (heq ▸ hpc)
  · have hwaited : ∃ e, w.calls[s]? = some e ∧ e.probes = true := by
      rcases hmem d hd with hold | rfl
      · exact h.waits d hold s since hpc
      · exact hwaits s since hpc
    obtain ⟨e, he, hp⟩ := hwaited
    exact ⟨e, hprobing s e he hp, hp⟩
  · rcases hmem d hd with hold | rfl
    · exact h.woken d hold s since hpc
    · exact absurd hpc (hwoken s since)
  · rcases hmem d hd with hold | rfl
    · exact h.results d hold result s hpc
    · exact hresults result s hpc

/-- The other calls after the end of a probe. -/
theorem getElem?_finish_ne {j : ℕ} {result : LoadResult} (hj : j ≠ k) :
    (w.finish k c result).calls[j]? = (w.calls[j]?).map (ReadyCall.wake k) := by
  simp [finish, List.getElem?_set_ne hj.symm]

theorem getElem?_finish_self {result : LoadResult} (hk : w.calls[k]? = some c) :
    (w.finish k c result).calls[k]? = some { c with pc := .returned result .probe } := by
  obtain ⟨hlt, -⟩ := List.getElem?_eq_some_iff.mp hk
  simp [finish, hlt, ReadyCall.wake]

theorem mem_finish {d : ReadyCall} {result : LoadResult} (hd : d ∈ (w.finish k c result).calls) :
    d = { c with pc := .returned result .probe } ∨ ∃ e ∈ w.calls, d = e.wake k := by
  obtain ⟨e, he, rfl⟩ := List.mem_map.mp hd
  rcases List.mem_or_eq_of_mem_set he with hold | rfl
  · exact .inr ⟨e, hold, rfl⟩
  · exact .inl rfl

theorem setSlot_none {a : AdapterId} {model : String} {b : AdapterId} {m : String} {s : ℕ}
    (h : w.setSlot a model none b m = some s) :
    w.inFlight b m = some s ∧ ¬ (b = a ∧ m = model) := by
  unfold setSlot at h
  by_cases hb : b = a
  · subst hb
    rw [Function.update_self] at h
    by_cases hm : m = model
    · simp [hm] at h
    · exact ⟨by simpa [hm] using h, fun hboth => hm hboth.2⟩
  · rw [Function.update_of_ne hb] at h
    exact ⟨h, fun hboth => hb hboth.1⟩

theorem setSlot_some {a : AdapterId} {model : String} {b : AdapterId} {m : String} {s : ℕ}
    (h : w.setSlot a model (some k) b m = some s) :
    w.inFlight b m = some s ∨ s = k ∧ a = b ∧ model = m := by
  unfold setSlot at h
  by_cases hb : b = a
  · subst hb
    rw [Function.update_self] at h
    by_cases hm : m = model
    · subst hm
      rw [Function.update_self] at h
      exact .inr ⟨(Option.some.inj h).symm, rfl, rfl⟩
    · exact .inl (by simpa [hm] using h)
  · exact .inl (by simpa [hb] using h)

theorem Slotted.finish (h : w.Slotted) (hk : w.calls[k]? = some c) (hprobes : c.probes = true)
    (result : LoadResult) : (w.finish k c result).Slotted := by
  have hnone : w.result k = none := by
    refine h.result_none hk fun r heq => ?_
    simp [ReadyCall.probes, heq] at hprobes
  have hresult : ∀ s loaded, w.result s = some loaded →
      (w.finish k c result).result s = some loaded := by
    intro s loaded hs
    have hne : s ≠ k := fun heq => by rw [heq, hnone] at hs; cases hs
    simpa [LoadWorld.finish, hne] using hs
  -- a call that probes or has returned is not woken
  have hkept : ∀ (s : ℕ) (d : ReadyCall), s ≠ k → w.calls[s]? = some d →
      (∀ since, d.pc ≠ .waiting k since) → (w.finish k c result).calls[s]? = some d := by
    intro s d hs hd hnot
    rw [getElem?_finish_ne hs, hd, Option.map_some]
    rcases ReadyCall.wake_cases k d with ⟨heq, -⟩ | ⟨since, hpc, -⟩
    · rw [heq]
    · exact absurd hpc (hnot since)
  have hprobing : ∀ (s : ℕ) (d : ReadyCall), s ≠ k → w.calls[s]? = some d → d.probes = true →
      (w.finish k c result).calls[s]? = some d := by
    intro s d hs hd hp
    refine hkept s d hs hd fun since heq => ?_
    simp [ReadyCall.probes, heq] at hp
  refine ⟨fun a model s hs => ?_, fun s r hr => ?_, fun d hd s since hpc => ?_,
    fun d hd s since hpc => ?_, fun d hd r s hpc => ?_⟩
  · obtain ⟨hold, hother⟩ := setSlot_none hs
    obtain ⟨d, hd, ha, hm, hp⟩ := h.found a model s hold
    have hne : s ≠ k := by
      rintro rfl
      rw [hk] at hd
      obtain rfl := Option.some.inj hd
      exact hother ⟨ha.symm, hm.symm⟩
    exact ⟨d, hprobing s d hne hd hp, ha, hm, hp⟩
  · by_cases hs : s = k
    · subst hs
      have hr' : result = r := by simpa [LoadWorld.finish] using hr
      subst hr'
      exact ⟨_, getElem?_finish_self hk, rfl⟩
    · have hold : w.result s = some r := by simpa [LoadWorld.finish, hs] using hr
      obtain ⟨d, hd, hpc⟩ := h.closed s r hold
      have hnot : ∀ since, d.pc ≠ .waiting k since := by
        intro since heq
        rw [hpc] at heq
        cases heq
      exact ⟨d, hkept s d hs hd hnot, hpc⟩
  · rcases mem_finish hd with rfl | ⟨e, he, rfl⟩
    · cases hpc
    · rcases ReadyCall.wake_cases k e with ⟨heq, hnot⟩ | ⟨t, -, hpc'⟩
      · rw [heq] at hpc
        have hne : s ≠ k := fun heq' => hnot since (heq' ▸ hpc)
        obtain ⟨d, hd, hp⟩ := h.waits e he s since hpc
        exact ⟨d, hprobing s d hne hd hp, hp⟩
      · rw [hpc'] at hpc
        cases hpc
  · rcases mem_finish hd with rfl | ⟨e, he, rfl⟩
    · cases hpc
    · rcases ReadyCall.wake_cases k e with ⟨heq, -⟩ | ⟨t, -, hpc'⟩
      · rw [heq] at hpc
        obtain ⟨loaded, hloaded⟩ := h.woken e he s since hpc
        exact ⟨loaded, hresult s loaded hloaded⟩
      · rw [hpc'] at hpc
        obtain ⟨rfl, -⟩ := CallPc.woken.inj hpc
        exact ⟨result, by simp [LoadWorld.finish]⟩
  · rcases mem_finish hd with rfl | ⟨e, he, rfl⟩
    · cases hpc
    · rcases ReadyCall.wake_cases k e with ⟨heq, -⟩ | ⟨t, -, hpc'⟩
      · rw [heq] at hpc
        obtain ⟨loaded, waited, hloaded, hmap⟩ := h.results e he r s hpc
        exact ⟨loaded, waited, hresult s loaded hloaded, hmap⟩
      · rw [hpc'] at hpc
        cases hpc

/-- What is not about the calls and their slots does not matter. -/
theorem Slotted.of_eq (h : w.Slotted) (hcalls : w'.calls = w.calls)
    (hflight : w'.inFlight = w.inFlight) (hresult : w'.result = w.result) : w'.Slotted := by
  refine ⟨?_, ?_, ?_, ?_, ?_⟩
  · rw [hcalls, hflight]
    exact h.found
  · rw [hcalls, hresult]
    exact h.closed
  · rw [hcalls]
    exact h.waits
  · rw [hcalls, hresult]
    exact h.woken
  · rw [hcalls, hresult]
    exact h.results

theorem Slotted.spawn (h : w.Slotted) (hcalls : w'.calls = w.calls ++ [c]) (hc : c.pc = .check)
    (hflight : w'.inFlight = w.inFlight)
    (hresult : w'.result = w.result) : w'.Slotted := by
  have hkept : ∀ (s : ℕ) (d : ReadyCall), w.calls[s]? = some d → w'.calls[s]? = some d := by
    intro s d hd
    obtain ⟨hlt, -⟩ := List.getElem?_eq_some_iff.mp hd
    rw [hcalls, List.getElem?_append_left hlt]
    exact hd
  have hmem : ∀ d ∈ w'.calls, d ∈ w.calls ∨ d.pc = .check := by
    intro d hd
    rw [hcalls] at hd
    rcases List.mem_append.mp hd with hold | hnew
    · exact .inl hold
    · obtain rfl := List.mem_singleton.mp hnew
      exact .inr hc
  refine ⟨fun a model s hs => ?_, fun s r hr => ?_, fun d hd s since hpc => ?_,
    fun d hd s since hpc => ?_, fun d hd r s hpc => ?_⟩
  · rw [hflight] at hs
    obtain ⟨d, hd, hrest⟩ := h.found a model s hs
    exact ⟨d, hkept s d hd, hrest⟩
  · rw [hresult] at hr
    obtain ⟨d, hd, hpc⟩ := h.closed s r hr
    exact ⟨d, hkept s d hd, hpc⟩
  · rcases hmem d hd with hold | hnew
    · obtain ⟨e, he, hp⟩ := h.waits d hold s since hpc
      exact ⟨e, hkept s e he, hp⟩
    · rw [hnew] at hpc
      cases hpc
  · rcases hmem d hd with hold | hnew
    · rw [hresult]
      exact h.woken d hold s since hpc
    · rw [hnew] at hpc
      cases hpc
  · rcases hmem d hd with hold | hnew
    · rw [hresult]
      exact h.results d hold r s hpc
    · rw [hnew] at hpc
      cases hpc

theorem Slotted.callStep (h : w.Slotted) (hk : w.calls[k]? = some c)
    (hstep : w.callStep k c answer = some w') : w'.Slotted := by
  have hmem : c ∈ w.calls := List.mem_of_getElem? hk
  unfold LoadWorld.callStep at hstep
  split at hstep
  case h_1 hpc =>
    have hprobes : c.probes = false := by simp [ReadyCall.probes, hpc]
    have hopen : ∀ result, c.pc ≠ .returned result .probe := by simp [hpc]
    split at hstep
    · cases hstep
      exact h.set hk hprobes hopen (fun a m s hs => .inl hs) (by rintro _ _ ⟨⟩) (by rintro _ _ ⟨⟩)
        (by rintro _ _ ⟨⟩)
    · split at hstep
      · next slot hslot =>
        cases hstep
        obtain ⟨d, hd, -, -, hp⟩ := h.found _ _ _ hslot
        refine h.set hk hprobes hopen (fun a m s hs => .inl hs) (fun s since heq => ?_)
          (by rintro _ _ ⟨⟩) (by rintro _ _ ⟨⟩)
        obtain ⟨rfl, -⟩ := CallPc.waiting.inj heq
        exact ⟨d, hd, hp⟩
      · cases hstep
        exact h.set hk hprobes hopen (fun a m s hs => .inl hs) (by rintro _ _ ⟨⟩) (by rintro _ _ ⟨⟩)
          (by rintro _ _ ⟨⟩)
  case h_2 hpc =>
    have hprobes : c.probes = false := by simp [ReadyCall.probes, hpc]
    have hopen : ∀ result, c.pc ≠ .returned result .probe := by simp [hpc]
    cases hstep
    refine h.set hk hprobes hopen (fun a m s hs => ?_) (by rintro _ _ ⟨⟩) (by rintro _ _ ⟨⟩)
      (by rintro _ _ ⟨⟩)
    rcases setSlot_some hs with hold | ⟨rfl, ha, hm⟩
    · exact .inl hold
    · exact .inr ⟨rfl, ha, hm, rfl⟩
  case h_3 hpc =>
    have hprobes : c.probes = true := by simp [ReadyCall.probes, hpc]
    split at hstep
    · next duration _ =>
      have hfinish := h.finish hk hprobes (.ok (.loadCompleted duration))
      dsimp only at hstep
      split at hstep
      · cases hstep
        exact hfinish.of_eq rfl rfl rfl
      · cases hstep
        exact hfinish.of_eq rfl rfl rfl
    · next e _ =>
      cases hstep
      exact h.finish hk hprobes (.error e)
  case h_4 slot since hpc =>
    have hprobes : c.probes = false := by simp [ReadyCall.probes, hpc]
    have hopen : ∀ result, c.pc ≠ .returned result .probe := by simp [hpc]
    obtain ⟨loaded, hloaded⟩ := h.woken c hmem slot since hpc
    cases hstep
    refine h.set hk hprobes hopen (fun a m s hs => .inl hs) (by rintro _ _ ⟨⟩) (by rintro _ _ ⟨⟩)
      fun r s heq => ?_
    obtain ⟨hr, hs⟩ := CallPc.returned.inj heq
    obtain rfl := Via.wait.inj hs
    exact ⟨loaded, w.now - since, hloaded, by rw [← hr, hloaded, Option.getD_some]⟩
  case h_5 => cases hstep
  case h_6 => cases hstep

theorem Slotted.step {a : LoadAction} (h : w.Slotted) (hstep : w.step a = some w') :
    w'.Slotted := by
  cases a with
  | dispatch id model =>
    simp only [LoadWorld.step] at hstep
    split at hstep
    · cases hstep
      exact h.spawn rfl rfl rfl rfl
    · cases hstep
  | build id vramPool =>
    cases hstep
    exact h.of_eq rfl rfl rfl
  | call i model =>
    obtain ⟨adapter, -, hrest⟩ := Option.bind_eq_some_iff.mp hstep
    cases hrest
    exact h.spawn rfl rfl rfl rfl
  | step k answer =>
    obtain ⟨c, hk, hrest⟩ := Option.bind_eq_some_iff.mp hstep
    exact h.callStep hk hrest
  | seen slot =>
    cases hstep
    exact h.of_eq rfl rfl rfl
  | pool c =>
    cases hstep
    exact h.of_eq rfl rfl rfl
  | tick ms =>
    cases hstep
    exact h.of_eq rfl rfl rfl

theorem Slotted.init : LoadWorld.init.Slotted := by
  refine ⟨fun _ _ _ hs => ?_, fun _ _ hr => ?_, fun _ hc => ?_, fun _ hc => ?_, fun _ hc => ?_⟩
  · cases hs
  · cases hr
  · cases hc
  · cases hc
  · cases hc

theorem reached_slotted {ok : LoadWorld → LoadAction → Prop}
    (h : Run LoadWorld.step ok LoadWorld.init w) : w.Slotted :=
  h.invariant .init fun _ _ _ _ hs _ hstep => hs.step hstep

/-! ## One load at a time -/

/-- The calls that are loading a model on a provider. -/
def loading (w : LoadWorld) (id : ProviderId) (model : String) : ℕ :=
  w.calls.countP fun d => d.leads && d.isOf id model

theorem probesInFlight_le (w : LoadWorld) (id : ProviderId) (model : String) :
    w.probesInFlight id model ≤ w.loading id model := by
  refine List.countP_mono_left fun d _ hd => ?_
  rw [Bool.and_eq_true] at hd ⊢
  exact ⟨ReadyCall.leads_of_probes hd.1, hd.2⟩

/-- A call that goes on counts for its successor. -/
theorem countP_set_call (hk : w.calls[k]? = some c) (c' : ReadyCall) (p : ReadyCall → Bool) :
    (w.calls.set k c').countP p + (if p c then 1 else 0) =
      w.calls.countP p + if p c' then 1 else 0 := by
  obtain ⟨others, hrep⟩ := set_replaced hk c'
  rw [hrep.countP_before, hrep.countP_after]
  omega

/-- A call that goes on without starting to load. -/
theorem loading_set_le {id : ProviderId} {model : String} (hk : w.calls[k]? = some c) (pc : CallPc)
    (hleads : ReadyCall.leads { c with pc } = true → c.leads = true) :
    (w.calls.set k { c with pc }).countP (fun d => d.leads && d.isOf id model) ≤
      w.loading id model := by
  have hcount := countP_set_call hk { c with pc } fun d => d.leads && d.isOf id model
  have hisOf : ReadyCall.isOf { c with pc } id model = c.isOf id model := rfl
  have hle : (if (ReadyCall.leads { c with pc } && c.isOf id model) = true then 1 else 0) ≤
      if (c.leads && c.isOf id model) = true then 1 else 0 := by
    cases hl : ReadyCall.leads { c with pc } with
    | false => simp
    | true => simp [hleads hl]
  rw [hisOf] at hcount
  unfold loading
  omega

theorem countP_wake {id : ProviderId} {model : String} (calls : List ReadyCall) (slot : ℕ) :
    (calls.map (ReadyCall.wake slot)).countP (fun d => d.leads && d.isOf id model) =
      calls.countP fun d => d.leads && d.isOf id model := by
  rw [List.countP_map]
  refine List.countP_congr fun d _ => ?_
  have hisOf : (d.wake slot).isOf id model = d.isOf id model := by simp [ReadyCall.isOf]
  simp [Function.comp, hisOf]

theorem loading_callStep (hk : w.calls[k]? = some c) (hstep : w.callStep k c answer = some w')
    (halone : w.LeadsAlone (.step k answer)) (id : ProviderId) (model : String)
    (hone : w.loading id model ≤ 1) : w'.loading id model ≤ 1 := by
  unfold LoadWorld.callStep at hstep
  split at hstep
  case h_1 hpc =>
    split at hstep
    · cases hstep
      exact le_trans (loading_set_le hk _ fun hl => by cases hl) hone
    · next hnot =>
      split at hstep
      · cases hstep
        exact le_trans (loading_set_le hk _ fun hl => by cases hl) hone
      · next hslot =>
        -- the call starts to load: no other one of its model does
        cases hstep
        have hstarts : w.startsLoad c = true := by simp [startsLoad, hpc, hnot, hslot]
        simp only [LeadsAlone, hk] at halone
        have hnone := halone hstarts
        have hcount := countP_set_call hk { c with pc := .resolve }
          fun d => d.leads && d.isOf id model
        have hc : c.leads = false := by simp [ReadyCall.leads, hpc]
        simp only [hc, Bool.false_and, Bool.false_eq_true, if_false, Nat.add_zero] at hcount
        show (w.calls.set k { c with pc := .resolve }).countP _ ≤ 1
        rw [hcount]
        by_cases hof : c.isOf id model = true
        · have hzero : w.calls.countP (fun d => d.leads && d.isOf id model) = 0 := by
            refine List.countP_eq_zero.mpr fun d hd hboth => ?_
            rw [Bool.and_eq_true] at hboth
            have hother := hnone d hd hboth.1
            obtain ⟨rfl, rfl⟩ := of_decide_eq_true hof
            rw [hother] at hboth
            exact Bool.false_ne_true hboth.2
          rw [hzero]
          split <;> omega
        · have hof' : ReadyCall.isOf { c with pc := .resolve } id model = false := by
            simpa [ReadyCall.isOf] using hof
          simpa [hof', loading] using hone
  case h_2 hpc =>
    cases hstep
    have hc : c.leads = true := by simp [ReadyCall.leads, hpc]
    exact le_trans (loading_set_le hk _ fun _ => hc) hone
  case h_3 hpc =>
    have hfinish : ∀ result, (w.finish k c result).loading id model ≤ 1 := by
      intro result
      unfold loading LoadWorld.finish
      rw [countP_wake]
      exact le_trans (loading_set_le hk _ fun hl => by cases hl) hone
    split at hstep
    · dsimp only at hstep
      split at hstep
      · cases hstep
        exact hfinish _
      · cases hstep
        exact hfinish _
    · cases hstep
      exact hfinish _
  case h_4 hpc =>
    cases hstep
    exact le_trans (loading_set_le hk _ fun hl => by cases hl) hone
  case h_5 => cases hstep
  case h_6 => cases hstep

theorem loading_step {a : LoadAction} (hstep : w.step a = some w') (halone : w.LeadsAlone a)
    (id : ProviderId) (model : String) (hone : w.loading id model ≤ 1) :
    w'.loading id model ≤ 1 := by
  have hspawn : ∀ d : ReadyCall, d.pc = .check →
      (w.calls ++ [d]).countP (fun d => d.leads && d.isOf id model) ≤ 1 := by
    intro d hd
    have hleads : d.leads = false := by simp [ReadyCall.leads, hd]
    rw [List.countP_append, List.countP_singleton]
    simpa [hleads, loading] using hone
  cases a with
  | dispatch id' model' =>
    simp only [LoadWorld.step] at hstep
    split at hstep
    · cases hstep
      exact hspawn ⟨⟨.job w.calls.length, id', true⟩, model', .check⟩ rfl
    · cases hstep
  | call i model' =>
    obtain ⟨adapter, -, hrest⟩ := Option.bind_eq_some_iff.mp hstep
    cases hrest
    exact hspawn ⟨adapter, model', .check⟩ rfl
  | step k answer =>
    obtain ⟨c, hk, hrest⟩ := Option.bind_eq_some_iff.mp hstep
    exact loading_callStep hk hrest halone id model hone
  | build id' vramPool =>
    cases hstep
    exact hone
  | seen slot =>
    cases hstep
    exact hone
  | pool c =>
    cases hstep
    exact hone
  | tick ms =>
    cases hstep
    exact hone

/-- In a run in which a call starts to load only while no other call of the provider and the model
is loading, loads are coalesced in every state. -/
theorem coalesced_of_leading_alone (h : Run LoadWorld.step LeadsAlone LoadWorld.init w) :
    w.Coalesced := by
  have hslotted := reached_slotted h
  have hone : ∀ id model, w.loading id model ≤ 1 :=
    h.invariant (I := fun w => ∀ id model, w.loading id model ≤ 1) (fun _ _ => Nat.zero_le _)
      fun _ _ _ _ hle halone hstep id model => loading_step hstep halone id model (hle id model)
  refine ⟨fun id model => (probesInFlight_le w id model).trans (hone id model),
    hslotted.results, ?_⟩
  intro c hc slot since hpc
  exact hslotted.waits_none hc hpc

/-- Two calls of one adapter: the second waits for the load of the first. -/
theorem second_call_coalesced : ∃ w : LoadWorld, w.Coalesced ∧
    ∃ c ∈ w.calls, ∃ waitedMs, c.pc = .returned (.ok (.loadCoalesced waitedMs)) (.wait 0) := by
  let answer : LoadAnswer := { numCtx := 32768, probed := .ok 9000 }
  have hexec : (exec LoadWorld.step (fun w a => decide (w.LeadsAlone a)) LoadWorld.init
      [.build 0 true, .call 0 "m", .step 0 answer, .step 0 answer, .call 0 "m", .step 1 answer,
        .tick 9000, .step 0 answer, .step 1 answer]).any
      (fun w => w.calls.any fun c => match c.pc with
        | .returned (.ok (.loadCoalesced _)) (.wait 0) => true
        | _ => false) = true := by
    decide +kernel
  obtain ⟨w, hrun, hw⟩ := Run.exists_of_exec (fun _ _ h => of_decide_eq_true h) hexec
  obtain ⟨c, hc, hpc⟩ := List.any_eq_true.mp hw
  refine ⟨w, coalesced_of_leading_alone hrun, c, hc, ?_⟩
  split at hpc
  · next waitedMs heq => exact ⟨waitedMs, heq⟩
  · cases hpc

/-- Two jobs of one model are dispatched to a provider that has not been probed: each has its own
adapter, and both of them probe. -/
theorem jobs_probe_twice :
    ∃ w : LoadWorld, Run LoadWorld.step (fun _ _ => True) LoadWorld.init w ∧
      w.probesInFlight 0 "m" = 2 := by
  let answer : LoadAnswer := { numCtx := 32768, probed := .ok 9000 }
  have hexec : (exec LoadWorld.step (fun _ _ => true) LoadWorld.init
      [.dispatch 0 "m", .dispatch 0 "m", .step 0 answer, .step 0 answer, .step 1 answer,
        .step 1 answer]).any (fun w => decide (w.probesInFlight 0 "m" = 2)) = true := by
    decide +kernel
  obtain ⟨w, hrun, hw⟩ :=
    @Run.exists_of_exec _ _ _ _ (fun _ _ => True) (fun _ _ _ => trivial) _ _ _ hexec
  exact ⟨w, hrun, of_decide_eq_true hw⟩

end LoadWorld

end Veronex
