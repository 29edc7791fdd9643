import Veronex.Domain.Values
import Veronex.Foundation.Pool
import Veronex.Foundation.Totals
import Veronex.Foundation.Transition
import Mathlib.Logic.Function.Basic
import Mathlib.Tactic.Linarith

/-! # The counter of online providers

The status changes of a cycle of `run_health_checker_loop` and the counter
`veronex:stats:providers:online`, for any number of instances that share the table `llm_providers`
and Valkey. A cycle begins with its read of the table, through the cache of its instance, and with
what it has found out about the providers; each command of the checks it then spawns is a step.
Hardware metrics and the other services are left out.

`step_balanced_iff`: which steps keep the counter, with what is still to be added to it, at the
number of online providers.
-/
namespace Veronex
set_option autoImplicit false
open Concurrency

inductive LlmProviderStatus
  | online
  | offline
  | degraded
  deriving DecidableEq

/-- 1 for an online provider. -/
def LlmProviderStatus.value (s : LlmProviderStatus) : ℤ := if s = .online then 1 else 0

/-- A row of `llm_providers`. -/
structure ProviderRow where
  providerType : ProviderType
  status : LlmProviderStatus
  deriving DecidableEq

abbrev ProviderTable := AList fun _ : ProviderId => ProviderRow

inductive CheckPc
  | updateStatus
  | incrBy
  | finished
  deriving DecidableEq

/-- A check that has found a new status. -/
structure StatusCheck where
  gateway : ℕ
  id : ProviderId
  old : LlmProviderStatus
  new : LlmProviderStatus
  pc : CheckPc
  deriving DecidableEq

namespace StatusCheck

def delta (c : StatusCheck) : ℤ :=
  match c.old, c.new with
  | .online, _ => -1
  | _, .online => 1
  | _, _ => 0

/-- What the check is still going to add to the counter. -/
def pending (c : StatusCheck) : ℤ := if c.pc = .incrBy then c.delta else 0

end StatusCheck

structure HealthWorld where
  providers : ProviderTable
  onlineCounter : ℤ
  /-- `CachingProviderRegistry` of each instance. -/
  cached : ℕ → Option ProviderTable
  checks : List StatusCheck

inductive HealthAction
  /-- `INSERT`; a taken id is refused. -/
  | register (gateway : ℕ) (id : ProviderId) (row : ProviderRow)
  | delete (gateway : ℕ) (id : ProviderId)
  /-- `update_status` by `sync_provider` or by the Gemini status sync. -/
  | setStatus (gateway : ℕ) (id : ProviderId) (status : LlmProviderStatus)
  /-- `list_all` of another caller. -/
  | list (gateway : ℕ)
  /-- The TTL of the cached list. -/
  | expire (gateway : ℕ)
  /-- A cycle: the status found for each provider, `none` where the check came to nothing. -/
  | cycle (gateway : ℕ) (found : ProviderId → Option LlmProviderStatus)
  /-- The next command of a check; one that fails may have been executed. -/
  | run (k : ℕ) (executed : Bool)
  | restart (gateway : ℕ)

namespace HealthWorld

/-- The number of providers whose stored status is online. -/
def countOnline (providers : ProviderTable) : ℕ :=
  countEntries (fun _ row => row.status = .online) providers

/-- A counter that is right, and no check. -/
def init (providers : ProviderTable) : HealthWorld :=
  { providers, onlineCounter := countOnline providers, cached := fun _ => none, checks := [] }

section Steps
variable (w : HealthWorld)

def invalidate (gateway : ℕ) : HealthWorld :=
  { w with cached := Function.update w.cached gateway none }

/-- `UPDATE llm_providers SET status`. -/
def updateStatus (id : ProviderId) (status : LlmProviderStatus) : HealthWorld :=
  match w.providers.lookup id with
  | some row => { w with providers := w.providers.insert id { row with status } }
  | none => w

def listAll (gateway : ℕ) : ProviderTable := (w.cached gateway).getD w.providers

/-- The check of a provider of the list, if its status has changed. -/
def newCheck (gateway : ℕ) (found : ProviderId → Option LlmProviderStatus)
    (e : Sigma fun _ : ProviderId => ProviderRow) : Option StatusCheck :=
  if e.2.providerType = .ollama then
    (found e.1).bind fun new =>
      if new ≠ e.2.status then
        some { gateway, id := e.1, old := e.2.status, new, pc := .updateStatus }
      else none
  else none

/-- A command of a check, and the check after it. -/
def checkStep (c : StatusCheck) (executed : Bool) : Option (HealthWorld × CheckPc) :=
  match c.pc with
  | .updateStatus =>
    let w := if executed then w.updateStatus c.id c.new else w
    some (w.invalidate c.gateway, if c.delta ≠ 0 then .incrBy else .finished)
  | .incrBy =>
    some ({ w with onlineCounter := w.onlineCounter + if executed then c.delta else 0 }, .finished)
  | .finished => none

def step (w : HealthWorld) : HealthAction → Option HealthWorld
  | .register gateway id row =>
    let w := if id ∈ w.providers then w else { w with providers := w.providers.insert id row }
    some (w.invalidate gateway)
  | .delete gateway id => some ({ w with providers := w.providers.erase id }.invalidate gateway)
  | .setStatus gateway id status => some ((w.updateStatus id status).invalidate gateway)
  | .list gateway =>
    some { w with cached := Function.update w.cached gateway (some (w.listAll gateway)) }
  | .expire gateway => some (w.invalidate gateway)
  | .cycle gateway found =>
    some { w with
      cached := Function.update w.cached gateway (some (w.listAll gateway))
      checks := w.checks ++ (w.listAll gateway).entries.filterMap (newCheck gateway found) }
  | .run k executed =>
    w.checks[k]?.bind fun c => (w.checkStep c executed).map fun (w', pc) =>
      { w' with checks := w.checks.set k { c with pc } }
  | .restart gateway =>
    some ({ w with checks := w.checks.filter fun c => c.gateway ≠ gateway }.invalidate gateway)

end Steps

/-! ## The balance -/

variable {w w' : HealthWorld} {a : HealthAction} {id : ProviderId}

def isOnline (w : HealthWorld) (id : ProviderId) : Bool :=
  (w.providers.lookup id).any fun row => row.status = .online

def online (w : HealthWorld) : ℕ := countOnline w.providers

def pending (w : HealthWorld) : ℤ := weight StatusCheck.pending w.checks

def Balanced (w : HealthWorld) : Prop := w.onlineCounter + w.pending = w.online

/-- No cycle is in progress. -/
def Idle (w : HealthWorld) : Prop := ∀ c ∈ w.checks, c.pc = .finished

/-- The command of the check is executed, on a row that is online exactly if the row of the list
was; or the check is about neither an online status nor the counter. -/
def CountsCheck (w : HealthWorld) (c : StatusCheck) (executed : Bool) : Prop :=
  match c.pc with
  | .updateStatus =>
    if executed ∧ c.id ∈ w.providers then w.isOnline c.id = true ↔ c.old = .online
    else c.old ≠ .online ∧ c.new ≠ .online
  | .incrBy => executed = true
  | .finished => True

/-- The step changes the stored statuses by what the counter is told. -/
def Counts (w : HealthWorld) : HealthAction → Prop
  | .register _ id row => id ∈ w.providers ∨ row.status ≠ .online
  | .delete _ id => w.isOnline id = false
  | .setStatus _ id status => id ∈ w.providers → (w.isOnline id = true ↔ status = .online)
  | .list _ | .expire _ | .cycle _ _ => True
  | .run k executed => ∀ c ∈ w.checks[k]?, w.CountsCheck c executed
  -- what is lost of the checks of the instance comes to nothing
  | .restart gateway =>
    weight StatusCheck.pending (w.checks.filter fun c => c.gateway = gateway) = 0

/-! ## The table -/

theorem value_eq_iff (s s' : LlmProviderStatus) :
    s.value = s'.value ↔ (s = .online ↔ s' = .online) := by
  unfold LlmProviderStatus.value
  by_cases hs : s = .online <;> by_cases hs' : s' = .online <;> simp [hs, hs']

theorem value_eq_zero_iff (s : LlmProviderStatus) : s.value = 0 ↔ s ≠ .online := by
  unfold LlmProviderStatus.value
  by_cases hs : s = .online <;> simp [hs]

theorem delta_eq {c : StatusCheck} (h : c.old ≠ c.new) : c.delta = c.new.value - c.old.value := by
  obtain ⟨gateway, id, old, new, pc⟩ := c
  cases old <;> cases new <;> first | exact absurd rfl h | rfl

def onlineOf (t : ProviderTable) : ℤ := total (fun _ row => row.status.value) t

theorem online_cast (w : HealthWorld) : (w.online : ℤ) = onlineOf w.providers := by
  refine (weight_natCast _ w.providers.entries).trans (weight_congr fun e _ => ?_)
  simp [LlmProviderStatus.value]

theorem isOnline_value {row : ProviderRow} (h : w.providers.lookup id = some row) :
    w.isOnline id = true ↔ row.status = .online := by
  simp [isOnline, h]

/-- What an update of a status does to the number of online providers. -/
theorem updateStatus_online (id : ProviderId) (status : LlmProviderStatus) :
    onlineOf (w.updateStatus id status).providers = onlineOf w.providers +
      ((w.providers.lookup id).elim 0 fun row => status.value - row.status.value) := by
  unfold updateStatus
  cases hlookup : w.providers.lookup id with
  | none => simp
  | some row =>
    have htotal := total_insert_of_lookup (fun _ row => row.status.value) hlookup { row with status }
    simp only [onlineOf, Option.elim_some]
    linarith

theorem updateStatus_rest (id : ProviderId) (status : LlmProviderStatus) :
    (w.updateStatus id status).onlineCounter = w.onlineCounter ∧
      (w.updateStatus id status).checks = w.checks := by
  unfold updateStatus
  split
  · exact ⟨rfl, rfl⟩
  · exact ⟨rfl, rfl⟩

theorem register_online (h : id ∉ w.providers) (row : ProviderRow) :
    onlineOf (w.providers.insert id row) = onlineOf w.providers + row.status.value := by
  rw [onlineOf, total_insert_of_notMem _ h, add_comm]
  rfl

theorem erase_online (id : ProviderId) :
    onlineOf (w.providers.erase id) =
      onlineOf w.providers - ((w.providers.lookup id).elim 0 fun row => row.status.value) := by
  cases hlookup : w.providers.lookup id with
  | none =>
    have hnot := AList.lookup_eq_none.mp hlookup
    rw [onlineOf, total_erase_of_notMem _ hnot]
    simp [onlineOf]
  | some row =>
    have htotal := total_erase_of_lookup (fun _ row => row.status.value) hlookup
    simp only [onlineOf, Option.elim_some]
    linarith

theorem lookup_value_eq_zero_iff (id : ProviderId) :
    ((w.providers.lookup id).elim 0 fun row => row.status.value) = 0 ↔ w.isOnline id = false := by
  cases hlookup : w.providers.lookup id with
  | none => simp [isOnline, hlookup]
  | some row =>
    rw [Option.elim_some, value_eq_zero_iff, ← Bool.not_eq_true, isOnline_value hlookup]

/-! ## One step -/

/-- A check has found a new status, and adds something to the counter. -/
structure Sound (w : HealthWorld) : Prop where
  changed : ∀ c ∈ w.checks, c.old ≠ c.new
  adds : ∀ c ∈ w.checks, c.pc = .incrBy → c.delta ≠ 0

theorem newCheck_some {gateway : ℕ} {found : ProviderId → Option LlmProviderStatus}
    {e : Sigma fun _ : ProviderId => ProviderRow} {c : StatusCheck}
    (h : newCheck gateway found e = some c) : c.old ≠ c.new ∧ c.pc = .updateStatus := by
  obtain ⟨-, h⟩ := Option.ite_none_right_eq_some.mp h
  obtain ⟨new, -, h⟩ := Option.bind_eq_some_iff.mp h
  obtain ⟨hne, h⟩ := Option.ite_none_right_eq_some.mp h
  obtain rfl : _ = c := Option.some.inj h
  exact ⟨Ne.symm hne, rfl⟩

theorem checkStep_some {c : StatusCheck} {executed : Bool} {pc : CheckPc}
    (h : w.checkStep c executed = some (w', pc)) :
    w'.checks = w.checks ∧ (pc = .incrBy → c.delta ≠ 0) := by
  obtain ⟨gateway, id, old, new, pc'⟩ := c
  cases pc' with
  | updateStatus =>
    obtain ⟨rfl, rfl⟩ := Prod.mk.inj (Option.some.inj h)
    refine ⟨?_, fun hpc => ?_⟩
    · cases executed with
      | true => exact (updateStatus_rest id new).2
      | false => rfl
    · split at hpc
      · assumption
      · cases hpc
  | incrBy =>
    obtain ⟨rfl, rfl⟩ := Prod.mk.inj (Option.some.inj h)
    exact ⟨rfl, by rintro ⟨⟩⟩
  | finished => cases h

theorem step_sound (h : w.Sound) (hs : w.step a = some w') : w'.Sound := by
  cases a with
  | register gateway id row =>
    obtain rfl : _ = w' := Option.some.inj hs
    dsimp only [invalidate]
    split
    · exact ⟨h.changed, h.adds⟩
    · exact ⟨h.changed, h.adds⟩
  | setStatus gateway id status =>
    obtain rfl : _ = w' := Option.some.inj hs
    have hchecks := (updateStatus_rest (w := w) id status).2
    exact ⟨fun c hc => h.changed c (hchecks ▸ hc), fun c hc => h.adds c (hchecks ▸ hc)⟩
  | delete | list | expire =>
    obtain rfl : _ = w' := Option.some.inj hs
    exact ⟨h.changed, h.adds⟩
  | cycle gateway found =>
    obtain rfl : _ = w' := Option.some.inj hs
    have hnew : ∀ c ∈ (w.listAll gateway).entries.filterMap (newCheck gateway found),
        c.old ≠ c.new ∧ c.pc = .updateStatus := by
      intro c hc
      obtain ⟨e, -, he⟩ := List.mem_filterMap.mp hc
      exact newCheck_some he
    refine ⟨List.forall_mem_append.mpr ⟨h.changed, fun c hc => (hnew c hc).1⟩,
      List.forall_mem_append.mpr ⟨h.adds, fun c hc hpc => ?_⟩⟩
    rw [(hnew c hc).2] at hpc
    cases hpc
  | run k executed =>
    obtain ⟨c, hc, hs⟩ := Option.bind_eq_some_iff.mp hs
    obtain ⟨⟨w₁, pc⟩, hstep, rfl⟩ := Option.map_eq_some_iff.mp hs
    have hmem := List.mem_of_getElem? hc
    refine ⟨fun c' hc' => ?_, fun c' hc' hpc => ?_⟩
    · rcases List.mem_or_eq_of_mem_set hc' with hc' | rfl
      · exact h.changed c' hc'
      · exact h.changed c hmem
    · rcases List.mem_or_eq_of_mem_set hc' with hc' | rfl
      · exact h.adds c' hc' hpc
      · exact (checkStep_some hstep).2 hpc
  | restart gateway =>
    obtain rfl : _ = w' := Option.some.inj hs
    exact ⟨fun c hc => h.changed c (List.mem_filter.mp hc).1,
      fun c hc => h.adds c (List.mem_filter.mp hc).1⟩

/-- The counter with what is to be added, less the number of online providers. -/
def drift (w : HealthWorld) : ℤ := w.onlineCounter + w.pending - onlineOf w.providers

theorem balanced_iff : w.Balanced ↔ w.drift = 0 := by
  rw [Balanced, drift, online_cast]
  omega

/-- What an `UPDATE` of a check does to the number of online providers. -/
def stored (w : HealthWorld) (c : StatusCheck) (executed : Bool) : ℤ :=
  if executed then
    (w.providers.lookup c.id).elim 0 fun row => c.new.value - row.status.value
  else 0

theorem stored_eq_delta_iff {c : StatusCheck} (hc : c.old ≠ c.new) (hpc : c.pc = .updateStatus)
    (executed : Bool) : w.stored c executed = c.delta ↔ w.CountsCheck c executed := by
  have hunchanged : 0 = c.delta ↔ c.old ≠ .online ∧ c.new ≠ .online := by
    rw [delta_eq hc]
    have hvalues := value_eq_iff c.new c.old
    constructor
    · intro hzero
      have hiff := hvalues.mp (by omega)
      refine ⟨fun hold => hc ?_, fun hnew => hc ?_⟩
      · exact hold.trans (hiff.mpr hold).symm
      · exact (hiff.mp hnew).trans hnew.symm
    · rintro ⟨hold, hnew⟩
      have heq := hvalues.mpr ⟨fun h => absurd h hnew, fun h => absurd h hold⟩
      omega
  unfold CountsCheck stored
  rw [hpc]
  dsimp only
  cases executed with
  | false => simpa using hunchanged
  | true =>
    cases hlookup : w.providers.lookup c.id with
    | none =>
      have hnot := AList.lookup_eq_none.mp hlookup
      simpa [hnot] using hunchanged
    | some row =>
      have hmem : c.id ∈ w.providers := AList.lookup_isSome.mp (by rw [hlookup]; rfl)
      have hvalues := value_eq_iff row.status c.old
      rw [if_pos rfl, if_pos ⟨rfl, hmem⟩, Option.elim_some, isOnline_value hlookup, ← hvalues,
        delta_eq hc]
      constructor
      · intro h
        omega
      · intro h
        omega

/-- A command of a check keeps the balance exactly if it counts. -/
theorem checkStep_drift {c : StatusCheck} {executed : Bool} {pc : CheckPc} (hc : c.old ≠ c.new)
    (hadds : c.pc = .incrBy → c.delta ≠ 0) (h : w.checkStep c executed = some (w', pc)) :
    w'.onlineCounter + ({ c with pc } : StatusCheck).pending - onlineOf w'.providers =
      w.onlineCounter + c.pending - onlineOf w.providers ↔ w.CountsCheck c executed := by
  cases hpc : c.pc with
  | updateStatus =>
    rw [checkStep, hpc] at h
    obtain ⟨rfl, rfl⟩ := Prod.mk.inj (Option.some.inj h)
    have hafter : ({ c with pc := if c.delta ≠ 0 then CheckPc.incrBy else .finished } :
        StatusCheck).pending = c.delta := by
      by_cases hzero : c.delta = 0
      · simp [StatusCheck.pending, hzero]
      · have hdelta : ∀ pc, ({ c with pc } : StatusCheck).delta = c.delta := fun _ => rfl
        simp [StatusCheck.pending, hzero, hdelta]
    have hbefore : c.pending = 0 := by rw [StatusCheck.pending, hpc]; rfl
    have hrest : ∀ v : HealthWorld, v = (if executed then w.updateStatus c.id c.new else w) →
        v.onlineCounter = w.onlineCounter ∧
          onlineOf v.providers = onlineOf w.providers + w.stored c executed := by
      rintro v rfl
      cases executed with
      | true => exact ⟨(updateStatus_rest c.id c.new).1, updateStatus_online c.id c.new⟩
      | false => exact ⟨rfl, (add_zero _).symm⟩
    obtain ⟨hcounter, hproviders⟩ := hrest _ rfl
    rw [← stored_eq_delta_iff hc hpc executed]
    dsimp only [invalidate]
    rw [hafter, hbefore, hcounter, hproviders]
    constructor
    · intro h; omega
    · intro h; omega
  | incrBy =>
    rw [checkStep, hpc] at h
    obtain ⟨rfl, rfl⟩ := Prod.mk.inj (Option.some.inj h)
    have hbefore : c.pending = c.delta := by rw [StatusCheck.pending, hpc]; rfl
    have hafter : ({ c with pc := .finished } : StatusCheck).pending = 0 := rfl
    have hdelta := hadds hpc
    rw [CountsCheck, hpc]
    dsimp only
    rw [hafter, hbefore]
    cases executed with
    | true =>
      refine iff_of_true ?_ rfl
      simp
    | false =>
      refine iff_of_false (fun h => hdelta ?_) Bool.false_ne_true
      simp only [Bool.false_eq_true, if_false] at h
      omega
  | finished =>
    rw [checkStep, hpc] at h
    cases h

theorem filter_drift (gateway : ℕ) : w.pending =
    weight StatusCheck.pending (w.checks.filter fun c => c.gateway = gateway) +
      weight StatusCheck.pending (w.checks.filter fun c => c.gateway ≠ gateway) := by
  rw [← weight_append]
  refine weight_perm _ ((List.filter_append_perm (fun c => decide (c.gateway = gateway))
    w.checks).symm.trans (.of_eq ?_))
  simp

/-- A step from a balanced state keeps the balance exactly if it counts. -/
theorem step_balanced_iff (hsound : w.Sound) (hbalanced : w.Balanced) (hs : w.step a = some w') :
    w'.Balanced ↔ w.Counts a := by
  rw [balanced_iff] at hbalanced ⊢
  rw [drift] at hbalanced ⊢
  have hpending : ∀ v : HealthWorld, v.checks = w.checks → v.pending = w.pending :=
    fun v hv => congrArg (weight StatusCheck.pending) hv
  cases a with
  | register gateway id row =>
    obtain rfl : _ = w' := Option.some.inj hs
    dsimp only [invalidate, Counts, pending]
    by_cases hid : id ∈ w.providers
    · rw [if_pos hid]
      exact iff_of_true hbalanced (.inl hid)
    · rw [if_neg hid, register_online hid row]
      have hvalue := value_eq_zero_iff row.status
      rw [pending] at hbalanced
      change w.onlineCounter + weight StatusCheck.pending w.checks - _ = 0 ↔ _
      constructor
      · intro h
        exact .inr (hvalue.mp (by omega))
      · intro h
        have hzero := hvalue.mpr (h.resolve_left hid)
        omega
  | delete gateway id =>
    obtain rfl : _ = w' := Option.some.inj hs
    have herase := erase_online (w := w) id
    have hlost := lookup_value_eq_zero_iff (w := w) id
    have hkept := hpending ({ w with providers := w.providers.erase id }.invalidate gateway) rfl
    dsimp only [Counts]
    rw [hkept, ← hlost]
    dsimp only [invalidate]
    omega
  | setStatus gateway id status =>
    obtain rfl : _ = w' := Option.some.inj hs
    have hupdate := updateStatus_online (w := w) id status
    obtain ⟨hcounter, hchecks⟩ := updateStatus_rest (w := w) id status
    have hkept := hpending ((w.updateStatus id status).invalidate gateway) hchecks
    rw [hkept]
    dsimp only [invalidate, Counts]
    rw [hcounter, hupdate]
    cases hlookup : w.providers.lookup id with
    | none =>
      have hnot := AList.lookup_eq_none.mp hlookup
      refine iff_of_true ?_ fun hmem => absurd hmem hnot
      simpa using hbalanced
    | some row =>
      have hmem : id ∈ w.providers := AList.lookup_isSome.mp (by rw [hlookup]; rfl)
      have hvalues := value_eq_iff row.status status
      rw [forall_prop_of_true hmem, isOnline_value hlookup, ← hvalues, Option.elim_some]
      omega
  | list | expire =>
    obtain rfl : _ = w' := Option.some.inj hs
    exact iff_of_true hbalanced trivial
  | cycle gateway found =>
    obtain rfl : _ = w' := Option.some.inj hs
    refine iff_of_true ?_ trivial
    have hnew : weight StatusCheck.pending
        ((w.listAll gateway).entries.filterMap (newCheck gateway found)) = 0 := by
      refine weight_zero fun c hc => ?_
      obtain ⟨e, -, he⟩ := List.mem_filterMap.mp hc
      rw [StatusCheck.pending, (newCheck_some he).2]
      rfl
    rw [pending, weight_append, hnew, add_zero]
    exact hbalanced
  | run k executed =>
    obtain ⟨c, hc, hs⟩ := Option.bind_eq_some_iff.mp hs
    obtain ⟨⟨w₁, pc⟩, hstep, rfl⟩ := Option.map_eq_some_iff.mp hs
    obtain ⟨others, hset⟩ := set_replaced hc { c with pc }
    have hmem := List.mem_of_getElem? hc
    have hdrift := checkStep_drift (hsound.changed c hmem) (hsound.adds c hmem) hstep
    have hcounts : w.Counts (.run k executed) ↔ w.CountsCheck c executed := by
      simp [Counts, hc]
    have hbefore := hset.weight_before StatusCheck.pending
    have hafter := hset.weight_after StatusCheck.pending
    rw [hcounts, ← hdrift]
    dsimp only [pending] at hbalanced ⊢
    rw [hafter, weight_nil]
    omega
  | restart gateway =>
    obtain rfl : _ = w' := Option.some.inj hs
    have hparts := filter_drift (w := w) gateway
    change w.onlineCounter + weight StatusCheck.pending (w.checks.filter fun c => c.gateway ≠ gateway)
      - onlineOf w.providers = 0 ↔ weight StatusCheck.pending _ = 0
    omega

theorem run_balanced {t : ProviderTable} (h : Run step Counts (init t) w) :
    w.Sound ∧ w.Balanced := by
  refine h.invariant (I := fun w => w.Sound ∧ w.Balanced) ⟨⟨by rintro _ ⟨⟩, by rintro _ ⟨⟩⟩,
    add_zero _⟩ ?_
  intro v v' a _ ⟨hsound, hbalanced⟩ hcounts hs
  exact ⟨step_sound hsound hs, (step_balanced_iff hsound hbalanced hs).mpr hcounts⟩

theorem pending_of_idle (h : w.Idle) : w.pending = 0 := by
  refine weight_zero fun c hc => ?_
  rw [StatusCheck.pending, h c hc]
  rfl

/-- While every step counts, the counter is right whenever no cycle is in progress; the first step
that does not count puts it out. -/
theorem counter_eq_online {t : ProviderTable} (h : Run step Counts (init t) w) :
    (w.Idle → w.onlineCounter = w.online) ∧
      ∀ a w', w.step a = some w' → (w'.Balanced ↔ w.Counts a) := by
  obtain ⟨hsound, hbalanced⟩ := run_balanced h
  refine ⟨fun hidle => ?_, fun a w' hs => step_balanced_iff hsound hbalanced hs⟩
  have hpending := pending_of_idle hidle
  rw [Balanced, hpending] at hbalanced
  omega

instance (w : HealthWorld) (c : StatusCheck) (executed : Bool) :
    Decidable (w.CountsCheck c executed) := by
  unfold CountsCheck
  cases c.pc with
  | updateStatus => exact inferInstanceAs (Decidable (ite ..))
  | incrBy => exact inferInstanceAs (Decidable (_ = _))
  | finished => exact isTrue trivial

instance (w : HealthWorld) (a : HealthAction) : Decidable (w.Counts a) := by
  cases a with
  | register => exact inferInstanceAs (Decidable (_ ∨ _))
  | delete => exact inferInstanceAs (Decidable (_ = _))
  | setStatus => exact inferInstanceAs (Decidable (_ → _))
  | run => exact inferInstanceAs (Decidable (∀ c ∈ (_ : Option StatusCheck), _))
  | restart => exact inferInstanceAs (Decidable (_ = _))
  | list | expire | cycle => exact isTrue trivial

instance (w : HealthWorld) : Decidable w.Idle := inferInstanceAs (Decidable (∀ c ∈ w.checks, _))

/-- A provider that is offline. -/
def oneOffline : ProviderTable := (∅ : ProviderTable).insert 7 ⟨.ollama, .offline⟩

def found : ProviderId → Option LlmProviderStatus := fun _ => some .online

/-- One instance finds the provider online. -/
def foundOnce : List HealthAction := [.cycle 0 found, .run 0 true, .run 0 true]

theorem counter_found_once :
    ∃ w, Run step Counts (init oneOffline) w ∧ w.onlineCounter = 1 ∧ w.onlineCounter = w.online := by
  have hexec : (exec step (fun w a => decide (w.Counts a)) (init oneOffline) foundOnce).any
      (fun w => decide (w.Idle ∧ w.onlineCounter = 1)) = true := by decide
  obtain ⟨w, hrun, hw⟩ := Run.exists_of_exec (fun _ _ h => of_decide_eq_true h) hexec
  obtain ⟨hidle, hone⟩ := of_decide_eq_true hw
  exact ⟨w, hrun, hone, (counter_eq_online hrun).1 hidle⟩

/-- Two instances list the provider before either has stored the status that both have found. -/
def foundTwice : List HealthAction :=
  [.cycle 0 found, .cycle 1 found, .run 0 true, .run 0 true, .run 1 true, .run 1 true]

/-- An Ollama server that answers is stored as online. -/
def registered : List HealthAction := [.register 0 7 ⟨.ollama, .online⟩]

theorem counter_drifts :
    (∃ w, Run step (fun _ _ => True) (init oneOffline) w ∧ w.Idle ∧ w.onlineCounter = 2 ∧
      w.online = 1) ∧
    ∃ w, Run step (fun _ _ => True) (init ∅) w ∧ w.Idle ∧ w.onlineCounter = 0 ∧ w.online = 1 := by
  have htwice : (exec step (fun _ _ => true) (init oneOffline) foundTwice).any
      (fun w => decide (w.Idle ∧ w.onlineCounter = 2 ∧ w.online = 1)) = true := by decide
  have hregistered : (exec step (fun _ _ => true) (init ∅) registered).any
      (fun w => decide (w.Idle ∧ w.onlineCounter = 0 ∧ w.online = 1)) = true := by decide
  obtain ⟨w, hrun, hw⟩ := Run.exists_of_exec (fun _ _ _ => trivial) htwice
  obtain ⟨w', hrun', hw'⟩ := Run.exists_of_exec (fun _ _ _ => trivial) hregistered
  exact ⟨⟨w, hrun, of_decide_eq_true hw⟩, w', hrun', of_decide_eq_true hw'⟩

end HealthWorld
end Veronex
