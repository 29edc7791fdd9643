import Veronex.Capacity.PreloadFlags
import Veronex.Dispatch.Eligibility
import Veronex.Dispatch.PlannerPreloads

/-! # Preloads on an instance

`preload_model` of `infrastructure/outbound/ollama/preloader.rs` and the calls of `vram_pool.rs` it
makes, beside every other call of the pool. Each call of the pool is a step, and those of different
preloads interleave. Who calls `preload_model`, and when, is left open.

`outcomes` is kept for the statements: how the preloads of a pair have ended, the latest first.
-/
namespace Veronex
set_option autoImplicit false
open Concurrency

inductive PreloadPc
  | setFlag
  /-- The request has been sent. -/
  | loading
  | clearFlag (success : Bool)
  | record (success : Bool)
  | sumLimits
  | setLimit (committed : ℕ)
  /-- The task of the planner, told that the preload has succeeded. -/
  | markLoaded
  | returned

structure PreloadCall where
  id : ProviderId
  model : String
  numParallel : ℕ
  pc : PreloadPc

/-- From the moment its flag is set until it clears it. -/
def PreloadCall.inFlight (c : PreloadCall) : Bool :=
  match c.pc with
  | .loading | .clearFlag _ => true
  | _ => false

structure Preloads where
  now : Millis
  governed : Governed
  /-- 0 where the pool has no entry. -/
  preloadFailCount : ProviderId → String → ℕ
  preloadFailedAt : ProviderId → String → Millis
  calls : List PreloadCall
  outcomes : ProviderId → String → List (Millis × Bool)

inductive PreloadAction
  | tick (ms : Millis)
  /-- A call of `preload_model`. -/
  | preload (id : ProviderId) (model : String) (numParallel : ℕ)
  /-- The next step of a call; `success` is what a request comes to. -/
  | run (k : ℕ) (success : Bool)
  /-- Any other call of the pool. -/
  | govern (a : GovernAction)

namespace Preloads

def init (now : Millis) : Preloads :=
  { now, governed := .start, preloadFailCount := fun _ _ => 0, preloadFailedAt := fun _ _ => 0
    calls := [], outcomes := fun _ _ => [] }

section Steps
variable (w : Preloads) (id : ProviderId) (model : String)

def knows : Bool := (w.governed.pool.provider id).knows model

def isPreloading : Bool := (w.governed.pool.provider id).isPreloading model

def isPreloadExcluded : Bool :=
  w.preloadFailedAt id model ≠ 0 ∧ w.now - w.preloadFailedAt id model < 300000

def setPreloading (value : Bool) : Preloads :=
  { w with
    governed.reservations.pool :=
      w.governed.pool.setProvider id ((w.governed.pool.provider id).setPreloading model value) }

/-- A value of a pair replaced. -/
def put {α : Type} (f : ProviderId → String → α) (a : α) : ProviderId → String → α :=
  Function.update f id (Function.update (f id) model a)

def recordPreloadFailure : Preloads :=
  if w.knows id model then
    let count := w.preloadFailCount id model + 1
    if 3 ≤ count then
      { w with
        preloadFailedAt := put id model w.preloadFailedAt w.now
        preloadFailCount := put id model w.preloadFailCount 0 }
    else { w with preloadFailCount := put id model w.preloadFailCount count }
  else w

def recordPreloadSuccess : Preloads :=
  if w.knows id model then
    { w with
      preloadFailCount := put id model w.preloadFailCount 0
      preloadFailedAt := put id model w.preloadFailedAt 0 }
  else w

def ended (success : Bool) : Preloads :=
  { w with outcomes := put id model w.outcomes ((w.now, success) :: w.outcomes id model) }

/-- A call that `VramPool` makes for passes too. -/
def handle (c : SyncCall) : c.Reply × Preloads :=
  let (reply, synced) := w.governed.synced.handle id w.now c
  (reply, { w with governed := w.governed.setSynced synced })

/-- The next step of `preload_model`. -/
def callStep (c : PreloadCall) (success : Bool) : Option (Preloads × PreloadPc) :=
  match c.pc with
  | .setFlag => some (w.setPreloading c.id c.model true, .loading)
  | .loading => some (w, .clearFlag success)
  | .clearFlag success => some (w.setPreloading c.id c.model false, .record success)
  | .record true =>
    some ((w.recordPreloadSuccess c.id c.model).ended c.id c.model true, .sumLimits)
  | .record false =>
    some ((w.recordPreloadFailure c.id c.model).ended c.id c.model false, .returned)
  | .sumLimits =>
    let (committed, w) := w.handle c.id .sumLoadedMaxConcurrent
    some (w, .setLimit committed)
  | .setLimit committed =>
    let initial := max (min c.numParallel (c.numParallel - committed)) 1
    some ((w.handle c.id (.setMaxConcurrent c.model initial)).2, .markLoaded)
  | .markLoaded => some ((w.handle c.id (.markModelLoaded c.model 0)).2, .returned)
  | .returned => none

def step (w : Preloads) : PreloadAction → Option Preloads
  | .tick ms => some { w with now := w.now + ms }
  | .preload id model numParallel =>
    some { w with calls := w.calls ++ [{ id, model, numParallel, pc := .setFlag }] }
  | .run k success =>
    w.calls[k]?.bind fun c => (w.callStep c success).map fun (w', pc) =>
      { w' with calls := w.calls.set k { c with pc } }
  | .govern a => (w.governed.step a).map fun governed => { w with governed }

end Steps

/-! ## What the statements are about -/

variable {w w' : Preloads} {id : ProviderId} {model : String} {a : PreloadAction}

/-- The failures of the pair since its last success, the latest first. -/
def streak (w : Preloads) (id : ProviderId) (model : String) : List Millis :=
  ((w.outcomes id model).takeWhile fun o => !o.2).map Prod.fst

/-- `preload_model` is called where the pool has an entry. -/
def Known (id : ProviderId) (model : String) (w : Preloads) : PreloadAction → Prop
  | .preload id' model' _ => id' = id → model' = model → w.knows id model = true
  | _ => True

instance : (a : PreloadAction) → Decidable (w.Known id model a)
  | .preload _ _ _ => inferInstanceAs (Decidable (_ → _ → _))
  | .tick _ | .run _ _ | .govern _ => isTrue trivial

/-- The call is `mark_model_unloaded` of the pair. -/
def Unloads (s : Governed) (id : ProviderId) (model : String) : GovernAction → Prop
  | .reserve (.update (.markModelUnloaded id' model' _)) => id' = id ∧ model' = model
  | .call k _ => ∃ pass ∈ s.passes[k]?, pass.id = id ∧
      ∃ call ∈ pass.rest.next, call.1 = .markModelUnloaded model
  | _ => False

/-- The model is not unloaded, and no preload of the pair but the one at `k` ends. -/
def Leaves (id : ProviderId) (model : String) (k : ℕ) (w : Preloads) : PreloadAction → Prop
  | .govern a => ¬ Unloads w.governed id model a
  | .run l _ => l ≠ k → ∀ c ∈ w.calls[l]?, c.id = id → c.model = model →
      ∀ success, c.pc ≠ .clearFlag success
  | _ => True

/-! ## The flags -/

open ProviderVramState

theorem markModelUnloaded_keepsFlags {gone : String → Prop} {pool : VramPool} {id' : ProviderId}
    {model' : String} {now : Millis} (h : id' = id → gone model') :
    KeepsFlags gone (pool.provider id) ((pool.markModelUnloaded id' model' now).provider id) := by
  have hset : KeepsFlags gone (pool.provider id)
      ((pool.setProvider id' ((pool.provider id').unload model' now).1).provider id) :=
    keepsFlags_setProvider fun hid => keepsFlags_unload now (h hid.symm)
  unfold VramPool.markModelUnloaded
  dsimp only
  split
  · rw [VramPool.provider_countUnload]
    exact hset
  · exact hset

theorem call_keepsFlags {pool : VramPool} {c : PoolCall} (hupdate : c.isUpdate = true)
    {gone : String → Prop}
    (hgone : ∀ model now, c = .markModelUnloaded id model now → gone model) :
    KeepsFlags gone (pool.provider id) ((pool.call c).provider id) := by
  cases c with
  | tryReserve | dropPermit => cases hupdate
  | setTotalVram id' totalMb => exact keepsFlags_setProvider fun _ => keepsFlags_of_models rfl
  | setModelProfile id' model' profile =>
    exact keepsFlags_setProvider fun _ => keepsFlags_setProfile profile
  | markModelLoaded id' model' weightMb now =>
    exact keepsFlags_setProvider fun _ => keepsFlags_load weightMb now
  | markModelUnloaded id' model' now =>
    refine markModelUnloaded_keepsFlags fun hid => ?_
    exact hgone model' now (by rw [hid])

theorem governed_keepsFlags {s s' : Governed} {a : GovernAction} (h : s.step a = some s') :
    KeepsFlags (fun model => Unloads s id model a) (s.pool.provider id) (s'.pool.provider id) := by
  cases a with
  | reserve a =>
    obtain ⟨reservations, hreserve, rfl⟩ := Option.map_eq_some_iff.mp h
    cases a with
    | request id' model' distributed =>
      obtain rfl : _ = reservations := Option.some.inj hreserve
      exact .refl _
    | step k env =>
      obtain ⟨r, -, hreserve⟩ := Option.bind_eq_some_iff.mp hreserve
      obtain ⟨⟨pool, r'⟩, hstep, hreserve⟩ := Option.bind_eq_some_iff.mp hreserve
      obtain rfl : _ = reservations := Option.some.inj hreserve
      exact reservation_keepsFlags hstep
    | drop k =>
      obtain ⟨r, -, hreserve⟩ := Option.bind_eq_some_iff.mp hreserve
      split at hreserve
      · obtain rfl : _ = reservations := Option.some.inj hreserve
        exact .refl _
      · cases hreserve
    | update c =>
      obtain ⟨hupdate, hreserve⟩ := Option.ite_none_right_eq_some.mp hreserve
      obtain rfl : _ = reservations := Option.some.inj hreserve
      refine call_keepsFlags hupdate fun model' now hc => ?_
      rw [hc]
      exact ⟨rfl, rfl⟩
  | sync id' r =>
    obtain rfl : _ = s' := Option.some.inj h
    exact .refl _
  | call k now =>
    obtain ⟨pass, hpass, h⟩ := Option.bind_eq_some_iff.mp h
    obtain ⟨⟨c, rest⟩, hnext, h⟩ := Option.bind_eq_some_iff.mp h
    obtain rfl : _ = s' := Option.some.inj h
    show KeepsFlags _ (s.pool.provider id) ((s.synced.handle pass.id now c).2.pool.provider id)
    rw [SyncedPool.handle_provider]
    split
    · next hid =>
      subst hid
      refine handle_keepsFlags (p := s.synced.provider pass.id) c fun model' hc => ?_
      exact ⟨pass, hpass, rfl, ⟨c, rest⟩, hnext, hc⟩
    · exact .refl _

/-- A call that is about to write the flag of the model. -/
def Writes (c : PreloadCall) (id : ProviderId) (model : String) : Prop :=
  c.id = id ∧ c.model = model ∧ (c.pc = .setFlag ∨ ∃ success, c.pc = .clearFlag success)

theorem handle_keeps (w : Preloads) {gone : String → Prop} (id' : ProviderId) (c : SyncCall)
    (h : ∀ model, c ≠ .markModelUnloaded model) :
    KeepsFlags gone (w.governed.pool.provider id)
      ((w.handle id' c).2.governed.pool.provider id) := by
  show KeepsFlags _ _ ((w.governed.synced.handle id' w.now c).2.pool.provider id)
  rw [SyncedPool.handle_provider]
  split
  · next hid =>
    subst hid
    exact handle_keepsFlags (p := w.governed.synced.provider id) c
      fun model' hc => absurd hc (h model')
  · exact .refl _

/-- What is recorded of a pair touches nothing else. -/
structure OnlyRecords (w w' : Preloads) : Prop where
  now : w'.now = w.now
  governed : w'.governed = w.governed
  calls : w'.calls = w.calls
  outcomes : w'.outcomes = w.outcomes

theorem recordPreloadFailure_only (w : Preloads) (id : ProviderId) (model : String) :
    OnlyRecords w (w.recordPreloadFailure id model) := by
  unfold recordPreloadFailure
  split
  · dsimp only
    split
    · exact ⟨rfl, rfl, rfl, rfl⟩
    · exact ⟨rfl, rfl, rfl, rfl⟩
  · exact ⟨rfl, rfl, rfl, rfl⟩

theorem recordPreloadSuccess_only (w : Preloads) (id : ProviderId) (model : String) :
    OnlyRecords w (w.recordPreloadSuccess id model) := by
  unfold recordPreloadSuccess
  split
  · exact ⟨rfl, rfl, rfl, rfl⟩
  · exact ⟨rfl, rfl, rfl, rfl⟩

theorem callStep_keepsFlags (id : ProviderId) {c : PreloadCall} {success : Bool} {pc : PreloadPc}
    (h : w.callStep c success = some (w', pc)) :
    KeepsFlags (fun m => Writes c id m) (w.governed.pool.provider id)
      (w'.governed.pool.provider id) := by
  unfold callStep at h
  split at h
  · next hpc =>
    obtain ⟨rfl, -⟩ := Prod.mk.inj (Option.some.inj h)
    exact keepsFlags_setProvider fun hid =>
      keepsFlags_setPreloading true ⟨hid.symm, rfl, .inl hpc⟩
  · obtain ⟨rfl, -⟩ := Prod.mk.inj (Option.some.inj h)
    exact .refl _
  · next value hpc =>
    obtain ⟨rfl, -⟩ := Prod.mk.inj (Option.some.inj h)
    exact keepsFlags_setProvider fun hid =>
      keepsFlags_setPreloading false ⟨hid.symm, rfl, .inr ⟨value, hpc⟩⟩
  · obtain ⟨rfl, -⟩ := Prod.mk.inj (Option.some.inj h)
    rw [ended, (recordPreloadSuccess_only w c.id c.model).governed]
    exact .refl _
  · obtain ⟨rfl, -⟩ := Prod.mk.inj (Option.some.inj h)
    rw [ended, (recordPreloadFailure_only w c.id c.model).governed]
    exact .refl _
  · obtain ⟨rfl, -⟩ := Prod.mk.inj (Option.some.inj h)
    exact handle_keeps w c.id .sumLoadedMaxConcurrent fun _ h => by cases h
  · obtain ⟨rfl, -⟩ := Prod.mk.inj (Option.some.inj h)
    exact handle_keeps w c.id (.setMaxConcurrent c.model _) fun _ h => by cases h
  · obtain ⟨rfl, -⟩ := Prod.mk.inj (Option.some.inj h)
    exact handle_keeps w c.id (.markModelLoaded c.model 0) fun _ h => by cases h
  · cases h

/-- The step writes the flag of the pair, or unloads it. -/
def Touches (w : Preloads) (id : ProviderId) (model : String) : PreloadAction → Prop
  | .run k _ => ∃ c ∈ w.calls[k]?, Writes c id model
  | .govern a => Unloads w.governed id model a
  | _ => False

theorem step_keepsFlags (h : w.step a = some w') :
    KeepsFlags (fun m => w.Touches id m a) (w.governed.pool.provider id)
      (w'.governed.pool.provider id) := by
  cases a with
  | tick ms =>
    obtain rfl : _ = w' := Option.some.inj h
    exact .refl _
  | preload id' model' numParallel =>
    obtain rfl : _ = w' := Option.some.inj h
    exact .refl _
  | run k success =>
    obtain ⟨c, hc, h⟩ := Option.bind_eq_some_iff.mp h
    obtain ⟨⟨w₁, pc⟩, hstep, rfl⟩ := Option.map_eq_some_iff.mp h
    have hkeeps := callStep_keepsFlags id hstep
    refine ⟨hkeeps.known, fun m hm hgone => hkeeps.flag m hm fun hwrites => ?_⟩
    exact hgone ⟨c, hc, hwrites⟩
  | govern a =>
    obtain ⟨governed, hstep, rfl⟩ := Option.map_eq_some_iff.mp h
    exact governed_keepsFlags hstep

theorem step_knows (h : w.step a = some w') (hknows : w.knows id model = true) :
    w'.knows id model = true :=
  (step_keepsFlags h).known model hknows

theorem callStep_setFlag {c : PreloadCall} {success : Bool} {pc : PreloadPc}
    (h : w.callStep c success = some (w', pc)) (hpc : c.pc = .setFlag)
    (hknows : w.knows c.id c.model = true) : w'.isPreloading c.id c.model = true := by
  rw [callStep, hpc] at h
  obtain ⟨rfl, -⟩ := Prod.mk.inj (Option.some.inj h)
  show (((w.governed.pool.setProvider c.id _).provider c.id)).isPreloading c.model = true
  rw [VramPool.provider_setProvider, if_pos rfl]
  exact setPreloading_isPreloading hknows true

/-- The flag of a pair is cleared by a preload that ends and by an unload, and by nothing else. -/
theorem step_isPreloading (h : w.step a = some w') (hknows : w.knows id model = true)
    (hflag : w.isPreloading id model = true)
    (hclear : ∀ k success, a = .run k success → ∀ c ∈ w.calls[k]?, c.id = id → c.model = model →
      ∀ value, c.pc ≠ .clearFlag value)
    (hunload : ∀ g, a = .govern g → ¬ Unloads w.governed id model g) :
    w'.isPreloading id model = true := by
  by_cases htouch : w.Touches id model a
  · cases a with
    | tick | preload => exact htouch.elim
    | govern g => exact absurd htouch (hunload g rfl)
    | run k success =>
      obtain ⟨c, hc, hid, hmodel, hpc | ⟨value, hpc⟩⟩ := htouch
      · subst hid hmodel
        obtain ⟨c', hc', h⟩ := Option.bind_eq_some_iff.mp h
        obtain rfl : c = c' := Option.some.inj (hc.symm.trans hc')
        obtain ⟨⟨w₁, pc⟩, hstep, rfl⟩ := Option.map_eq_some_iff.mp h
        show w₁.isPreloading c.id c.model = true
        exact callStep_setFlag hstep hpc hknows
      · exact absurd hpc (hclear k success rfl c hc hid hmodel value)
  · exact ((step_keepsFlags h).flag model hknows htouch).trans hflag

/-- The preload at `k` is one of the pair, has set its flag, and the flag is up while it is in
flight. -/
structure Raised (id : ProviderId) (model : String) (k : ℕ) (w : Preloads) : Prop where
  known : w.knows id model = true
  call : ∃ c, w.calls[k]? = some c ∧ c.id = id ∧ c.model = model ∧ c.pc ≠ .setFlag ∧
    (c.inFlight = true → w.isPreloading id model = true)

/-- A preload that has set its flag is in flight after a step only if it was waiting. -/
theorem callStep_inFlight {c : PreloadCall} {success : Bool} {pc : PreloadPc}
    (h : w.callStep c success = some (w', pc)) (hpc : c.pc ≠ .setFlag) :
    pc ≠ .setFlag ∧ (({ c with pc } : PreloadCall).inFlight = true → w' = w ∧ c.pc = .loading) := by
  obtain ⟨id', model', numParallel, pc'⟩ := c
  cases pc' with
  | setFlag => exact absurd rfl hpc
  | loading =>
    obtain ⟨rfl, rfl⟩ := Prod.mk.inj (Option.some.inj h)
    exact ⟨by rintro ⟨⟩, fun _ => ⟨rfl, rfl⟩⟩
  | record success =>
    cases success with
    | true =>
      obtain ⟨-, rfl⟩ := Prod.mk.inj (Option.some.inj h)
      exact ⟨by rintro ⟨⟩, by rintro ⟨⟩⟩
    | false =>
      obtain ⟨-, rfl⟩ := Prod.mk.inj (Option.some.inj h)
      exact ⟨by rintro ⟨⟩, by rintro ⟨⟩⟩
  | clearFlag | sumLimits | setLimit | markLoaded =>
    obtain ⟨-, rfl⟩ := Prod.mk.inj (Option.some.inj h)
    exact ⟨by rintro ⟨⟩, by rintro ⟨⟩⟩
  | returned => cases h

theorem step_raised {k : ℕ} (hraised : Raised id model k w) (hok : Leaves id model k w a)
    (h : w.step a = some w') : Raised id model k w' := by
  obtain ⟨hknows, c, hc, hid, hmodel, hset, hup⟩ := hraised
  refine ⟨step_knows h hknows, ?_⟩
  cases a with
  | tick ms =>
    obtain rfl : _ = w' := Option.some.inj h
    exact ⟨c, hc, hid, hmodel, hset, hup⟩
  | preload id' model' numParallel =>
    obtain rfl : _ = w' := Option.some.inj h
    refine ⟨c, ?_, hid, hmodel, hset, hup⟩
    exact (List.getElem?_append_left (List.getElem?_eq_some_iff.mp hc).1).trans hc
  | govern g =>
    obtain ⟨governed, hstep, heq⟩ := Option.map_eq_some_iff.mp h
    have hcalls : w'.calls = w.calls := by rw [← heq]
    refine ⟨c, hcalls ▸ hc, hid, hmodel, hset, fun hflight => ?_⟩
    refine step_isPreloading h hknows (hup hflight) (fun _ _ hrun => by cases hrun) ?_
    rintro g' hg
    cases hg
    exact hok
  | run l success =>
    obtain ⟨c', hc', hrun⟩ := Option.bind_eq_some_iff.mp h
    obtain ⟨⟨w₁, pc⟩, hstep, heq⟩ := Option.map_eq_some_iff.mp hrun
    by_cases hl : l = k
    · subst hl
      obtain rfl : c = c' := Option.some.inj (hc.symm.trans hc')
      obtain ⟨hset', hwaited⟩ := callStep_inFlight hstep hset
      refine ⟨{ c with pc }, ?_, hid, hmodel, hset', fun hflight => ?_⟩
      · rw [← heq]
        exact List.getElem?_set_self (List.getElem?_eq_some_iff.mp hc).1
      · obtain ⟨rfl, hpc⟩ := hwaited hflight
        rw [← heq]
        exact hup (by rw [PreloadCall.inFlight, hpc])
    · refine ⟨c, ?_, hid, hmodel, hset, fun hflight => ?_⟩
      · rw [← heq]
        exact (List.getElem?_set_ne hl).trans hc
      · refine step_isPreloading h hknows (hup hflight) ?_ (fun _ hg => by cases hg)
        rintro k' success' hrun'
        cases hrun'
        exact hok hl

theorem raised_of_setFlag {k : ℕ} {c : PreloadCall} {success : Bool} (hc : w.calls[k]? = some c)
    (hid : c.id = id) (hmodel : c.model = model) (hpc : c.pc = .setFlag)
    (hknows : w.knows id model = true) (h : w.step (.run k success) = some w') :
    Raised id model k w' := by
  subst hid hmodel
  refine ⟨step_knows h hknows, { c with pc := .loading }, ?_⟩
  obtain ⟨c', hc', h⟩ := Option.bind_eq_some_iff.mp h
  obtain rfl : c = c' := Option.some.inj (hc.symm.trans hc')
  obtain ⟨⟨w₁, pc⟩, hstep, rfl⟩ := Option.map_eq_some_iff.mp h
  have hflag : w₁.isPreloading c.id c.model = true := callStep_setFlag hstep hpc hknows
  rw [callStep, hpc] at hstep
  obtain ⟨-, rfl⟩ := Prod.mk.inj (Option.some.inj hstep)
  refine ⟨List.getElem?_set_self (List.getElem?_eq_some_iff.mp hc).1, rfl, rfl, by rintro ⟨⟩,
    fun _ => ?_⟩
  exact hflag

/-! ## The failures -/

theorem put_self {α : Type} (f : ProviderId → String → α) (x : α) : put id model f x id model = x := by
  simp [put]

theorem put_of_ne {α : Type} {id' : ProviderId} {model' : String} (f : ProviderId → String → α)
    (x : α) (h : ¬ (id' = id ∧ model' = model)) : put id' model' f x id model = f id model := by
  unfold put
  by_cases hid : id = id'
  · subst hid
    rw [Function.update_self, Function.update_of_ne fun hmodel => h ⟨rfl, hmodel.symm⟩]
  · rw [Function.update_of_ne hid]

/-- What is kept of the outcomes of a pair agrees with them: the count is the length of the streak,
and the time that of its last third failure. -/
structure Booked (id : ProviderId) (model : String) (w : Preloads) : Prop where
  clock : 0 < w.now
  known : ∀ c ∈ w.calls, c.id = id → c.model = model → w.knows id model = true
  times : ∀ t ∈ w.streak id model, 0 < t
  count : w.preloadFailCount id model = (w.streak id model).length % 3
  failedAt : w.preloadFailedAt id model =
    ((w.streak id model)[(w.streak id model).length % 3]?).getD 0

/-- The outcomes of the pair and what is kept of them are the same. -/
structure SameBooks (id : ProviderId) (model : String) (w w' : Preloads) : Prop where
  now : w'.now = w.now
  failCount : w'.preloadFailCount id model = w.preloadFailCount id model
  failedAt : w'.preloadFailedAt id model = w.preloadFailedAt id model
  outcomes : w'.outcomes id model = w.outcomes id model

theorem SameBooks.streak (h : SameBooks id model w w') :
    w'.streak id model = w.streak id model := by
  rw [Preloads.streak, Preloads.streak, h.outcomes]

theorem Booked.same (h : Booked id model w) (hsame : SameBooks id model w w')
    (hknown : ∀ c ∈ w'.calls, c.id = id → c.model = model → w'.knows id model = true) :
    Booked id model w' where
  clock := hsame.now ▸ h.clock
  known := hknown
  times := hsame.streak ▸ h.times
  count := by rw [hsame.failCount, hsame.streak]; exact h.count
  failedAt := by rw [hsame.failedAt, hsame.streak]; exact h.failedAt

theorem ended_streak (success : Bool) :
    (w.ended id model success).streak id model =
      if success then [] else w.now :: w.streak id model := by
  cases success <;> simp [streak, ended, put_self]

theorem streak_congr (h : w'.outcomes = w.outcomes) : w'.streak id model = w.streak id model := by
  rw [streak, streak, h]

theorem booked_success (h : Booked id model w) (hknows : w.knows id model = true) :
    Booked id model ((w.recordPreloadSuccess id model).ended id model true) := by
  have hstreak : ((w.recordPreloadSuccess id model).ended id model true).streak id model = [] :=
    ended_streak true
  have hrecorded : w.recordPreloadSuccess id model = { w with
      preloadFailCount := put id model w.preloadFailCount 0
      preloadFailedAt := put id model w.preloadFailedAt 0 } := if_pos hknows
  refine ⟨?_, ?_, ?_, ?_, ?_⟩
  · rw [hrecorded]; exact h.clock
  · rw [hrecorded]; exact h.known
  · rw [hstreak]; exact List.forall_mem_nil _
  · rw [hstreak, hrecorded]; exact put_self _ 0
  · rw [hstreak, hrecorded]; exact put_self _ 0

theorem booked_failure (h : Booked id model w) (hknows : w.knows id model = true) :
    Booked id model ((w.recordPreloadFailure id model).ended id model false) := by
  have honly := recordPreloadFailure_only w id model
  have hstreak : ((w.recordPreloadFailure id model).ended id model false).streak id model
      = w.now :: w.streak id model := by
    rw [ended_streak, if_neg Bool.false_ne_true, honly.now, streak_congr honly.outcomes]
  have hcount := h.count
  have hlater : (w.recordPreloadFailure id model).preloadFailCount id model
        = ((w.streak id model).length + 1) % 3 ∧
      (w.recordPreloadFailure id model).preloadFailedAt id model
        = ((w.now :: w.streak id model)[((w.streak id model).length + 1) % 3]?).getD 0 := by
    unfold recordPreloadFailure
    rw [if_pos hknows]
    dsimp only
    split
    · have hmod : ((w.streak id model).length + 1) % 3 = 0 := by omega
      rw [hmod]
      exact ⟨put_self _ 0, put_self _ w.now⟩
    · have hmod : ((w.streak id model).length + 1) % 3 = (w.streak id model).length % 3 + 1 := by
        omega
      rw [hmod, List.getElem?_cons_succ, ← hcount]
      exact ⟨put_self _ _, hcount ▸ h.failedAt⟩
  refine ⟨?_, ?_, ?_, ?_, ?_⟩
  · exact honly.now ▸ h.clock
  · intro c hc hid hmodel
    have hbefore := h.known c (honly.calls ▸ hc) hid hmodel
    rwa [knows, ended, honly.governed]
  · rw [hstreak]
    exact List.forall_mem_cons.mpr ⟨h.clock, h.times⟩
  · rw [hstreak, List.length_cons]
    exact hlater.1
  · rw [hstreak, List.length_cons]
    exact hlater.2

/-- A step of a preload that records nothing of the pair. -/
theorem callStep_sameBooks {c : PreloadCall} {success : Bool} {pc : PreloadPc}
    (h : w.callStep c success = some (w', pc))
    (hother : (∀ value, c.pc ≠ .record value) ∨ ¬ (c.id = id ∧ c.model = model)) :
    SameBooks id model w w' := by
  unfold callStep at h
  split at h
  · obtain ⟨rfl, -⟩ := Prod.mk.inj (Option.some.inj h)
    exact ⟨rfl, rfl, rfl, rfl⟩
  · obtain ⟨rfl, -⟩ := Prod.mk.inj (Option.some.inj h)
    exact ⟨rfl, rfl, rfl, rfl⟩
  · obtain ⟨rfl, -⟩ := Prod.mk.inj (Option.some.inj h)
    exact ⟨rfl, rfl, rfl, rfl⟩
  · next hpc =>
    obtain ⟨rfl, -⟩ := Prod.mk.inj (Option.some.inj h)
    have hne := hother.resolve_left fun hrecord => hrecord true hpc
    have honly := recordPreloadSuccess_only w c.id c.model
    refine ⟨honly.now, ?_, ?_, ?_⟩
    · show (w.recordPreloadSuccess c.id c.model).preloadFailCount id model = _
      unfold recordPreloadSuccess
      split
      · exact put_of_ne _ _ hne
      · rfl
    · show (w.recordPreloadSuccess c.id c.model).preloadFailedAt id model = _
      unfold recordPreloadSuccess
      split
      · exact put_of_ne _ _ hne
      · rfl
    · exact (put_of_ne _ _ hne).trans (by rw [honly.outcomes])
  · next hpc =>
    obtain ⟨rfl, -⟩ := Prod.mk.inj (Option.some.inj h)
    have hne := hother.resolve_left fun hrecord => hrecord false hpc
    have honly := recordPreloadFailure_only w c.id c.model
    refine ⟨honly.now, ?_, ?_, ?_⟩
    · show (w.recordPreloadFailure c.id c.model).preloadFailCount id model = _
      unfold recordPreloadFailure
      split
      · dsimp only
        split
        · exact put_of_ne _ _ hne
        · exact put_of_ne _ _ hne
      · rfl
    · show (w.recordPreloadFailure c.id c.model).preloadFailedAt id model = _
      unfold recordPreloadFailure
      split
      · dsimp only
        split
        · exact put_of_ne _ _ hne
        · rfl
      · rfl
    · exact (put_of_ne _ _ hne).trans (by rw [honly.outcomes])
  · obtain ⟨rfl, -⟩ := Prod.mk.inj (Option.some.inj h)
    exact ⟨rfl, rfl, rfl, rfl⟩
  · obtain ⟨rfl, -⟩ := Prod.mk.inj (Option.some.inj h)
    exact ⟨rfl, rfl, rfl, rfl⟩
  · obtain ⟨rfl, -⟩ := Prod.mk.inj (Option.some.inj h)
    exact ⟨rfl, rfl, rfl, rfl⟩
  · cases h

theorem callStep_booked (h : Booked id model w) {c : PreloadCall} (hc : c ∈ w.calls)
    {success : Bool} {pc : PreloadPc} (hstep : w.callStep c success = some (w', pc))
    (hknown : ∀ c' ∈ w'.calls, c'.id = id → c'.model = model → w'.knows id model = true) :
    Booked id model w' := by
  by_cases hother : (∀ value, c.pc ≠ .record value) ∨ ¬ (c.id = id ∧ c.model = model)
  · exact h.same (callStep_sameBooks hstep hother) hknown
  · obtain ⟨hrecord, hpair⟩ := not_or.mp hother
    obtain ⟨rfl, rfl⟩ := not_not.mp hpair
    have hknows := h.known c hc rfl rfl
    obtain ⟨value, hpc⟩ := Classical.not_forall.mp hrecord
    rw [callStep, not_not.mp hpc] at hstep
    cases value with
    | true =>
      obtain ⟨rfl, -⟩ := Prod.mk.inj (Option.some.inj hstep)
      exact booked_success h hknows
    | false =>
      obtain ⟨rfl, -⟩ := Prod.mk.inj (Option.some.inj hstep)
      exact booked_failure h hknows

theorem callStep_calls {c : PreloadCall} {success : Bool} {pc : PreloadPc}
    (h : w.callStep c success = some (w', pc)) : w'.calls = w.calls := by
  unfold callStep at h
  split at h
  case h_9 => cases h
  case h_4 =>
    obtain ⟨rfl, -⟩ := Prod.mk.inj (Option.some.inj h)
    exact (recordPreloadSuccess_only w c.id c.model).calls
  case h_5 =>
    obtain ⟨rfl, -⟩ := Prod.mk.inj (Option.some.inj h)
    exact (recordPreloadFailure_only w c.id c.model).calls
  all_goals
    obtain ⟨rfl, -⟩ := Prod.mk.inj (Option.some.inj h)
    rfl

theorem step_booked (h : Booked id model w) (hok : Known id model w a) (hs : w.step a = some w') :
    Booked id model w' := by
  have hknows : w.knows id model = true → w'.knows id model = true := step_knows hs
  cases a with
  | tick ms =>
    obtain rfl : _ = w' := Option.some.inj hs
    exact ⟨Nat.lt_of_lt_of_le h.clock (Nat.le_add_right ..), h.known, h.times, h.count, h.failedAt⟩
  | preload id' model' numParallel =>
    obtain rfl : _ = w' := Option.some.inj hs
    refine h.same ⟨rfl, rfl, rfl, rfl⟩ fun c hc hid hmodel => ?_
    rcases List.mem_append.mp hc with hc | hc
    · exact h.known c hc hid hmodel
    · rw [List.mem_singleton.mp hc] at hid hmodel
      exact hok hid hmodel
  | govern g =>
    obtain ⟨governed, hstep, rfl⟩ := Option.map_eq_some_iff.mp hs
    exact h.same ⟨rfl, rfl, rfl, rfl⟩ fun c hc hid hmodel => hknows (h.known c hc hid hmodel)
  | run k success =>
    obtain ⟨c, hc, hs⟩ := Option.bind_eq_some_iff.mp hs
    obtain ⟨⟨w₁, pc⟩, hstep, rfl⟩ := Option.map_eq_some_iff.mp hs
    have hmem := List.mem_of_getElem? hc
    have hknown : ∀ c' ∈ w.calls, c'.id = id → c'.model = model → w₁.knows id model = true :=
      fun c' hc' hid hmodel => hknows (h.known c' hc' hid hmodel)
    have hbooked := callStep_booked h hmem hstep (callStep_calls hstep ▸ hknown)
    refine hbooked.same ⟨rfl, rfl, rfl, rfl⟩ fun c' hc' hid hmodel => ?_
    rcases List.mem_or_eq_of_mem_set hc' with hc' | rfl
    · exact hknown c' hc' hid hmodel
    · exact hknown c hmem hid hmodel

theorem run_booked {now : Millis} (hnow : 0 < now) (h : Run step (Known id model) (init now) w) :
    Booked id model w :=
  h.invariant ⟨hnow, List.forall_mem_nil _, List.forall_mem_nil _, rfl, rfl⟩
    fun _ _ _ _ hb hok hs => step_booked hb hok hs

theorem Booked.isPreloadExcluded_iff (h : Booked id model w) :
    w.isPreloadExcluded id model = true ↔
      ∃ t, (w.streak id model)[(w.streak id model).length % 3]? = some t ∧ w.now - t < 300000 := by
  have hfailed := h.failedAt
  cases hthird : (w.streak id model)[(w.streak id model).length % 3]? with
  | none =>
    rw [hthird] at hfailed
    simp [isPreloadExcluded, hfailed]
  | some t =>
    rw [hthird] at hfailed
    have hpos : t ≠ 0 := Nat.ne_of_gt (h.times t (List.mem_of_getElem? hthird))
    simp [isPreloadExcluded, hfailed, hpos]

/-- The rules of a pair the pool has an entry for whenever `preload_model` is called. -/
theorem preload_exclusion {now : Millis} (hnow : 0 < now)
    (h : Run step (Known id model) (init now) w) :
    -- the last failure that was the third, sixth, .. in a row excludes the pair for 300 s
    (w.isPreloadExcluded id model = true ↔
      ∃ t, (w.streak id model)[(w.streak id model).length % 3]? = some t ∧ w.now - t < 300000) ∧
    ((∃ t, (w.outcomes id model).head? = some (t, true)) →
      w.preloadFailCount id model = 0 ∧ w.isPreloadExcluded id model = false) ∧
    (∀ k c success w₁ w₂ c', w.calls[k]? = some c → c.id = id → c.model = model →
      c.pc = .setFlag → w.step (.run k success) = some w₁ → Run step (Leaves id model k) w₁ w₂ →
      w₂.calls[k]? = some c' → c'.inFlight = true → w₂.isPreloading id model = true) ∧
    (∀ (s : Planner) (v : PlannerView), s.pool = w.governed.pool → s.nowMs = w.now →
      s.preloadFailedAt = w.preloadFailedAt →
      w.isPreloading id model = true ∨ w.isPreloadExcluded id model = true →
      (id, model) ∉ (s.placed v).preloads) ∧
    (∀ (r : RoutingPorts) (tier : Option String), r.isPreloadExcluded = w.isPreloadExcluded →
      model ≠ "" → w.isPreloadExcluded id model = true →
      ∀ b ∈ r.filterCandidates model .ollama tier, b.id ≠ id) := by
  have hbooked := run_booked hnow h
  refine ⟨hbooked.isPreloadExcluded_iff, ?_, ?_, ?_, ?_⟩
  · rintro ⟨t, ht⟩
    have hstreak : w.streak id model = [] := by
      cases houtcomes : w.outcomes id model with
      | nil => rw [houtcomes] at ht; cases ht
      | cons o rest =>
        rw [houtcomes] at ht
        obtain rfl : o = (t, true) := Option.some.inj ht
        simp [streak, houtcomes]
    have hfailed : w.preloadFailedAt id model = 0 := by rw [hbooked.failedAt, hstreak]; rfl
    refine ⟨by rw [hbooked.count, hstreak]; rfl, ?_⟩
    simp [isPreloadExcluded, hfailed]
  · intro k c success w₁ w₂ c' hc hid hmodel hpc hs hrun hc' hflight
    have hknows := hbooked.known c (List.mem_of_getElem? hc) hid hmodel
    have hraised := hrun.invariant (raised_of_setFlag hc hid hmodel hpc hknows hs)
      fun _ _ _ _ hr hok hstep => step_raised hr hok hstep
    obtain ⟨-, c'', hc'', -, -, -, hup⟩ := hraised
    obtain rfl : c'' = c' := Option.some.inj (hc''.symm.trans hc')
    exact hup hflight
  · intro s v hpool hnowMs hfailedAt hspared
    refine Planner.not_mem_preloads ?_
    have hexcluded : s.isPreloadExcluded id model = w.isPreloadExcluded id model := by
      rw [Planner.isPreloadExcluded, isPreloadExcluded, hnowMs, hfailedAt]
    have hpreloading : s.isPreloading id model = w.isPreloading id model := by
      rw [Planner.isPreloading, hpool]
      rfl
    rwa [hexcluded, hpreloading]
  · intro r tier hports hmodel hexcluded b hb hid
    unfold RoutingPorts.filterCandidates at hb
    split at hb
    · cases hb
    split at hb
    · next hnone => exact hnone.elim (fun hne => hne rfl) hmodel
    · have hkept := (List.mem_filter.mp hb).2
      rw [hports, hid, hexcluded] at hkept
      cases hkept

/-- Preloads of the pair from position `k` on fail one after the other. -/
def failing (k failures : ℕ) : List PreloadAction :=
  (List.range failures).flatMap fun l => .preload 1 "m" 2 :: .replicate 4 (.run (k + l) false)

/-- A pass stores a profile of the model, which makes the entry. -/
def profiled : PreloadAction := .govern (.reserve (.update (.setModelProfile 1 "m" ⟨4000, 128⟩)))

theorem third_failure_excludes :
    ∃ w, Run step (Known 1 "m") (init 7) w ∧ w.isPreloadExcluded 1 "m" = true := by
  have hexec : (exec step (fun w a => decide (Known 1 "m" w a)) (init 7)
      (profiled :: failing 0 3)).any
        (fun w => decide (w.streak 1 "m" = [7, 7, 7] ∧ w.now = 7)) = true := by decide
  obtain ⟨w, hrun, hw⟩ := Run.exists_of_exec (fun _ _ h => of_decide_eq_true h) hexec
  obtain ⟨hstreak, hnow⟩ := of_decide_eq_true hw
  refine ⟨w, hrun, (preload_exclusion (by decide) hrun).1.mpr ⟨7, ?_, ?_⟩⟩
  · rw [hstreak]; rfl
  · rw [hnow]; decide

/-- The provider, asked for by a pool in the state `w`. -/
def onlyProvider (w : Preloads) : RoutingPorts :=
  { RoutingPorts.singleProvider .empty with isPreloadExcluded := w.isPreloadExcluded }

/-- Of a model without an entry neither the flag nor the failures are kept. With an entry,
`filter_candidates` takes a pair that is being preloaded, an unload clears the flag of a preload in
flight, and so does the end of that preload once a second one has begun, and a fourth failure after
the exclusion does not exclude the pair again. -/
theorem preload_rules_broken :
    (∃ w, Run step (fun _ _ => True) (init 7) w ∧ w.streak 1 "m" = [7, 7, 7] ∧
      w.isPreloadExcluded 1 "m" = false) ∧
    (∃ w, Run step (fun _ _ => True) (init 7) w ∧
      w.calls.map PreloadCall.inFlight = [true] ∧ w.isPreloading 1 "m" = false) ∧
    (∃ w, Run step (fun _ _ => True) (init 7) w ∧ w.isPreloading 1 "m" = true ∧
      ((onlyProvider w).filterCandidates "m" .ollama none).map LlmProvider.id = [1]) ∧
    (∃ w, Run step (fun _ _ => True) (init 7) w ∧ w.knows 1 "m" = true ∧
      w.calls.map PreloadCall.inFlight = [true] ∧ w.isPreloading 1 "m" = false) ∧
    (∃ w, Run step (fun _ _ => True) (init 7) w ∧ w.knows 1 "m" = true ∧
      w.calls.map PreloadCall.inFlight = [false, true] ∧ w.isPreloading 1 "m" = false) ∧
    ∃ w, Run step (fun _ _ => True) (init 7) w ∧ w.knows 1 "m" = true ∧
      w.streak 1 "m" = [300007, 7, 7, 7] ∧ w.isPreloadExcluded 1 "m" = false := by
  refine ⟨?_, ?_, ?_, ?_, ?_, ?_⟩
  · have hexec : (exec step (fun _ _ => true) (init 7) (failing 0 3)).any (fun w => decide
        (w.streak 1 "m" = [7, 7, 7] ∧ w.isPreloadExcluded 1 "m" = false)) = true := by decide
    obtain ⟨w, hrun, hw⟩ := Run.exists_of_exec (fun _ _ _ => trivial) hexec
    exact ⟨w, hrun, of_decide_eq_true hw⟩
  · have hexec : (exec step (fun _ _ => true) (init 7) [.preload 1 "m" 2, .run 0 true]).any
        (fun w => decide (w.calls.map PreloadCall.inFlight = [true] ∧
          w.isPreloading 1 "m" = false)) = true := by decide
    obtain ⟨w, hrun, hw⟩ := Run.exists_of_exec (fun _ _ _ => trivial) hexec
    exact ⟨w, hrun, of_decide_eq_true hw⟩
  · have hexec : (exec step (fun _ _ => true) (init 7)
        [profiled, .preload 1 "m" 2, .run 0 true]).any (fun w => decide
          (w.isPreloading 1 "m" = true ∧
            ((onlyProvider w).filterCandidates "m" .ollama none).map LlmProvider.id = [1]))
              = true := by decide
    obtain ⟨w, hrun, hw⟩ := Run.exists_of_exec (fun _ _ _ => trivial) hexec
    exact ⟨w, hrun, of_decide_eq_true hw⟩
  · have hexec : (exec step (fun _ _ => true) (init 7) [profiled, .preload 1 "m" 2, .run 0 true,
        .govern (.reserve (.update (.markModelUnloaded 1 "m" 7)))]).any (fun w => decide
          (w.knows 1 "m" = true ∧ w.calls.map PreloadCall.inFlight = [true] ∧
            w.isPreloading 1 "m" = false)) = true := by decide
    obtain ⟨w, hrun, hw⟩ := Run.exists_of_exec (fun _ _ _ => trivial) hexec
    exact ⟨w, hrun, of_decide_eq_true hw⟩
  · have hexec : (exec step (fun _ _ => true) (init 7) [profiled, .preload 1 "m" 2, .run 0 true,
        .govern (.reserve (.update (.markModelUnloaded 1 "m" 7))), .preload 1 "m" 2, .run 1 true,
        .run 0 true, .run 0 true]).any (fun w => decide
          (w.knows 1 "m" = true ∧ w.calls.map PreloadCall.inFlight = [false, true] ∧
            w.isPreloading 1 "m" = false)) = true := by decide
    obtain ⟨w, hrun, hw⟩ := Run.exists_of_exec (fun _ _ _ => trivial) hexec
    exact ⟨w, hrun, of_decide_eq_true hw⟩
  · have hexec : (exec step (fun _ _ => true) (init 7)
        (.flatten [[profiled], failing 0 3, [.tick 300000], failing 3 1])).any (fun w => decide
          (w.knows 1 "m" = true ∧ w.streak 1 "m" = [300007, 7, 7, 7] ∧
            w.isPreloadExcluded 1 "m" = false)) = true := by decide
    obtain ⟨w, hrun, hw⟩ := Run.exists_of_exec (fun _ _ _ => trivial) hexec
    exact ⟨w, hrun, of_decide_eq_true hw⟩

end Preloads
end Veronex
