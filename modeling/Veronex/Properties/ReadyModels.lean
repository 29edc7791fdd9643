import Veronex.Ollama.Lifecycle

/-! # Models that are ready

A reservation sets `is_loaded` before anything is loaded, and `ensure_ready` reads the flag as that
the model is resident. `ready_only_confirmed`: what that flag means as long as only models are
reserved that have been confirmed to be resident.
-/
namespace Veronex
set_option autoImplicit false
open Concurrency ProviderVramState VramPool

/-! ## The flags -/

/-- The models whose flag is set have been confirmed. -/
def VramPool.FlagsConfirmed (pool : VramPool) (confirmed : ProviderId → String → Bool) : Prop :=
  ∀ id model, (pool.provider id).hasLoaded model = true → confirmed id model = true

namespace VramPool.FlagsConfirmed
variable {pool pool' : VramPool} {confirmed : ProviderId → String → Bool}

theorem of_flags (h : pool.FlagsConfirmed confirmed)
    (hflags : ∀ id model,
      (pool'.provider id).hasLoaded model = (pool.provider id).hasLoaded model) :
    pool'.FlagsConfirmed confirmed := by
  intro id model hloaded
  exact h id model (hflags id model ▸ hloaded)

theorem of_sameLoads (h : pool.FlagsConfirmed confirmed)
    (hsame : ∀ id, SameLoads (pool.provider id) (pool'.provider id)) :
    pool'.FlagsConfirmed confirmed :=
  h.of_flags fun id model => (hsame id).flags model

theorem setProvider (h : pool.FlagsConfirmed confirmed) {id : ProviderId}
    {state : ProviderVramState}
    (hstate : ∀ model, state.hasLoaded model = true → confirmed id model = true) :
    (pool.setProvider id state).FlagsConfirmed confirmed := by
  intro j model hloaded
  rw [provider_setProvider] at hloaded
  split at hloaded
  · next hj =>
    subst hj
    exact hstate model hloaded
  · exact h j model hloaded

theorem tryReserve (h : pool.FlagsConfirmed confirmed) {id : ProviderId} {model : String}
    (hreserves : (pool.provider id).GrantsProbed model pool.probePermits pool.probeRate →
      confirmed id model = true) :
    (pool.tryReserve id model).1.FlagsConfirmed confirmed := by
  show (pool.setProvider id ((pool.provider id).tryReserve model pool.probePermits
    pool.probeRate).1).FlagsConfirmed confirmed
  refine h.setProvider fun m hloaded => ?_
  by_cases hgrants : (pool.provider id).GrantsProbed model pool.probePermits pool.probeRate
  · rw [(tryReserve_loadedBy hgrants).flags] at hloaded
    split at hloaded
    · next hm =>
      subst hm
      exact hreserves hgrants
    · exact h id m hloaded
  · rw [(tryReserve_sameLoads hgrants).flags] at hloaded
    exact h id m hloaded

theorem setProfile_hasLoaded (state : ProviderVramState) (model : String)
    (profile : ModelVramProfile) (j : String) :
    (state.setProfile model profile).hasLoaded j = state.hasLoaded j := by
  unfold setProfile
  split
  · next ms hlookup =>
    rw [setModel_hasLoaded]
    split
    · next hj =>
      subst hj
      simp [hasLoaded, hlookup]
    · rfl
  · next hlookup =>
    rw [setModel_hasLoaded]
    split
    · next hj =>
      subst hj
      simp [hasLoaded, hlookup, ModelState.new]
    · rfl

theorem load_hasLoaded (state : ProviderVramState) (model : String) (weightMb : ℕ) (now : Millis)
    (j : String) : (state.load model weightMb now).hasLoaded j =
      if j = model then true else state.hasLoaded j := by
  have hflag : (state.loadedModel model weightMb now).isLoaded = true := by
    unfold loadedModel
    split <;> rfl
  have hset := setModel_hasLoaded
    { state with cachedLoadedWeightMb := state.adjustedCache model weightMb } model
    (state.loadedModel model weightMb now) j
  rw [hflag] at hset
  exact hset

theorem unload_hasLoaded (state : ProviderVramState) (model : String) (now : Millis) (j : String)
    (h : (state.unload model now).1.hasLoaded j = true) :
    j ≠ model ∧ state.hasLoaded j = true := by
  unfold unload at h
  cases hlookup : state.models.lookup model with
  | none =>
    rw [hlookup] at h
    refine ⟨?_, h⟩
    rintro rfl
    simp [hasLoaded, hlookup] at h
  | some ms =>
    rw [hlookup] at h
    have hset := setModel_hasLoaded state model (unloadedModel ms now) j
    have hflag : (state.setModel model (unloadedModel ms now)).hasLoaded j = true := h
    rw [hset] at hflag
    split at hflag
    · cases hflag
    · next hj => exact ⟨hj, hflag⟩

/-- A call of the pool sets the flag of a model only where it confirms it, or reserves it. -/
theorem call (h : pool.FlagsConfirmed confirmed) (c : PoolCall)
    (hreserves : ∀ id model, c = .tryReserve id model →
      (pool.provider id).GrantsProbed model pool.probePermits pool.probeRate →
        confirmed id model = true) :
    (pool.call c).FlagsConfirmed (c.confirms confirmed) := by
  cases c with
  | tryReserve id model => exact h.tryReserve (hreserves id model rfl)
  | dropPermit permit now => exact h.of_sameLoads (sameLoads_drop permit now)
  | setTotalVram id totalMb => exact h.setProvider fun m hloaded => h id m hloaded
  | setModelProfile id model profile =>
    refine h.setProvider fun m hloaded => ?_
    rw [setProfile_hasLoaded] at hloaded
    exact h id m hloaded
  | markModelLoaded id model weightMb now =>
    have hmore : pool.FlagsConfirmed
        ((PoolCall.markModelLoaded id model weightMb now).confirms confirmed) := by
      intro j m hloaded
      simp [PoolCall.confirms, h j m hloaded]
    refine hmore.setProvider fun m hloaded => ?_
    rw [load_hasLoaded] at hloaded
    split at hloaded
    · next hm => simp [PoolCall.confirms, hm]
    · exact hmore id m hloaded
  | markModelUnloaded id model now =>
    intro j m hloaded
    change ((pool.markModelUnloaded id model now).provider j).hasLoaded m = true at hloaded
    rw [provider_markModelUnloaded, provider_setProvider] at hloaded
    split at hloaded
    · next hj =>
      obtain ⟨hm, hold⟩ := unload_hasLoaded _ _ _ _ hloaded
      subst hj
      simp [PoolCall.confirms, hm, h j m hold]
    · next hj => simp [PoolCall.confirms, hj, h j m hloaded]

end VramPool.FlagsConfirmed

/-! ## The calls -/

namespace LoadWorld
variable {w w' : LoadWorld} {k : ℕ} {c : ReadyCall} {answer : LoadAnswer}

/-- Only models that have been confirmed are reserved on a provider that has been probed. -/
def ReservesConfirmed (w : LoadWorld) : LoadAction → Prop
  | .dispatch id model | .pool (.tryReserve id model) =>
    (w.pool.provider id).GrantsProbed model w.pool.probePermits w.pool.probeRate →
      w.confirmed id model = true
  | _ => True

instance (w : LoadWorld) (a : LoadAction) : Decidable (w.ReservesConfirmed a) := by
  unfold ReservesConfirmed
  split <;> exact inferInstance

/-- A call returns `AlreadyLoaded` only for a model that has been confirmed and not evicted since,
and the call of a job whose model has not been confirmed has probed. -/
structure ReadyConfirmed (w : LoadWorld) : Prop where
  already : ∀ c ∈ w.calls, ∀ via, c.pc = .returned (.ok .alreadyLoaded) via → via = .pool true
  drives : ∀ c ∈ w.calls, ∀ k, c.adapter.id = .job k → ∀ outcome via,
    c.pc = .returned (.ok outcome) via → via = .pool true ∨ via = .probe

end LoadWorld

/-- What a call returned is what came of it; the call of a job never waits. -/
def ReadyCall.Honest (c : ReadyCall) : Prop :=
  match c.pc with
  | .returned _ (.pool resident) => resident = true
  | .returned result .probe => result ≠ .ok .alreadyLoaded
  | .returned result (.wait _) => result ≠ .ok .alreadyLoaded ∧ ∀ k, c.adapter.id ≠ .job k
  | .waiting .. | .woken .. => ∀ k, c.adapter.id ≠ .job k
  | .check | .resolve | .probe _ => True

namespace LoadWorld
variable {w w' : LoadWorld} {k : ℕ} {c : ReadyCall} {answer : LoadAnswer}

structure Ready (w : LoadWorld) : Prop where
  flags : w.pool.FlagsConfirmed w.confirmed
  built : ∀ a ∈ w.built, ∀ k, a.id ≠ .job k
  own : ∀ (k : ℕ) (c : ReadyCall), w.calls[k]? = some c → ∀ j, c.adapter.id = .job j → j = k
  honest : ∀ c ∈ w.calls, c.Honest

theorem Ready.confirmed (h : w.Ready) : w.ReadyConfirmed where
  already c hc via hpc := by
    have hhonest := h.honest c hc
    rw [ReadyCall.Honest, hpc] at hhonest
    cases via with
    | pool resident => rw [show resident = true from hhonest]
    | probe => exact absurd rfl hhonest
    | wait slot => exact absurd rfl hhonest.1
  drives c hc k hjob outcome via hpc := by
    have hhonest := h.honest c hc
    rw [ReadyCall.Honest, hpc] at hhonest
    cases via with
    | pool resident => exact .inl (by rw [show resident = true from hhonest])
    | probe => exact .inr rfl
    | wait slot => exact absurd hjob (hhonest.2 k)

theorem findsLoaded_hasLoaded (h : w.findsLoaded c = true) :
    (w.pool.provider c.adapter.providerId).hasLoaded c.model = true := by
  obtain ⟨-, hany⟩ := (Bool.and_eq_true _ _).mp h
  obtain ⟨name, hname, heq⟩ := List.any_eq_true.mp hany
  obtain rfl := eq_of_beq heq
  obtain ⟨ms, hlookup, hloaded⟩ := mem_loadedModelNames.mp hname
  simp [hasLoaded, hlookup, hloaded]

theorem honest_wake (h : c.Honest) : (c.wake k).Honest := by
  rcases ReadyCall.wake_cases k c with ⟨heq, -⟩ | ⟨since, hpc, hpc'⟩
  · rwa [heq]
  · rw [ReadyCall.Honest, hpc] at h
    rw [ReadyCall.Honest, hpc', ReadyCall.wake_adapter]
    exact h

/-- One call goes on, and the others are at most woken. -/
theorem Ready.goes (h : w.Ready) (hk : w.calls[k]? = some c) {pc : CallPc}
    (hcalls : w'.calls = w.calls.set k { c with pc } ∨
      w'.calls = (w.calls.set k { c with pc }).map (ReadyCall.wake k))
    (hhonest : ReadyCall.Honest { c with pc }) (hflags : w'.pool.FlagsConfirmed w'.confirmed)
    (hbuilt : w'.built = w.built) : w'.Ready := by
  have hown : ∀ (i : ℕ) (d : ReadyCall), (w.calls.set k { c with pc })[i]? = some d →
      ∀ j, d.adapter.id = .job j → j = i := by
    intro i d hd j hj
    by_cases hi : i = k
    · subst hi
      obtain ⟨hlt, -⟩ := List.getElem?_eq_some_iff.mp hk
      rw [List.getElem?_set_self hlt] at hd
      obtain rfl := Option.some.inj hd
      exact h.own i c hk j hj
    · rw [List.getElem?_set_ne (Ne.symm hi)] at hd
      exact h.own i d hd j hj
  have hall : ∀ d ∈ w.calls.set k { c with pc }, d.Honest := by
    intro d hd
    rcases List.mem_or_eq_of_mem_set hd with hold | rfl
    · exact h.honest d hold
    · exact hhonest
  refine ⟨hflags, hbuilt ▸ h.built, fun i d hd j hj => ?_, fun d hd => ?_⟩
  · rcases hcalls with heq | heq
    · exact hown i d (heq ▸ hd) j hj
    · rw [heq, List.getElem?_map] at hd
      obtain ⟨e, he, rfl⟩ := Option.map_eq_some_iff.mp hd
      exact hown i e he j (by simpa using hj)
  · rcases hcalls with heq | heq
    · exact hall d (heq ▸ hd)
    · rw [heq] at hd
      obtain ⟨e, he, rfl⟩ := List.mem_map.mp hd
      exact honest_wake (hall e he)

theorem Ready.callStep (h : w.Ready) (hslotted : w.Slotted) (hk : w.calls[k]? = some c)
    (hstep : w.callStep k c answer = some w') : w'.Ready := by
  have hhonest := h.honest c (List.mem_of_getElem? hk)
  unfold LoadWorld.callStep at hstep
  split at hstep
  case h_1 hpc =>
    split at hstep
    · next hfound =>
      cases hstep
      exact h.goes hk (.inl rfl) (h.flags _ _ (findsLoaded_hasLoaded hfound)) h.flags rfl
    · split at hstep
      · next slot hslot =>
        cases hstep
        refine h.goes hk (.inl rfl) (fun j hjob => ?_) h.flags rfl
        -- the slot would be of this call, which has not made one
        obtain ⟨d, hd, ha, -, hprobes⟩ := hslotted.found _ _ _ hslot
        have hslotOf := h.own slot d hd j (ha.trans hjob)
        have hcallOf := h.own k c hk j hjob
        rw [← hslotOf, hcallOf, hk] at hd
        obtain rfl := Option.some.inj hd
        simp [ReadyCall.probes, hpc] at hprobes
      · cases hstep
        exact h.goes hk (.inl rfl) trivial h.flags rfl
  case h_2 hpc =>
    cases hstep
    exact h.goes hk (.inl rfl) trivial h.flags rfl
  case h_3 hpc =>
    split at hstep
    · next duration _ =>
      have hflags := h.flags.call (.markModelLoaded c.adapter.providerId c.model 0 w.now)
        (by rintro _ _ ⟨⟩)
      let call := PoolCall.markModelLoaded c.adapter.providerId c.model 0 w.now
      have hmore : w.pool.FlagsConfirmed (call.confirms w.confirmed) := by
        intro id model hloaded
        simp [call, PoolCall.confirms, h.flags id model hloaded]
      have hloaded : ReadyCall.Honest
          { c with pc := .returned (.ok (.loadCompleted duration)) .probe } := by rintro ⟨⟩
      dsimp only at hstep
      split at hstep
      · cases hstep
        exact h.goes hk (.inr rfl) hloaded hflags rfl
      · cases hstep
        exact h.goes hk (.inr rfl) hloaded hmore rfl
    · next e _ =>
      cases hstep
      have hfailed : ReadyCall.Honest { c with pc := .returned (.error e) .probe } := by rintro ⟨⟩
      exact h.goes hk (.inr rfl) hfailed h.flags rfl
  case h_4 slot since hpc =>
    rw [ReadyCall.Honest, hpc] at hhonest
    cases hstep
    refine h.goes hk (.inl rfl) ⟨?_, hhonest⟩ h.flags rfl
    cases (w.result slot).getD (.error (.stalled (w.noProgressMs slot))) with
    | error e => rintro ⟨⟩
    | ok outcome => rintro ⟨⟩
  case h_5 => cases hstep
  case h_6 => cases hstep

theorem Ready.spawn (h : w.Ready) (hc : c.pc = .check)
    (hjob : ∀ j, c.adapter.id = .job j → j = w.calls.length)
    (hflags : w'.pool.FlagsConfirmed w'.confirmed) (hbuilt : w'.built = w.built)
    (hcalls : w'.calls = w.calls ++ [c]) : w'.Ready := by
  refine ⟨hflags, hbuilt ▸ h.built, fun i d hd j hj => ?_, fun d hd => ?_⟩
  · rw [hcalls] at hd
    by_cases hi : i < w.calls.length
    · rw [List.getElem?_append_left hi] at hd
      exact h.own i d hd j hj
    · rw [List.getElem?_append_right (Nat.not_lt.mp hi)] at hd
      obtain ⟨hlt, heq⟩ := List.getElem?_eq_some_iff.mp hd
      have hzero : i - w.calls.length = 0 := by simpa using hlt
      have hd' : d = c := by
        rw [hzero] at hd
        exact (Option.some.inj hd).symm
      rw [hd'] at hj
      rw [hjob j hj]
      omega
  · rw [hcalls] at hd
    rcases List.mem_append.mp hd with hold | hnew
    · exact h.honest d hold
    · obtain rfl := List.mem_singleton.mp hnew
      rw [ReadyCall.Honest, hc]
      trivial

theorem Ready.step {a : LoadAction} (h : w.Ready) (hslotted : w.Slotted)
    (hreserves : w.ReservesConfirmed a) (hstep : w.step a = some w') : w'.Ready := by
  cases a with
  | dispatch id model =>
    have hflags := h.flags.tryReserve hreserves
    simp only [LoadWorld.step] at hstep
    split at hstep
    · cases hstep
      exact h.spawn rfl (fun j hj => (AdapterId.job.inj hj).symm) hflags rfl rfl
    · cases hstep
  | build id vramPool =>
    cases hstep
    refine ⟨h.flags, fun a ha k => ?_, h.own, h.honest⟩
    rcases List.mem_append.mp ha with hold | hnew
    · exact h.built a hold k
    · obtain rfl := List.mem_singleton.mp hnew
      rintro ⟨⟩
  | call i model =>
    obtain ⟨adapter, hi, hrest⟩ := Option.bind_eq_some_iff.mp hstep
    cases hrest
    refine h.spawn rfl (fun j hj => ?_) h.flags rfl rfl
    exact absurd hj (h.built adapter (List.mem_of_getElem? hi) j)
  | step k answer =>
    obtain ⟨c, hk, hrest⟩ := Option.bind_eq_some_iff.mp hstep
    exact h.callStep hslotted hk hrest
  | seen slot =>
    cases hstep
    exact ⟨h.flags, h.built, h.own, h.honest⟩
  | pool c =>
    cases hstep
    refine ⟨h.flags.call c fun id model heq => ?_, h.built, h.own, h.honest⟩
    subst heq
    exact hreserves
  | tick ms =>
    cases hstep
    exact ⟨h.flags, h.built, h.own, h.honest⟩

theorem Ready.init : LoadWorld.init.Ready where
  flags _ _ hloaded := by cases hloaded
  built _ ha := by cases ha
  own _ _ hd := by cases hd
  honest _ hc := by cases hc

/-- In a run in which a probed provider grants only reservations of models that have been confirmed
there, `ensure_ready` returns `AlreadyLoaded` only for confirmed models, and every other job has
probed before its stream. -/
theorem ready_only_confirmed (h : Run LoadWorld.step ReservesConfirmed LoadWorld.init w) :
    w.ReadyConfirmed := by
  have hready : w.Ready :=
    h.invariant .init fun _ _ _ hrun hr hreserves hstep =>
      hr.step (reached_slotted hrun) hreserves hstep
  exact hready.confirmed

/-- A job of a provider that has not been probed drives a load; once it has been probed, another job
finds the model loaded. -/
theorem second_job_already_loaded : ∃ w : LoadWorld, w.ReadyConfirmed ∧
    ∃ c ∈ w.calls, ∃ via, c.pc = .returned (.ok .alreadyLoaded) via := by
  let answer : LoadAnswer := { numCtx := 32768, probed := .ok 9000 }
  have hexec : (exec LoadWorld.step (fun w a => decide (w.ReservesConfirmed a)) LoadWorld.init
      [.dispatch 0 "m", .step 0 answer, .step 0 answer, .step 0 answer,
        .pool (.setTotalVram 0 10000), .dispatch 0 "m", .step 1 answer]).any
      (fun w => w.calls.any fun c => match c.pc with
        | .returned (.ok .alreadyLoaded) _ => true
        | _ => false) = true := by
    decide +kernel
  obtain ⟨w, hrun, hw⟩ := Run.exists_of_exec (fun _ _ h => of_decide_eq_true h) hexec
  obtain ⟨c, hc, hpc⟩ := List.any_eq_true.mp hw
  refine ⟨w, ready_only_confirmed hrun, c, hc, ?_⟩
  split at hpc
  · next via heq => exact ⟨via, heq⟩
  · cases hpc

/-- The first job of a model on a probed provider: the reservation has set the flag, so nothing is
loaded before the stream. -/
theorem first_job_already_loaded : ∃ w : LoadWorld,
    Run LoadWorld.step (fun _ _ => True) LoadWorld.init w ∧ w.confirmed 0 "m" = false ∧
      ∃ c ∈ w.calls, c.pc = .returned (.ok .alreadyLoaded) (.pool false) := by
  let answer : LoadAnswer := { numCtx := 32768, probed := .ok 9000 }
  have hexec : (exec LoadWorld.step (fun _ _ => true) LoadWorld.init
      [.pool (.setTotalVram 0 10000), .dispatch 0 "m", .step 0 answer]).any
      (fun w => !w.confirmed 0 "m" && w.calls.any fun c => match c.pc with
        | .returned (.ok .alreadyLoaded) (.pool false) => true
        | _ => false) = true := by
    decide +kernel
  obtain ⟨w, hrun, hw⟩ :=
    @Run.exists_of_exec _ _ _ _ (fun _ _ => True) (fun _ _ _ => trivial) _ _ _ hexec
  obtain ⟨hconfirmed, hany⟩ := (Bool.and_eq_true _ _).mp hw
  obtain ⟨c, hc, hpc⟩ := List.any_eq_true.mp hany
  refine ⟨w, hrun, by simpa using hconfirmed, c, hc, ?_⟩
  split at hpc
  · next heq => exact heq
  · cases hpc

end LoadWorld

end Veronex
