import Mathlib.Algebra.GroupWithZero.Nat
import Veronex.Dispatch.PlannerPreloads

/-! # The room a tick's preloads find

`planner_tick` keeps in `provisional_free` what each scale-out candidate has free, and takes from it
the weight of every model it starts a preload of. It starts one where something is left, however
little.

`preloads_room`: what is taken before the last preload of a candidate.
-/
namespace Veronex
set_option autoImplicit false
open Concurrency

namespace Planner

/-- The known weight of a model, or 2 GB. -/
def weightEstimate (s : Planner) (id : ProviderId) (model : String) : ℕ :=
  let weight := s.modelWeightMb id model
  if 0 < weight then weight else 2048

end Planner

namespace PlannerTick

/-- The models a tick preloads on a provider, the first to be started first. -/
def preloadsOn (t : PlannerTick) (id : ProviderId) : List String :=
  (t.preloads.filter fun preload => preload.1 = id).map Prod.snd

end PlannerTick

namespace Planner

/-- What the models weigh together. -/
def totalWeight (s : Planner) (id : ProviderId) (models : List String) : ℕ :=
  (models.map (s.weightEstimate id)).sum

variable {s : Planner} {v : PlannerView}

theorem totalWeight_concat (s : Planner) (id : ProviderId) (models : List String) (model : String) :
    s.totalWeight id (models ++ [model]) = s.totalWeight id models + s.weightEstimate id model := by
  rw [totalWeight, List.map_append, List.sum_append, List.map_singleton, List.sum_singleton,
    totalWeight]

/-! ## Pass 0 -/

/-- What a provider has free is the same. -/
def SameRoom (s s' : Planner) : Prop :=
  s'.pool = s.pool ∧ s'.apuMaxConcurrentCache = s.apuMaxConcurrentCache

theorem SameRoom.availableVramMb {s' : Planner} (h : s.SameRoom s') (id : ProviderId) :
    s'.availableVramMb id = s.availableVramMb id := by
  rw [Scoring.availableVramMb, Scoring.availableVramMb, h.1, h.2]

theorem SameRoom.trans {s' s'' : Planner} (h : s.SameRoom s') (h' : s'.SameRoom s'') :
    s.SameRoom s'' := ⟨h'.1.trans h.1, h'.2.trans h.2⟩

theorem mem_scaleOutCandidates_room (l : List LlmProvider) (s : Planner) :
    ∀ p ∈ (scaleOutCandidates l s).2, 0 < s.availableVramMb p.id := by
  induction l generalizing s with
  | nil => exact fun _ hp => absurd hp List.not_mem_nil
  | cons p l ih =>
    unfold scaleOutCandidates
    split
    · exact ih s
    · generalize s.cb.isAllowed p.id s.now = answer
      obtain ⟨cb, allowed⟩ := answer
      have hrest := ih { s with cb }
      intro p' hp'
      dsimp only at hp'
      split at hp'
      next hfree =>
        rcases List.mem_cons.mp hp' with rfl | hp'
        · exact hfree.2
        · exact hrest p' hp'
      next => exact hrest p' hp'

theorem snapshot_room (s : Planner) (v : PlannerView) :
    s.SameRoom (s.snapshot v).1 ∧
      ∀ p ∈ (s.snapshot v).2.scaleOutCandidates, 0 < s.availableVramMb p.id := by
  obtain ⟨cb, heq⟩ := snapshot_eq s v
  refine ⟨?_, mem_scaleOutCandidates_room v.ollamaProviders s⟩
  rw [heq]
  exact ⟨rfl, rfl⟩

end Planner

/-! ## The steps -/

namespace PlannerTick
open Planner (totalWeight)
variable {s : Planner} {v : PlannerView} {x : PlannerSnapshot} {t t' : PlannerTick}
  {id : ProviderId}

/-- The tick of `s` has taken the weights of its preloads on a candidate from what was free, and has
found something left before each of them. -/
structure Tracked (s : Planner) (id : ProviderId) (t : PlannerTick) : Prop where
  pool : t.state.pool = s.pool
  free : t.provisionalFree id =
    some (s.availableVramMb id - s.totalWeight id (t.preloadsOn id))
  room : s.totalWeight id (t.preloadsOn id).dropLast < s.availableVramMb id

/-- A step that starts no preload. -/
theorem Tracked.frame (h : Tracked s id t) (hpool : t'.state.pool = t.state.pool)
    (hfree : t'.provisionalFree = t.provisionalFree) (hpreloads : t'.preloads = t.preloads) :
    Tracked s id t' where
  pool := hpool.trans h.pool
  free := by rw [preloadsOn, hpreloads, hfree, h.free, preloadsOn]
  room := by rw [preloadsOn, hpreloads]; exact h.room

theorem watchdog_tracked (h : Tracked s id t) (p : LlmProvider) :
    Tracked s id (t.watchdog p) := by
  obtain ⟨thermal, drained, heq⟩ := t.watchdog_eq p
  rw [heq]
  exact h.frame rfl rfl rfl

theorem recover_tracked (h : Tracked s id t) (p : LlmProvider) :
    Tracked s id (t.recover v x p) := by
  rcases recover_cases (v := v) (x := x) t p with heq | heq
  · rwa [heq]
  · rw [heq]
    exact h.frame rfl rfl rfl

theorem SameButLocks.tracked (hlocks : SameButLocks t t') (h : Tracked s id t) :
    Tracked s id t' := by
  obtain ⟨locked, rfl⟩ := hlocks
  exact h.frame rfl rfl rfl

theorem preloadsOn_spawnPreload (t : PlannerTick) (id id' : ProviderId) (model : String) :
    (t.spawnPreload id' model).preloadsOn id =
      t.preloadsOn id ++ if id' = id then [model] else [] := by
  rw [preloadsOn, spawnPreload, List.filter_append, List.map_append, preloadsOn]
  by_cases hid : id' = id
  · simp [hid]
  · simp [hid]

/-- A preload is started where something is left. -/
theorem spawn_tracked (h : Tracked s id t) {id' : ProviderId} (model : String)
    (hroom : id' = id → 0 < t.free id) :
    Tracked s id ((t.reserveFree id' model).spawnPreload id' model) := by
  by_cases hid : id' = id
  · subst hid
    have hestimate : (if 0 < t.state.modelWeightMb id' model then t.state.modelWeightMb id' model
        else 2048) = s.weightEstimate id' model := by
      rw [Planner.weightEstimate, Planner.modelWeightMb, Planner.modelWeightMb, h.pool]
    have hreserved : t.reserveFree id' model = { t with
        provisionalFree := Function.update t.provisionalFree id' (some
          (s.availableVramMb id' - s.totalWeight id' (t.preloadsOn id') -
            s.weightEstimate id' model)) } := by
      unfold reserveFree
      rw [h.free, ← hestimate]
    have hfree := hroom rfl
    rw [free, h.free, Option.getD_some] at hfree
    rw [hreserved]
    refine ⟨h.pool, ?_, ?_⟩
    · rw [preloadsOn_spawnPreload, if_pos rfl, Planner.totalWeight_concat, ← Nat.sub_sub]
      exact Function.update_self ..
    · rw [preloadsOn_spawnPreload, if_pos rfl, List.dropLast_concat]
      exact Nat.lt_of_sub_pos hfree
  · have hpreloads : ((t.reserveFree id' model).spawnPreload id' model).preloadsOn id =
        t.preloadsOn id := by
      rw [preloadsOn_spawnPreload, if_neg hid, List.append_nil]
      unfold reserveFree
      split
      · rfl
      · rfl
    refine ⟨?_, ?_, ?_⟩
    · unfold reserveFree
      split
      · exact h.pool
      · exact h.pool
    · rw [hpreloads, ← h.free]
      unfold reserveFree
      split
      · exact Function.update_of_ne (Ne.symm hid) ..
      · rfl
    · rw [hpreloads]
      exact h.room

/-- The best server has something free. -/
theorem bestServer_free {model : String} {server : LlmProvider}
    (h : t.bestServer v x model = some server) : 0 < t.free server.id := by
  unfold bestServer at h
  have hmem := mem_of_foldl_choice (fun best p => ?_) _ none h
  · have hserver := (List.mem_filter.mp (hmem.resolve_left (by simp))).2
    simp only [decide_eq_true_eq, Bool.not_eq_true'] at hserver
    exact hserver.2.2.2.2.2.2
  · cases best with
    | none => exact .inr rfl
    | some b =>
      dsimp only
      split
      · exact .inr rfl
      · exact .inl rfl

theorem scaleOut_tracked (h : Tracked s id t) (model : String) :
    Tracked s id (t.scaleOut v x model) := by
  rcases scaleOut_cases (v := v) (x := x) t model with hlocks |
    ⟨t', server, until', hlocks, hbest, heq⟩
  · exact hlocks.tracked h
  · have hroom := bestServer_free hbest
    have hspawned : Tracked s id ((t'.reserveFree server.id model).spawnPreload server.id model) := by
      refine spawn_tracked (hlocks.tracked h) model fun hid => ?_
      obtain ⟨locked, rfl⟩ := hlocks
      exact hid ▸ hroom
    rw [heq]
    exact hspawned.frame rfl rfl rfl

theorem preloadOn_tracked (model : String) (l : List LlmProvider) (h : Tracked s id t) :
    Tracked s id (preloadOn v model l t) := by
  rcases preloadOn_cases (v := v) model l t with hlocks | ⟨t', p, hlocks, hskips, heq⟩
  · exact hlocks.tracked h
  · have hlocked := hlocks.tracked h
    rw [heq]
    refine spawn_tracked hlocked model fun hid => ?_
    rw [free, hlocked.free, Option.getD_some]
    refine Nat.pos_of_ne_zero fun hnone => Bool.false_ne_true (hskips.symm.trans ?_)
    simp [skipsPreload, hid, hlocked.free, hnone]

theorem preload_tracked (h : Tracked s id t) (model : String) :
    Tracked s id (t.preload v x model) := by
  unfold preload
  split
  · exact h
  · exact preloadOn_tracked model _ h

end PlannerTick

namespace Planner
variable {s : Planner} {v : PlannerView}

theorem placed_tracked {id : ProviderId}
    (hcandidate : id ∈ (s.start v).2.scaleOutCandidates.map LlmProvider.id) :
    PlannerTick.Tracked s id (s.placed v) := by
  have hdropped : s.SameRoom s.dropHolddowns := ⟨rfl, rfl⟩
  obtain ⟨hsame, hpositive⟩ := snapshot_room s.dropHolddowns v
  have hroom : 0 < s.availableVramMb id := by
    obtain ⟨p, hp, rfl⟩ := List.mem_map.mp hcandidate
    exact (hpositive p hp).trans_eq (hdropped.availableVramMb p.id)
  have hstart : PlannerTick.Tracked s id (s.start v).1 := by
    refine foldl_invariant (I := PlannerTick.Tracked s id) ?_
      (fun _ p ht => PlannerTick.watchdog_tracked ht p) v.ollamaProviders
    have hcontains : ((s.dropHolddowns.snapshot v).2.scaleOutCandidates.map
        LlmProvider.id).contains id = true := List.contains_iff_mem.mpr hcandidate
    have hfree := congrArg some ((hdropped.trans hsame).availableVramMb id)
    exact ⟨hsame.1, (if_pos hcontains).trans hfree, hroom⟩
  have hrecovered : PlannerTick.Tracked s id (s.recovered v) :=
    foldl_invariant hstart (fun _ p ht => PlannerTick.recover_tracked ht p) v.ollamaProviders
  have hscaled : PlannerTick.Tracked s id
      ((s.start v).2.scaleOutNeeded.foldl (PlannerTick.scaleOut v (s.start v).2) (s.recovered v)) :=
    foldl_invariant hrecovered (fun _ model ht => PlannerTick.scaleOut_tracked ht model) _
  exact foldl_invariant hscaled (fun _ model ht => PlannerTick.preload_tracked ht model) _

/-- Provider 1 has a model loaded; provider 2 has 1000 MB free. -/
def crowded : Planner :=
  let loaded := ProviderVramState.fresh.setModel "m"
    { ModelState.new 0 true 128 1 with lastActiveAt := 1000000 }
  { now := 0
    pool := (VramPool.new.setProvider 1 loaded).setProvider 2
      { ProviderVramState.fresh with totalMb := 1512, safetyPermil := 0 }
    thermal := .new 300, cb := .new, isStandby := fun _ => false
    preHardMaxConcurrent := fun _ _ => 0, apuMaxConcurrentCache := fun _ => 4
    nowMs := 1000000, transitionUntil := fun _ => 0, isPulling := fun _ _ => false
    preloadFailedAt := fun _ _ => 0, scaleOutHolddown := fun _ => none, locked := fun _ => false }

/-- Ten jobs of the model wait. -/
def demandingView : PlannerView :=
  { allProviders := [ollamaProvider 1, ollamaProvider 2], demand := fun _ => 10, queueLen := 10
    ollamaModelRepo := none
    modelDemandOrder := { order := fun names => names, perm := fun _ => .refl _ }
    scaleOutNeededOrder := { order := fun names => names, perm := fun _ => .refl _ }
    setOk := fun _ => true, delOk := fun _ => true }

end Planner
end Veronex
