import Veronex.Dispatch.Planner

/-! # The preloads a tick spawns

`planner_tick` reads of a pair of a provider and a model whether it is being preloaded and whether
it is excluded, and changes neither before it has spawned its preloads.

`not_mem_preloads`: it does not preload a pair that is either.
-/
namespace Veronex
set_option autoImplicit false
open Concurrency

namespace Planner
variable {s s' s'' : Planner} {id : ProviderId} {model : String}

/-- What `is_preloading` and `is_preload_excluded` read is the same. -/
structure SamePreloads (s s' : Planner) : Prop where
  pool : s'.pool = s.pool
  nowMs : s'.nowMs = s.nowMs
  preloadFailedAt : s'.preloadFailedAt = s.preloadFailedAt

theorem SamePreloads.refl (s : Planner) : s.SamePreloads s := ⟨rfl, rfl, rfl⟩

theorem SamePreloads.trans (h : s.SamePreloads s') (h' : s'.SamePreloads s'') :
    s.SamePreloads s'' :=
  ⟨h'.pool.trans h.pool, h'.nowMs.trans h.nowMs, h'.preloadFailedAt.trans h.preloadFailedAt⟩

theorem SamePreloads.isPreloading (h : s.SamePreloads s') :
    s'.isPreloading id model = s.isPreloading id model := by
  rw [Planner.isPreloading, Planner.isPreloading, h.pool]

theorem SamePreloads.isPreloadExcluded (h : s.SamePreloads s') :
    s'.isPreloadExcluded id model = s.isPreloadExcluded id model := by
  rw [Planner.isPreloadExcluded, Planner.isPreloadExcluded, h.nowMs, h.preloadFailedAt]

/-! ## Pass 0 -/

theorem snapshot_samePreloads (s : Planner) (v : PlannerView) :
    s.SamePreloads (s.snapshot v).1 := by
  obtain ⟨cb, heq⟩ := snapshot_eq s v
  rw [heq]
  exact ⟨rfl, rfl, rfl⟩

end Planner

/-! ## The steps -/

namespace PlannerTick
open Planner (SamePreloads)
variable {s : Planner} {v : PlannerView} {x : PlannerSnapshot} {t : PlannerTick}
  {id : ProviderId} {model : String}

/-- The tick of `s` has not spawned a preload of the pair. -/
structure Unspawned (s : Planner) (id : ProviderId) (model : String) (t : PlannerTick) : Prop where
  same : s.SamePreloads t.state
  unspawned : (id, model) ∉ t.preloads

theorem watchdog_unspawned (h : Unspawned s id model t) (p : LlmProvider) :
    Unspawned s id model (t.watchdog p) := by
  obtain ⟨thermal, drained, heq⟩ := t.watchdog_eq p
  rw [heq]
  exact ⟨h.same.trans ⟨rfl, rfl, rfl⟩, h.unspawned⟩

theorem recover_unspawned (h : Unspawned s id model t) (p : LlmProvider) :
    Unspawned s id model (t.recover v x p) := by
  rcases recover_cases (v := v) (x := x) t p with heq | heq
  · rwa [heq]
  · rw [heq]
    exact ⟨h.same.trans ⟨rfl, rfl, rfl⟩, h.unspawned⟩

theorem SameButLocks.unspawned {t' : PlannerTick} (hlocks : SameButLocks t t')
    (h : Unspawned s id model t) : Unspawned s id model t' := by
  obtain ⟨locked, rfl⟩ := hlocks
  exact ⟨h.same.trans ⟨rfl, rfl, rfl⟩, h.unspawned⟩

theorem reserveFree_unspawned (h : Unspawned s id model t) (id' : ProviderId) (model' : String) :
    Unspawned s id model (t.reserveFree id' model') := by
  unfold reserveFree
  split
  · exact ⟨h.same, h.unspawned⟩
  · exact h

theorem spawnPreload_unspawned (h : Unspawned s id model t) {id' : ProviderId} {model' : String}
    (hne : (id, model) ≠ (id', model')) : Unspawned s id model (t.spawnPreload id' model') where
  same := h.same
  unspawned hmem := by
    rcases List.mem_append.mp hmem with hmem | hmem
    · exact h.unspawned hmem
    · exact hne (List.mem_singleton.mp hmem)

/-- A fold that keeps its choice or takes the next element ends with an element. -/
theorem mem_of_foldl_choice {α : Type} {choose : Option α → α → Option α}
    (hchoose : ∀ best p, choose best p = best ∨ choose best p = some p) {b : α} (l : List α)
    (best : Option α) (h : l.foldl choose best = some b) : best = some b ∨ b ∈ l := by
  induction l generalizing best with
  | nil => exact .inl h
  | cons p l ih =>
    rcases ih (choose best p) h with heq | hmem
    · rcases hchoose best p with hkept | htaken
      · exact .inl (hkept.symm.trans heq)
      · exact .inr (Option.some.inj (htaken.symm.trans heq) ▸ List.mem_cons_self ..)
    · exact .inr (List.mem_cons_of_mem _ hmem)

/-- The best server is one of the candidates that pass the test. -/
theorem bestServer_spared {server : LlmProvider} (h : t.bestServer v x model = some server) :
    t.state.isPreloading server.id model = false ∧
      t.state.isPreloadExcluded server.id model = false := by
  unfold bestServer at h
  have hmem := mem_of_foldl_choice (fun best p => ?_) _ none h
  · have hserver := (List.mem_filter.mp (hmem.resolve_left (by simp))).2
    simp only [decide_eq_true_eq, Bool.not_eq_true'] at hserver
    exact ⟨hserver.2.2.1, hserver.2.2.2.2.1⟩
  · cases best with
    | none => exact .inr rfl
    | some b =>
      dsimp only
      split
      · exact .inr rfl
      · exact .inl rfl

/-- The pair is being preloaded or excluded. -/
def Spared (s : Planner) (id : ProviderId) (model : String) : Prop :=
  s.isPreloading id model = true ∨ s.isPreloadExcluded id model = true

/-- The tick of `s` does not spawn the pair on a provider it finds the pair unspared on. -/
theorem ne_of_spared (hspared : Spared s id model) (h : Unspawned s id model t) {id' : ProviderId}
    {model' : String} (hpreloading : t.state.isPreloading id' model' = false)
    (hexcluded : t.state.isPreloadExcluded id' model' = false) : (id, model) ≠ (id', model') := by
  intro heq
  obtain ⟨rfl, rfl⟩ := Prod.mk.inj heq
  rw [h.same.isPreloading] at hpreloading
  rw [h.same.isPreloadExcluded] at hexcluded
  rcases hspared with hflag | hflag
  · exact Bool.false_ne_true (hpreloading.symm.trans hflag)
  · exact Bool.false_ne_true (hexcluded.symm.trans hflag)

theorem scaleOut_unspawned (hspared : Spared s id model) (h : Unspawned s id model t)
    (model' : String) : Unspawned s id model (t.scaleOut v x model') := by
  rcases scaleOut_cases (v := v) (x := x) t model' with hlocks |
    ⟨t', server, until', hlocks, hbest, heq⟩
  · exact hlocks.unspawned h
  · obtain ⟨hpreloading, hexcluded⟩ := bestServer_spared hbest
    have hne := ne_of_spared hspared h hpreloading hexcluded
    have hspawned :=
      spawnPreload_unspawned (reserveFree_unspawned (hlocks.unspawned h) server.id model') hne
    rw [heq]
    exact ⟨hspawned.same.trans ⟨rfl, rfl, rfl⟩, hspawned.unspawned⟩

/-- A provider that is not passed over neither preloads the model nor is excluded. -/
theorem spared_of_skipsPreload (h : t.skipsPreload v model id = false) :
    t.state.isPreloading id model = false ∧ t.state.isPreloadExcluded id model = false := by
  unfold skipsPreload at h
  simp only [decide_eq_false_iff_not, not_or, Bool.not_eq_true] at h
  exact ⟨h.2.2.2.2.1, h.2.2.2.2.2.2.1⟩

theorem preloadOn_unspawned (hspared : Spared s id model) (model' : String) (l : List LlmProvider)
    (h : Unspawned s id model t) : Unspawned s id model (preloadOn v model' l t) := by
  rcases preloadOn_cases (v := v) model' l t with hlocks | ⟨t', p, hlocks, hskips, heq⟩
  · exact hlocks.unspawned h
  · have hlocked := hlocks.unspawned h
    obtain ⟨hpreloading, hexcluded⟩ := spared_of_skipsPreload hskips
    rw [heq]
    exact spawnPreload_unspawned (reserveFree_unspawned hlocked p.id model')
      (ne_of_spared hspared hlocked hpreloading hexcluded)

theorem preload_unspawned (hspared : Spared s id model) (h : Unspawned s id model t)
    (model' : String) : Unspawned s id model (t.preload v x model') := by
  unfold preload
  split
  · exact h
  · exact preloadOn_unspawned hspared model' _ h

end PlannerTick

namespace Planner
variable {s : Planner} {v : PlannerView} {id : ProviderId} {model : String}

/-- A tick does not preload a pair that is being preloaded or excluded. -/
theorem not_mem_preloads (h : s.isPreloading id model = true ∨ s.isPreloadExcluded id model = true) :
    (id, model) ∉ (s.placed v).preloads := by
  have hdropped : s.SamePreloads s.dropHolddowns := ⟨rfl, rfl, rfl⟩
  have hsnapshot := hdropped.trans (snapshot_samePreloads s.dropHolddowns v)
  have hstart : PlannerTick.Unspawned s id model (s.start v).1 :=
    foldl_invariant (I := PlannerTick.Unspawned s id model) ⟨hsnapshot, List.not_mem_nil⟩
      (fun _ p ht => PlannerTick.watchdog_unspawned ht p) v.ollamaProviders
  have hrecovered : PlannerTick.Unspawned s id model (s.recovered v) :=
    foldl_invariant hstart (fun _ p ht => PlannerTick.recover_unspawned ht p) v.ollamaProviders
  have hscaled : PlannerTick.Unspawned s id model
      ((s.start v).2.scaleOutNeeded.foldl (PlannerTick.scaleOut v (s.start v).2) (s.recovered v)) :=
    foldl_invariant hrecovered (fun _ model' ht => PlannerTick.scaleOut_unspawned h ht model') _
  have hplaced : PlannerTick.Unspawned s id model (s.placed v) :=
    foldl_invariant hscaled (fun _ model' ht => PlannerTick.preload_unspawned h ht model') _
  exact hplaced.unspawned

end Planner
end Veronex
