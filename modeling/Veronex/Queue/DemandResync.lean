import Veronex.Foundation.Transition
import Veronex.Queue.Accounting
import Mathlib.Data.List.Dedup

/-! # `demand_resync_pass` among the queue scripts

`infrastructure/outbound/queue_maintenance.rs`. The pass reads the sorted set page by page, looks up
the models of each page, overwrites the demand counters and then removes the side-hash fields it
did not see. Every Valkey command is one step; the scripts of the queue run between them.

A cursor scan is a list of pages, each a predicate that says which members its call returns. That a
member which is present during the whole scan is returned means that every job id is on some page;
a member that comes or goes during the scan is returned or not, depending on when its page is read.

`ResyncPc.Keeps` says for each point of the pass whether the rest of the pass accounts for a job.
It is both the invariant (every queued job is kept) and the condition on an enqueue during the pass.
-/
namespace Veronex
set_option autoImplicit false

/-! ## The pass -/

/-- The members one cursor call returns. -/
abbrev Page := Uuid → Bool

inductive SideHash
  | model
  | enqueueAt
  deriving DecidableEq

/-- The cursor calls of one pass. -/
structure ResyncScan where
  zscan : List Page
  hscan : SideHash → List Page
  zscan_covers : ∀ id, ∃ p ∈ zscan, p id = true

/-- The job ids a pass has read with the answers of `HMGET`. `model_counts` and `zset_set` are
computed from it. -/
abbrev Found := List (Uuid × Option String)

/-- `model_counts[m]`. -/
def modelCount (found : Found) (m : String) : ℕ := found.countP fun e => e.2 = some m

/-- `zset_set`. -/
def zsetSet (found : Found) : List Uuid := found.map Prod.fst

inductive ResyncPc
  | start
  | zscan (pages : List Page) (found : Found)
  | hmget (ids : List Uuid) (pages : List Page) (found : Found)
  /-- The counters still to be set. -/
  | setDemand (todo : List String) (found : Found)
  /-- `gc_stale_hash`, before the next `HSCAN`. -/
  | hscan (hash : SideHash) (pages : List Page) (seen : List Uuid)
  /-- `gc_stale_hash`, before the `HDEL` of one page. -/
  | hdel (hash : SideHash) (stale : List Uuid) (pages : List Page) (seen : List Uuid)
  | done

structure ResyncState where
  state : QueueState
  pc : ResyncPc

/-- The fields of a side hash. -/
def Queue.fields (q : Queue) : SideHash → List Uuid
  | .model => q.model.keys
  | .enqueueAt => q.enqueueAt.keys

/-- `HDEL`. -/
def Queue.hdel (q : Queue) (hash : SideHash) (stale : List Uuid) : Queue :=
  match hash with
  | .model => { q with model := stale.foldl (fun h id => h.erase id) q.model }
  | .enqueueAt => { q with enqueueAt := stale.foldl (fun h id => h.erase id) q.enqueueAt }

/-- `SET demand:{model}`. -/
def Queue.setDemand (q : Queue) (m : String) (count : ℕ) : Queue :=
  { q with demand := Function.update q.demand m count }

/-- One command of the pass. `next` is the model whose counter is set next: the order in which the
map of counts is iterated is not fixed. -/
def resyncStep (scan : ResyncScan) (q : Queue) (next : String) : ResyncPc → Option (Queue × ResyncPc)
  | .start => some (q, if q.zcard < 50 then .done else .zscan scan.zscan [])
  | .zscan (p :: pages) found =>
    let ids := q.zset.keys.filter p
    some (q, if ids = [] then .zscan pages found else .hmget ids pages found)
  | .zscan [] found => some (q, .setDemand (found.filterMap Prod.snd).dedup found)
  | .hmget ids pages found =>
    some (q, .zscan pages (found ++ ids.map fun id => (id, q.model.lookup id)))
  | .setDemand [] found => some (q, .hscan .model (scan.hscan .model) (zsetSet found))
  | .setDemand todo found =>
    if next ∈ todo then
      some (q.setDemand next (modelCount found next), .setDemand (todo.filter (· ≠ next)) found)
    else none
  | .hscan hash (p :: pages) seen =>
    let stale := ((q.fields hash).filter p).filter (· ∉ seen)
    some (q, if stale = [] then .hscan hash pages seen else .hdel hash stale pages seen)
  | .hscan .model [] seen => some (q, .hscan .enqueueAt (scan.hscan .enqueueAt) seen)
  | .hscan .enqueueAt [] _ => some (q, .done)
  | .hdel hash stale pages seen => some (q.hdel hash stale, .hscan hash pages seen)
  | .done => none

inductive ResyncAction
  | call (c : QueueCall)
  | pass (next : String)

section Resync
variable (modelOf : Uuid → ModelName) (scan : ResyncScan)

def ResyncState.step (x : ResyncState) : ResyncAction → Option ResyncState
  | .call c => some { x with state := (c.script modelOf).run x.state }
  | .pass next =>
    (resyncStep scan x.state.queue next x.pc).map fun r =>
      { state := { x.state with queue := r.1 }, pc := r.2 }

def ResyncState.init : ResyncState := { state := QueueState.empty, pc := .start }

/-! ## The jobs a pass accounts for -/

/-- No garbage collection step of the pages removes the job. -/
def Spared (seen : List Uuid) (pages : List Page) (id : Uuid) : Prop :=
  id ∈ seen ∨ ∀ p ∈ pages, p id = false

/-- The pages of the hashes that come after this one. -/
def ResyncScan.after : SideHash → List Page
  | .model => scan.hscan .enqueueAt
  | .enqueueAt => []

/-- What is left of the pass neither removes the side-hash entries of a job of this model that is
queued now nor sets the counter of its model without it. -/
def ResyncPc.Keeps (id : Uuid) (model : String) : ResyncPc → Prop
  | .start => True
  | .zscan pages found => (∃ p ∈ pages, p id = true) ∨ (id, some model) ∈ found
  | .hmget ids pages found =>
    id ∈ ids ∨ (∃ p ∈ pages, p id = true) ∨ (id, some model) ∈ found
  | .setDemand todo found =>
    Spared (zsetSet found) (scan.hscan .model ++ scan.hscan .enqueueAt) id ∧
      (model ∉ todo ∨ (id, some model) ∈ found)
  | .hscan hash pages seen => Spared seen (pages ++ scan.after hash) id
  | .hdel hash stale pages seen => id ∉ stale ∧ Spared seen (pages ++ scan.after hash) id
  | .done => True

/-- An enqueue that the limits accept is of a job the pass accounts for. -/
def EnqueuesKept (x : ResyncState) : ResyncAction → Prop
  | .call c =>
    match c.script modelOf with
    | .enqueue id _ model _ maxSize maxPerModel =>
      x.state.queue.Accepts model maxSize maxPerModel → x.pc.Keeps scan id model
    | _ => True
  | .pass _ => True

/-! ## The invariant -/

/-- Every queued job is accounted for by the rest of the pass and by its counter. -/
structure ResyncInv (x : ResyncState) : Prop where
  indexed : Indexed modelOf x.state.queue
  counted : ∀ m, (x.state.queue.queued m : ℤ) ≤ x.state.queue.demand m
  kept : ∀ id ∈ x.state.queue.zset, x.pc.Keeps scan id (modelOf id).asStr

variable {modelOf scan} {q : Queue} {id : Uuid}

theorem queued_enqueued_le (h : Indexed modelOf q) (score : ℕ) (now : Millis) (m : String) :
    (q.enqueued id score (modelOf id).asStr now).queued m ≤
      q.queued m + if (modelOf id).asStr = m then 1 else 0 := by
  by_cases hm : id ∈ q.zset
  · rw [q.queued_enqueued_of_mem id score _ m now hm (h.lookup_of_mem hm)]
    exact Nat.le_add_right _ _
  · exact (q.queued_enqueued_of_notMem id score _ m now hm).le

theorem counted_enqueued (h : Indexed modelOf q) (hd : ∀ m, (q.queued m : ℤ) ≤ q.demand m)
    (score : ℕ) (now : Millis) (m : String) :
    ((q.enqueued id score (modelOf id).asStr now).queued m : ℤ) ≤
      (q.enqueued id score (modelOf id).asStr now).demand m := by
  have hle : (q.enqueued id score (modelOf id).asStr now).queued m ≤ _ :=
    queued_enqueued_le h score now m
  have hdm := hd m
  have hdemand : (q.enqueued id score (modelOf id).asStr now).demand m =
      q.demand m + if (modelOf id).asStr = m then 1 else 0 := by
    by_cases hmod : (modelOf id).asStr = m
    · subst hmod
      simp [Queue.enqueued]
    · have hne : m ≠ (modelOf id).asStr := fun e => hmod e.symm
      simp [Queue.enqueued, Function.update_of_ne hne, hmod]
  rw [hdemand]
  split at hle <;> split <;> omega

theorem counted_dequeue (h : Indexed modelOf q) (hd : ∀ m, (q.queued m : ℤ) ≤ q.demand m)
    (hm : id ∈ q.zset) {model : String} (hmodel : model = (modelOf id).asStr ∨ model = "")
    (m : String) : ((q.dequeue id model).queued m : ℤ) ≤ (q.dequeue id model).demand m := by
  have hcount := q.queued_dequeue_of_mem id model m hm
  have hdm := hd m
  rw [h.lookup_of_mem hm] at hcount
  rw [Queue.dequeue_demand, Queue.decrDemand]
  by_cases hmod : m = model
  · subst hmod
    rw [Function.update_self]
    rcases hmodel with rfl | rfl
    · rw [if_pos rfl] at hcount
      omega
    · -- no job has the blank model, so none of its jobs is queued
      have hzero : q.queued "" = 0 := by
        refine List.countP_eq_zero.mpr fun j hj => ?_
        have hj' := h.lookup_of_mem (AList.mem_keys.mpr hj)
        have hne : (modelOf j).asStr ≠ "" := (modelOf j).property
        simp [hj', hne]
      omega
  · rw [Function.update_of_ne hmod]
    omega

theorem counted_run {s : QueueState} (h : Indexed modelOf s.queue)
    (hd : ∀ m, (s.queue.queued m : ℤ) ≤ s.queue.demand m) {c : Script} (hc : c.Called modelOf)
    (m : String) : ((c.run s).queue.queued m : ℤ) ≤ (c.run s).queue.demand m := by
  cases c with
  | enqueue id score model now maxSize maxPerModel =>
    obtain rfl : model = (modelOf id).asStr := hc
    simp only [Script.run, Queue.zsetEnqueue_eq]
    split
    · exact counted_enqueued h hd score now m
    · exact hd m
  | claim id model now =>
    simp only [Script.run, Queue.zsetClaim_eq]
    split
    · next hm => exact counted_dequeue h hd hm (.inl hc) m
    · exact hd m
  | cancel id model =>
    simp only [Script.run, Queue.zsetCancel_eq]
    split
    · next hm => exact counted_dequeue h hd hm hc m
    · exact hd m

/-- The members after a script: those before it and a job it enqueued. -/
theorem mem_zset_run {s : QueueState} {c : Script} (hm : id ∈ (c.run s).queue.zset) :
    id ∈ s.queue.zset ∨ ∃ score model now maxSize maxPerModel,
      c = .enqueue id score model now maxSize maxPerModel ∧
        s.queue.Accepts model maxSize maxPerModel := by
  cases c with
  | enqueue j score model now maxSize maxPerModel =>
    simp only [Script.run, Queue.zsetEnqueue_eq] at hm
    split at hm
    · next hacc =>
      rcases (Queue.mem_zset_enqueued ..).mp hm with rfl | hm
      · exact .inr ⟨_, _, _, _, _, rfl, hacc⟩
      · exact .inl hm
    · exact .inl hm
  | claim j model now =>
    simp only [Script.run, Queue.zsetClaim_eq] at hm
    split at hm
    · exact .inl ((Queue.mem_zset_dequeue ..).mp hm).2
    · exact .inl hm
  | cancel j model =>
    simp only [Script.run, Queue.zsetCancel_eq] at hm
    split at hm
    · exact .inl ((Queue.mem_zset_dequeue ..).mp hm).2
    · exact .inl hm

/-! ## The steps of the pass -/

/-- A counter that is set to the number of jobs the scan found counts every queued job. -/
theorem queued_le_modelCount (h : Indexed modelOf q) {found : Found} {m : String}
    (hall : ∀ id ∈ q.zset, (modelOf id).asStr = m → (id, some m) ∈ found) :
    q.queued m ≤ modelCount found m := by
  have hnodup : ((q.zset.keys.filter fun id => q.model.lookup id = some m).map
      fun id => (id, some m)).Nodup := by
    refine (q.zset.keys_nodup.filter _).map ?_
    intro a b hab
    exact (Prod.mk.inj hab).1
  have hsub : ((q.zset.keys.filter fun id => q.model.lookup id = some m).map
      fun id => (id, some m)) ⊆ found.filter fun e => e.2 = some m := by
    intro e he
    obtain ⟨j, hj, rfl⟩ := List.mem_map.mp he
    obtain ⟨hj, hlookup⟩ := List.mem_filter.mp hj
    have hmodel := h.modelOf j m (by simpa using hlookup)
    have hfound := hall j (AList.mem_keys.mpr hj) hmodel.symm
    simpa using hfound
  have hle := (List.subperm_of_subset hnodup hsub).length_le
  rw [List.length_map] at hle
  rw [Queue.queued, modelCount, List.countP_eq_length_filter, List.countP_eq_length_filter]
  exact hle

theorem mem_foldl_erase {β : Type} (stale : List Uuid) (h : JobMap β) (j : Uuid) :
    j ∈ stale.foldl (fun h id => h.erase id) h ↔ j ∉ stale ∧ j ∈ h := by
  induction stale generalizing h with
  | nil => simp
  | cons s stale ih => rw [List.foldl_cons, ih]; simp; tauto

theorem lookup_foldl_erase {β : Type} (stale : List Uuid) (h : JobMap β) {j : Uuid}
    (hj : j ∉ stale) : (stale.foldl (fun h id => h.erase id) h).lookup j = h.lookup j := by
  induction stale generalizing h with
  | nil => rfl
  | cons s stale ih =>
    obtain ⟨hs, hrest⟩ : j ≠ s ∧ j ∉ stale := by simpa using hj
    rw [List.foldl_cons, ih _ hrest, AList.lookup_erase_ne hs]

/-- An `HDEL` that names no queued job changes neither hash. -/
theorem Indexed.hdel (h : Indexed modelOf q) (hash : SideHash) {stale : List Uuid}
    (hstale : ∀ id ∈ q.zset, id ∉ stale) : Indexed modelOf (q.hdel hash stale) := by
  cases hash with
  | model =>
    refine ⟨h.enqueueAt, ?_, ?_⟩
    · intro j
      simp only [Queue.hdel, mem_foldl_erase, h.model j]
      exact ⟨And.right, fun hj => ⟨hstale j hj, hj⟩⟩
    · intro j m hm
      have hj : j ∉ stale := by
        intro hmem
        have hsome := AList.lookup_isSome.mp (Option.isSome_of_mem hm)
        exact ((mem_foldl_erase stale q.model j).mp hsome).1 hmem
      simp only [Queue.hdel, lookup_foldl_erase stale q.model hj] at hm
      exact h.modelOf j m hm
  | enqueueAt =>
    refine ⟨?_, h.model, h.modelOf⟩
    intro j
    simp only [Queue.hdel, mem_foldl_erase, h.enqueueAt j]
    exact ⟨And.right, fun hj => ⟨hstale j hj, hj⟩⟩

theorem queued_hdel (hash : SideHash) {stale : List Uuid}
    (hstale : ∀ id ∈ q.zset, id ∉ stale) (m : String) :
    (q.hdel hash stale).queued m = q.queued m := by
  cases hash with
  | model =>
    refine List.countP_congr fun j hj => ?_
    have hj' := hstale j (AList.mem_keys.mpr hj)
    simp only [Queue.hdel, lookup_foldl_erase stale q.model hj']
  | enqueueAt => rfl

theorem demand_hdel (hash : SideHash) (stale : List Uuid) :
    (q.hdel hash stale).demand = q.demand := by
  cases hash <;> rfl

theorem zset_hdel (hash : SideHash) (stale : List Uuid) : (q.hdel hash stale).zset = q.zset := by
  cases hash <;> rfl

theorem Spared.of_cons {seen : List Uuid} {p : Page} {pages : List Page}
    (h : Spared seen (p :: pages) id) : Spared seen pages id := by
  rcases h with h | h
  · exact .inl h
  · exact .inr fun p' hp' => h p' (List.mem_cons_of_mem _ hp')

/-- What one command of the pass does to the queue: nothing, set a counter to at least the number
of queued jobs, or delete fields of jobs that are not queued. -/
def Harmless (q q' : Queue) : Prop :=
  q' = q ∨ (∃ m count, q.queued m ≤ count ∧ q' = q.setDemand m count) ∨
    ∃ hash stale, (∀ id ∈ q.zset, id ∉ stale) ∧ q' = q.hdel hash stale

theorem Harmless.zset {q' : Queue} (h : Harmless q q') : q'.zset = q.zset := by
  rcases h with rfl | ⟨m, count, -, rfl⟩ | ⟨hash, stale, -, rfl⟩
  · rfl
  · rfl
  · exact zset_hdel hash stale

theorem Harmless.indexed {q' : Queue} (h : Harmless q q') (hi : Indexed modelOf q) :
    Indexed modelOf q' := by
  rcases h with rfl | ⟨m, count, -, rfl⟩ | ⟨hash, stale, hstale, rfl⟩
  · exact hi
  · exact ⟨hi.enqueueAt, hi.model, hi.modelOf⟩
  · exact hi.hdel hash hstale

theorem Harmless.counted {q' : Queue} (h : Harmless q q')
    (hd : ∀ m, (q.queued m : ℤ) ≤ q.demand m) (m : String) : (q'.queued m : ℤ) ≤ q'.demand m := by
  rcases h with rfl | ⟨m', count, hle, rfl⟩ | ⟨hash, stale, hstale, rfl⟩
  · exact hd m
  · have hsame : (q.setDemand m' count).queued m = q.queued m := rfl
    have hdemand : (q.setDemand m' count).demand m =
        Function.update q.demand m' (count : ℤ) m := rfl
    rw [hsame, hdemand]
    by_cases hm : m = m'
    · subst hm
      rw [Function.update_self]
      omega
    · rw [Function.update_of_ne hm]
      exact hd m
  · rw [queued_hdel hash hstale, demand_hdel]
    exact hd m

/-- A command of the pass is harmless and the pass still accounts for every queued job. -/
theorem resyncStep_kept (hi : Indexed modelOf q) {pc pc' : ResyncPc} {q' : Queue} {next : String}
    (hkept : ∀ id ∈ q.zset, pc.Keeps scan id (modelOf id).asStr)
    (hstep : resyncStep scan q next pc = some (q', pc')) :
    Harmless q q' ∧ ∀ id ∈ q.zset, pc'.Keeps scan id (modelOf id).asStr := by
  cases pc with
  | start =>
    obtain ⟨rfl, rfl⟩ := Prod.mk.inj (Option.some.inj hstep)
    refine ⟨.inl rfl, fun id _ => ?_⟩
    split
    · trivial
    · exact .inl (scan.zscan_covers id)
  | zscan pages found =>
    cases pages with
    | nil =>
      obtain ⟨rfl, rfl⟩ := Prod.mk.inj (Option.some.inj hstep)
      refine ⟨.inl rfl, fun id hm => ?_⟩
      have hfound : (id, some (modelOf id).asStr) ∈ found := by
        rcases hkept id hm with ⟨p, hp, -⟩ | hf
        · cases hp
        · exact hf
      exact ⟨.inl (List.mem_map.mpr ⟨_, hfound, rfl⟩), .inr hfound⟩
    | cons p pages =>
      obtain ⟨rfl, rfl⟩ := Prod.mk.inj (Option.some.inj hstep)
      refine ⟨.inl rfl, fun id hm => ?_⟩
      have hpage : p id = true → id ∈ q.zset.keys.filter p := fun hp =>
        List.mem_filter.mpr ⟨AList.mem_keys.mp hm, hp⟩
      have hrest : id ∈ q.zset.keys.filter p ∨ (∃ p' ∈ pages, p' id = true) ∨
          (id, some (modelOf id).asStr) ∈ found := by
        rcases hkept id hm with ⟨p', hp', hid⟩ | hf
        · rcases List.mem_cons.mp hp' with rfl | hp'
          · exact .inl (hpage hid)
          · exact .inr (.inl ⟨p', hp', hid⟩)
        · exact .inr (.inr hf)
      split
      · next hempty =>
        rw [hempty] at hrest
        rcases hrest with h | h
        · cases h
        · exact h
      · exact hrest
  | hmget ids pages found =>
    obtain ⟨rfl, rfl⟩ := Prod.mk.inj (Option.some.inj hstep)
    refine ⟨.inl rfl, fun id hm => ?_⟩
    rcases hkept id hm with hid | hp | hf
    · refine .inr (List.mem_append_right _ (List.mem_map.mpr ⟨id, hid, ?_⟩))
      rw [hi.lookup_of_mem hm]
    · exact .inl hp
    · exact .inr (List.mem_append_left _ hf)
  | setDemand todo found =>
    cases todo with
    | nil =>
      obtain ⟨rfl, rfl⟩ := Prod.mk.inj (Option.some.inj hstep)
      exact ⟨.inl rfl, fun id hm => (hkept id hm).1⟩
    | cons m todo =>
      simp only [resyncStep] at hstep
      split at hstep
      · next hnext =>
        obtain ⟨rfl, rfl⟩ := Prod.mk.inj (Option.some.inj hstep)
        have hcount : q.queued next ≤ modelCount found next := by
          refine queued_le_modelCount hi fun id hm hmodel => ?_
          rcases (hkept id hm).2 with hno | hf
          · exact absurd (hmodel ▸ hnext) hno
          · exact hmodel ▸ hf
        refine ⟨.inr (.inl ⟨next, _, hcount, rfl⟩), fun id hm => ?_⟩
        obtain ⟨hspared, hset⟩ := hkept id hm
        refine ⟨hspared, hset.imp_left fun hno hmem => hno ?_⟩
        exact (List.mem_filter.mp hmem).1
      · cases hstep
  | hscan hash pages seen =>
    cases pages with
    | nil =>
      cases hash with
      | model =>
        obtain ⟨rfl, rfl⟩ := Prod.mk.inj (Option.some.inj hstep)
        refine ⟨.inl rfl, fun id hm => ?_⟩
        have hspared := hkept id hm
        simpa [ResyncPc.Keeps, ResyncScan.after] using hspared
      | enqueueAt =>
        obtain ⟨rfl, rfl⟩ := Prod.mk.inj (Option.some.inj hstep)
        exact ⟨.inl rfl, fun _ _ => trivial⟩
    | cons p pages =>
      obtain ⟨rfl, rfl⟩ := Prod.mk.inj (Option.some.inj hstep)
      refine ⟨.inl rfl, fun id hm => ?_⟩
      have hspared : Spared seen (p :: (pages ++ scan.after hash)) id := hkept id hm
      have hstale : id ∉ ((q.fields hash).filter p).filter (· ∉ seen) := by
        intro hmem
        obtain ⟨hmem, hunseen⟩ := List.mem_filter.mp hmem
        rcases hspared with hseen | hnone
        · simp [hseen] at hunseen
        · have hp := hnone p (List.mem_cons_self ..)
          simp [hp] at hmem
      split
      · exact hspared.of_cons
      · exact ⟨hstale, hspared.of_cons⟩
  | hdel hash stale pages seen =>
    obtain ⟨rfl, rfl⟩ := Prod.mk.inj (Option.some.inj hstep)
    have hstale : ∀ id ∈ q.zset, id ∉ stale := fun id hm => (hkept id hm).1
    exact ⟨.inr (.inr ⟨hash, stale, hstale, rfl⟩), fun id hm => (hkept id hm).2⟩
  | done => cases hstep

/-! ## Runs -/

theorem resyncInv_init : ResyncInv modelOf scan ResyncState.init where
  indexed := reached_indexed modelOf []
  counted m := by simp [ResyncState.init, QueueState.empty, Queue.empty, Queue.queued]
  kept _ _ := trivial

theorem ResyncInv.step {x y : ResyncState} {a : ResyncAction} (h : ResyncInv modelOf scan x)
    (hok : EnqueuesKept modelOf scan x a) (hs : x.step modelOf scan a = some y) :
    ResyncInv modelOf scan y := by
  cases a with
  | call c =>
    obtain rfl := Option.some.inj hs
    have hc := c.script_called modelOf
    refine ⟨h.indexed.run hc, counted_run h.indexed h.counted hc, fun id hm => ?_⟩
    rcases mem_zset_run hm with hm | ⟨score, model, now, maxSize, maxPerModel, hscript, hacc⟩
    · exact h.kept id hm
    · rw [hscript] at hc
      obtain rfl : model = (modelOf id).asStr := hc
      simp only [EnqueuesKept, hscript] at hok
      exact hok hacc
  | pass next =>
    obtain ⟨r, hr, rfl⟩ := Option.map_eq_some_iff.mp hs
    obtain ⟨hharm, hkept⟩ := resyncStep_kept h.indexed h.kept hr
    refine ⟨hharm.indexed h.indexed, hharm.counted h.counted, fun id hm => ?_⟩
    rw [show r.1.zset = x.state.queue.zset from hharm.zset] at hm
    exact hkept id hm

variable (modelOf scan)

/-- When every enqueue is of a job the pass still accounts for, every queued job has its side-hash
entries and is counted, at the end of the pass as in every state before. -/
theorem resync_loses_nothing {x : ResyncState}
    (h : Concurrency.Run (ResyncState.step modelOf scan) (EnqueuesKept modelOf scan)
      ResyncState.init x) :
    (∀ id ∈ x.state.queue.zset, id ∈ x.state.queue.enqueueAt ∧ id ∈ x.state.queue.model) ∧
      ∀ m, (x.state.queue.queued m : ℤ) ≤ x.state.queue.demand m := by
  have hinv : ResyncInv modelOf scan x :=
    h.invariant resyncInv_init fun _ _ _ _ hi hok hs => hi.step hok hs
  refine ⟨fun id hm => ⟨?_, ?_⟩, hinv.counted⟩
  · exact (hinv.indexed.enqueueAt id).mpr hm
  · exact (hinv.indexed.model id).mpr hm

end Resync

/-! ## Two runs of a pass -/

/-- One cursor call returns everything. -/
def onePage : ResyncScan where
  zscan := [fun _ => true]
  hscan := fun _ => [fun _ => true]
  zscan_covers _ := ⟨fun _ => true, List.mem_singleton.mpr rfl, rfl⟩

/-- Every job of the runs below is for one model. -/
def oneModel : Uuid → ModelName := fun _ => ⟨"m", m_ne_empty⟩

/-- As many jobs as a pass needs to start. -/
def fifty : List ResyncAction := (List.range 50).map fun id => .call (.submit id id 0)

def ResyncPc.isDone : ResyncPc → Bool
  | .done => true
  | _ => false

/-- Scripts run before the pass only. -/
def beforePass (x : ResyncState) : ResyncAction → Bool
  | .call _ => match x.pc with
    | .start => true
    | _ => false
  | .pass _ => true

theorem beforePass_kept (modelOf : Uuid → ModelName) (scan : ResyncScan) (x : ResyncState)
    (a : ResyncAction) (h : beforePass x a = true) : EnqueuesKept modelOf scan x a := by
  cases a with
  | pass next => trivial
  | call c =>
    have hpc : x.pc = .start := by
      revert h
      unfold beforePass
      cases x.pc <;> simp
    simp only [EnqueuesKept]
    split
    · intro _
      rw [hpc]
      trivial
    · trivial

/-- A pass over fifty jobs. -/
theorem resync_of_fifty_loses_nothing : ∃ x : ResyncState, x.pc.isDone = true ∧
    x.state.queue.zcard = 50 ∧
    (∀ id ∈ x.state.queue.zset, id ∈ x.state.queue.enqueueAt ∧ id ∈ x.state.queue.model) ∧
      ∀ m, (x.state.queue.queued m : ℤ) ≤ x.state.queue.demand m := by
  have hexec : (Concurrency.exec (ResyncState.step oneModel onePage) beforePass ResyncState.init
      (.flatten [fifty, List.replicate 10 (.pass "m")])).any
      (fun x => x.pc.isDone && x.state.queue.zcard == 50) = true := by
    decide +kernel
  obtain ⟨x, hrun, hx⟩ := Concurrency.Run.exists_of_exec (beforePass_kept oneModel onePage) hexec
  obtain ⟨hdone, hcard⟩ : x.pc.isDone = true ∧ x.state.queue.zcard = 50 := by simpa using hx
  exact ⟨x, hdone, hcard, resync_loses_nothing oneModel onePage hrun⟩

/-- Job 50 is enqueued when the pass has read the sorted set: it stays queued, but the pass removes
its entries and sets the counter of its model without it. -/
theorem resync_loses_late_enqueue :
    ¬ ∀ (modelOf : Uuid → ModelName) (scan : ResyncScan) (x : ResyncState),
        Concurrency.Run (ResyncState.step modelOf scan) (fun _ _ => True) ResyncState.init x →
        x.pc.isDone = true →
        (∀ id ∈ x.state.queue.zset, id ∈ x.state.queue.enqueueAt ∧ id ∈ x.state.queue.model) ∧
          ∀ m, (x.state.queue.queued m : ℤ) ≤ x.state.queue.demand m := by
  intro hall
  have hexec : (Concurrency.exec (ResyncState.step oneModel onePage) (fun _ _ => true)
      ResyncState.init (.flatten [fifty, [.pass "", .pass "", .pass "", .call (.submit 50 50 0)],
        List.replicate 9 (.pass "m")])).any
      (fun x => x.pc.isDone && decide (50 ∈ x.state.queue.zset) &&
        decide (50 ∉ x.state.queue.enqueueAt)) = true := by
    decide +kernel
  obtain ⟨x, hrun, hx⟩ := Concurrency.Run.exists_of_exec (fun _ _ _ => trivial) hexec
  simp only [Bool.and_eq_true, decide_eq_true_eq] at hx
  obtain ⟨⟨hdone, hmem⟩, hlost⟩ := hx
  exact hlost ((hall oneModel onePage x hrun hdone).1 50 hmem).1

end Veronex
