import Veronex.Inference.Invariants

/-! # Leases and the reaper

A job that waits is in `queue:zset`, a job that is executed has its lease in `queue:active`, and
between the two it is in the hands of one task: the submission before its enqueue, or the reaper
between taking the lease out and enqueueing. `tokens` counts these places; a run never makes a
second one of them out of one (`Config.Leased`), provided that nobody writes the lease of a job that
a reaper has found expired and not yet taken out (`LeasesUndisturbed`).
-/
namespace Veronex
open Concurrency
set_option autoImplicit false

/-! ## The places of a job -/

/-- In the queue, and in the active set. -/
def places (zset : JobMap ℕ) (active : JobMap Millis) (j : Uuid) : ℕ :=
  (if j ∈ zset then 1 else 0) + (if j ∈ active then 1 else 0)

def World.places (w : World) (j : Uuid) : ℕ := Veronex.places w.queue.zset w.active j

/-- A submission before its enqueue and a reaper after it took the lease out hold the job. -/
def Task.holds (j : Uuid) : Task → ℕ
  | .submit s => match s.pc with
    | .save job | .insertNotifier job | .insertEntry job _ | .incrPending job | .enqueue job =>
      if job.id = j then 1 else 0
    | _ => 0
  | .reap r => match r.pc with
    | .setAttempts id _ _ | .getJob id _ | .enqueue id _ _ _ => if id = j then 1 else 0
    | _ => 0
  | _ => 0

def Config.tokens (c : Config) (j : Uuid) : ℕ := c.world.places j + weight (Task.holds j) c.tasks

/-- The jobs a reaper found expired and has neither taken out nor given up on. -/
def ReapPc.listed : ReapPc → List Uuid
  | .each todo | .giveUpRow _ todo | .giveUpLease _ todo | .giveUpAttempts _ todo
  | .setAttempts _ _ todo | .getJob _ todo | .enqueue _ _ _ todo | .leaseAgain _ todo => todo
  | .takeOut id _ todo => id :: todo
  | .list | .finished => []

/-- The lease of a job is in the active set and has expired. -/
def World.Expired (w : World) (j : Uuid) : Prop :=
  ∃ deadline, w.active.lookup j = some deadline ∧ deadline ≤ w.now

/-- What a reaper listed is expired, and the job it is busy with is not on its list any more. -/
structure Reap.Leased (w : World) (r : Reap) : Prop where
  expired : ∀ j ∈ r.pc.listed, w.Expired j
  nodup : match r.pc with
    | .giveUpRow id todo | .giveUpLease id todo | .giveUpAttempts id todo | .takeOut id _ todo
    | .setAttempts id _ todo | .getJob id todo | .enqueue id _ _ todo | .leaseAgain id todo =>
      (id :: todo).Nodup
    | .each todo => todo.Nodup
    | .list | .finished => True

structure Config.Leased (c : Config) : Prop where
  noRecovery : ∀ r, .recover r ∉ c.tasks
  tokens : ∀ j, c.tokens j ≤ if j < c.world.nextJob then 1 else 0
  reapers : ∀ r, .reap r ∈ c.tasks → r.Leased c.world

/-- Nobody starts a recovery, and nobody but the reaper itself renews or removes the lease of a job
that a reaper has listed and not yet taken out. -/
def LeasesUndisturbed (c : Config) : Action → Prop
  | .start (.recover _) => False
  | .run k choice => ∀ t m, c.tasks[k]? = some t → t.step c.world choice = some m →
    ∀ l r, l ≠ k → c.tasks[l]? = some (.reap r) → ∀ j ∈ r.pc.listed,
      m.access ≠ .leaseRemove j ∧ ∀ deadline, m.access ≠ .leaseRenew j deadline
  | _ => True

/-! ## Accesses -/

section Accesses
variable {w : World} {a : Access} {j : Uuid}

theorem places_mono {zset zset' : JobMap ℕ} {active active' : JobMap Millis}
    (hz : j ∈ zset' → j ∈ zset) (ha : j ∈ active' → j ∈ active) :
    Veronex.places zset' active' j ≤ Veronex.places zset active j := by
  have hzle : (if j ∈ zset' then 1 else 0) ≤ (if j ∈ zset then 1 else 0) := by
    split_ifs <;> first | omega | tauto
  have hale : (if j ∈ active' then 1 else 0) ≤ (if j ∈ active then 1 else 0) := by
    split_ifs <;> first | omega | tauto
  unfold Veronex.places
  omega

/-- Only an enqueue adds a place: a claim turns the one into the other. -/
theorem places_le (h : a.kind ≠ .enqueue) : (w.apply a).places j ≤ w.places j := by
  cases a with
  | zsetEnqueue id score model now maxSize maxPerModel => exact absurd rfl h
  | zsetClaim id model now =>
    simp only [World.places, World.apply, Queue.zsetClaim_eq]
    by_cases hid : id ∈ w.queue.zset
    · rw [if_pos hid]
      by_cases hj : j = id
      · subst hj
        have hout : j ∉ (w.queue.dequeue j model).zset := by simp
        have hin : j ∈ w.active.insert j (now + LEASE_TTL_MS) := by simp
        unfold Veronex.places
        rw [if_neg hout, if_pos hin, if_pos hid]
        omega
      · refine places_mono (fun hz => ?_) (fun ha => ?_)
        · exact ((w.queue.mem_zset_dequeue id model).mp hz).2
        · exact ((AList.mem_insert _).mp ha).resolve_left hj
    · rw [if_neg hid]
  | zsetCancel id model =>
    simp only [World.places, World.apply, Queue.zsetCancel_eq]
    by_cases hid : id ∈ w.queue.zset
    · rw [if_pos hid]
      exact places_mono (fun hz => ((w.queue.mem_zset_dequeue id model).mp hz).2) (fun hx => hx)
    · rw [if_neg hid]
  | leaseRenew id deadline =>
    refine places_mono (fun hx => hx) fun ha => ?_
    simp only [World.apply] at ha
    by_cases hid : id ∈ w.active
    · rw [if_pos hid] at ha
      rcases (AList.mem_insert _).mp ha with rfl | ha
      · exact hid
      · exact ha
    · rwa [if_neg hid] at ha
  | leaseRemove id => exact places_mono (fun hx => hx) fun ha => ((AList.mem_erase).mp ha).2
  | _ => exact le_rfl

theorem places_enqueue (id : Uuid) (score : ℕ) (model : String) (now : Millis) (maxSize : ℕ)
    (maxPerModel : ℤ) :
    (w.apply (.zsetEnqueue id score model now maxSize maxPerModel)).places j ≤
      w.places j + if id = j then 1 else 0 := by
  simp only [World.places, World.apply, Queue.zsetEnqueue_eq]
  by_cases hacc : w.queue.Accepts model maxSize maxPerModel
  · rw [if_pos hacc]
    by_cases hj : id = j
    · subst hj
      rw [if_pos rfl]
      unfold Veronex.places
      split_ifs <;> omega
    · rw [if_neg hj]
      refine places_mono (fun hz => ?_) (fun hx => hx)
      exact ((w.queue.mem_zset_enqueued id score model now).mp hz).resolve_left (Ne.symm hj)
  · rw [if_neg hacc]
    exact Nat.le_add_right _ _

/-- Taking out a lease that is there leaves one place less. -/
theorem places_leaseRemove (h : j ∈ w.active) :
    (w.apply (.leaseRemove j)).places j + 1 ≤ w.places j := by
  have hout : j ∉ w.active.erase j := by simp [AList.mem_erase]
  show Veronex.places w.queue.zset (w.active.erase j) j + 1 ≤ _
  unfold World.places Veronex.places
  rw [if_neg hout, if_pos h]

theorem lookup_active (hclaim : a.kind = .claim → j ∉ w.queue.zset)
    (hremove : a ≠ .leaseRemove j) (hrenew : ∀ deadline, a ≠ .leaseRenew j deadline) :
    (w.apply a).active.lookup j = w.active.lookup j := by
  cases a with
  | zsetClaim id model now =>
    have hj := hclaim rfl
    simp only [World.apply, Queue.zsetClaim_eq]
    by_cases hid : id ∈ w.queue.zset
    · have hne : j ≠ id := by rintro rfl; exact hj hid
      simp only [if_pos hid, AList.lookup_insert_ne hne]
    · simp only [if_neg hid]
  | leaseRenew id deadline =>
    have hne : j ≠ id := by rintro rfl; exact hrenew deadline rfl
    simp only [World.apply]
    split
    · exact AList.lookup_insert_ne hne
    · rfl
  | leaseRemove id =>
    have hne : j ≠ id := by rintro rfl; exact hremove rfl
    exact AList.lookup_erase_ne hne
  | _ => rfl

theorem World.Expired.apply (h : w.Expired j) (hclaim : a.kind = .claim → j ∉ w.queue.zset)
    (hremove : a ≠ .leaseRemove j) (hrenew : ∀ deadline, a ≠ .leaseRenew j deadline) :
    (w.apply a).Expired j := by
  obtain ⟨deadline, hlookup, hle⟩ := h
  exact ⟨deadline, (lookup_active hclaim hremove hrenew).trans hlookup, by rwa [apply_now]⟩

theorem World.Expired.mem (h : w.Expired j) : j ∈ w.active := by
  obtain ⟨deadline, hlookup, -⟩ := h
  exact AList.lookup_isSome.mp (by rw [hlookup]; rfl)

end Accesses

/-! ## The list of expired leases -/

theorem map_filterMap_sublist {α β : Type} {f : α → Option β} {g : β → α}
    (h : ∀ x y, f x = some y → g y = x) (xs : List α) : ((xs.filterMap f).map g).Sublist xs := by
  induction xs with
  | nil => exact .slnil
  | cons x xs ih =>
    cases hx : f x with
    | none => rw [List.filterMap_cons_none hx]; exact ih.cons x
    | some y =>
      rw [List.filterMap_cons_some hx, List.map_cons, h x y hx]
      exact ih.cons_cons x

theorem leaseExpired_nodup (w : World) (now : Millis) : (w.leaseExpired now).Nodup := by
  unfold World.leaseExpired
  rw [((List.perm_insertionSort _ _).map Prod.fst).nodup_iff]
  refine (map_filterMap_sublist (fun id entry h => ?_) _).nodup w.active.keys_nodup
  obtain ⟨deadline, -, hentry⟩ := Option.bind_eq_some_iff.mp h
  split at hentry <;> cases hentry
  rfl

theorem expired_of_mem_leaseExpired {w : World} {j : Uuid} (h : j ∈ w.leaseExpired w.now) :
    w.Expired j :=
  lookup_of_mem_leaseExpired h

/-! ## Steps -/

section Steps
variable {w : World} {choice : Choice}

theorem submit_tokens {s : Submit} {m : Moved Submit} (h : s.step w = some m) (j : Uuid) :
    (w.apply m.access).places j + (Task.submit m.next).holds j ≤
      w.places j + (Task.submit s).holds j +
        if m.access.kind = .request ∧ j = w.nextJob then 1 else 0 := by
  obtain ⟨inst, req, pc⟩ := s
  cases pc with
  | create =>
    simp only [Submit.step] at h
    split at h
    · obtain rfl := Option.some.inj h
      exact Nat.le_add_right _ _
    · next job hjob =>
      obtain rfl := Option.some.inj h
      obtain ⟨prompt, modelName, -, -, rfl⟩ := buildJob_ok hjob
      show w.places j + (if w.nextJob = j then 1 else 0) ≤ w.places j + 0 + _
      by_cases hj : w.nextJob = j
      · rw [if_pos hj, if_pos ⟨rfl, hj.symm⟩]
      · rw [if_neg hj]
        omega
  | enqueue job =>
    obtain rfl := Option.some.inj h
    have hplaces := places_enqueue (w := w) (j := j) job.id
      (w.now - tierBonus req.source req.keyTier) req.modelName w.now MAX_QUEUE_SIZE
      MAX_QUEUE_PER_MODEL
    have hnext : ∀ accepted : Bool, (Task.submit (Submit.goto ⟨inst, req, .enqueue job⟩
        (if accepted then .returned (.ok job.id) else .rejectDecr job))).holds j = 0 := by
      intro accepted
      cases accepted <;> rfl
    rw [hnext]
    exact hplaces
  | returned result => cases h
  | _ =>
    obtain rfl := Option.some.inj h
    exact Nat.le_add_right _ _

theorem reap_tokens {r : Reap} {m : Moved Reap} (hr : r.Leased w) (h : r.step w = some m)
    (j : Uuid) :
    (w.apply m.access).places j + (Task.reap m.next).holds j ≤
      w.places j + (Task.reap r).holds j := by
  obtain ⟨inst, pc⟩ := r
  cases pc with
  | list => obtain rfl := Option.some.inj h; exact le_rfl
  | each todo =>
    obtain rfl := Option.some.inj h
    cases todo with
    | nil => exact le_rfl
    | cons id todo =>
      have hnext : (Task.reap (Reap.each w ⟨inst, .each (id :: todo)⟩ (id :: todo))).holds j = 0 := by
        simp only [Reap.each, Reap.goto, Task.holds]
        split_ifs <;> rfl
      rw [hnext]
      exact le_rfl
  | takeOut id attempts todo =>
    obtain rfl := Option.some.inj h
    have hmem : id ∈ w.active := (hr.expired id (List.mem_cons_self ..)).mem
    show _ + (if id = j then 1 else 0) ≤ w.places j + 0
    by_cases hj : id = j
    · subst hj
      rw [if_pos rfl]
      exact places_leaseRemove hmem
    · rw [if_neg hj]
      exact places_le (by rintro ⟨⟩)
  | setAttempts id attempts todo =>
    obtain rfl := Option.some.inj h
    exact le_rfl
  | getJob id todo =>
    simp only [Reap.step] at h
    split at h
    · obtain rfl := Option.some.inj h
      exact le_rfl
    · obtain rfl := Option.some.inj h
      exact Nat.add_le_add le_rfl (Nat.zero_le _)
  | enqueue id score model todo =>
    obtain rfl := Option.some.inj h
    exact places_enqueue id score model w.now U64_MAX U64_MAX
  | finished => cases h
  | _ =>
    obtain rfl := Option.some.inj h
    exact places_le (by rintro ⟨⟩)

theorem task_tokens {t : Task} {m : Moved Task} (h : t.step w choice = some m)
    (hrecover : ∀ r, t ≠ .recover r) (hreap : ∀ r, t = .reap r → r.Leased w) (j : Uuid) :
    (w.apply m.access).places j + m.next.holds j ≤
      w.places j + t.holds j + if m.access.kind = .request ∧ j = w.nextJob then 1 else 0 := by
  have hquiet : t.mayAccess .enqueue = false → (w.apply m.access).places j + 0 ≤
      w.places j + 0 + if m.access.kind = .request ∧ j = w.nextJob then 1 else 0 := by
    intro hkind
    exact Nat.le_add_right_of_le (places_le (ne_of_mayAccess (task_mayAccess h) hkind))
  cases Task.step_moved h with
  | submit hs => exact submit_tokens hs j
  | reap hs => exact Nat.le_add_right_of_le (reap_tokens (hreap _ rfl) hs j)
  | recover hs => exact absurd rfl (hrecover _)
  | _ => exact hquiet rfl

theorem spawn_holds (s : Spawn) (j : Uuid) : s.task.holds j = 0 := by
  cases s <;> rfl

/-- The reaper's own step: what it takes out is not on the rest of its list. -/
theorem reap_leased {r : Reap} {m : Moved Reap} (hr : r.Leased w) (h : r.step w = some m) :
    m.next.Leased (w.apply m.access) := by
  obtain ⟨inst, pc⟩ := r
  obtain ⟨hexp, hnodup⟩ := hr
  have hcons : ∀ {id : Uuid} {todo : List Uuid}, (id :: todo).Nodup → todo.Nodup := fun h =>
    (List.nodup_cons.mp h).2
  -- a job on the rest of the list is not the one whose lease is removed
  have hrest : ∀ {id : Uuid} {todo : List Uuid}, (id :: todo).Nodup → (∀ j ∈ todo, w.Expired j) →
      ∀ j ∈ todo, (w.apply (.leaseRemove id)).Expired j := by
    intro id todo hn he j hj
    refine (he j hj).apply (by rintro ⟨⟩) (fun heq => ?_) (by rintro _ ⟨⟩)
    obtain rfl := Access.leaseRemove.inj heq
    exact (List.nodup_cons.mp hn).1 hj
  cases pc with
  | list =>
    obtain rfl := Option.some.inj h
    exact ⟨fun j hj => expired_of_mem_leaseExpired hj, leaseExpired_nodup w w.now⟩
  | each todo =>
    obtain rfl := Option.some.inj h
    cases todo with
    | nil => exact ⟨by rintro _ ⟨⟩, trivial⟩
    | cons id todo =>
      simp only [Reap.each, Reap.goto]
      split
      · exact ⟨fun j hj => hexp j (List.mem_cons_of_mem _ hj), hnodup⟩
      · exact ⟨hexp, hnodup⟩
  | giveUpRow id todo => obtain rfl := Option.some.inj h; exact ⟨hexp, hnodup⟩
  | giveUpLease id todo => obtain rfl := Option.some.inj h; exact ⟨hrest hnodup hexp, hnodup⟩
  | giveUpAttempts id todo => obtain rfl := Option.some.inj h; exact ⟨hexp, hcons hnodup⟩
  | takeOut id attempts todo =>
    obtain rfl := Option.some.inj h
    exact ⟨hrest hnodup fun j hj => hexp j (List.mem_cons_of_mem _ hj), hnodup⟩
  | setAttempts id attempts todo => obtain rfl := Option.some.inj h; exact ⟨hexp, hnodup⟩
  | getJob id todo =>
    simp only [Reap.step] at h
    split at h <;> (obtain rfl := Option.some.inj h; exact ⟨hexp, hnodup⟩)
  | enqueue id score model todo => obtain rfl := Option.some.inj h; exact ⟨hexp, hcons hnodup⟩
  | leaseAgain id todo =>
    obtain rfl := Option.some.inj h
    exact ⟨hrest hnodup hexp, hcons hnodup⟩
  | finished => cases h

end Steps

theorem Reap.Leased.env {w w' : World} (henv : World.Env w w') {r : Reap} (hr : r.Leased w) :
    r.Leased w' := by
  refine ⟨fun j hj => ?_, hr.nodup⟩
  obtain ⟨deadline, hlookup, hle⟩ := hr.expired j hj
  cases henv with
  | tick elapsed => exact ⟨deadline, hlookup, Nat.le_add_right_of_le hle⟩
  | _ => exact ⟨deadline, hlookup, hle⟩

/-- A job whose lease is there is not queued. -/
theorem Config.Leased.notMem_zset {c : Config} (hc : c.Leased) {j : Uuid}
    (h : j ∈ c.world.active) : j ∉ c.world.queue.zset := by
  intro hz
  have htokens := hc.tokens j
  unfold Config.tokens World.places Veronex.places at htokens
  rw [if_pos h, if_pos hz] at htokens
  split_ifs at htokens <;> omega

theorem leased_step {c c' : Config} {a : Action} (hc : c.Leased) (hok : LeasesUndisturbed c a)
    (h : ConfigMoved c a c') : c'.Leased := by
  cases h with
  | @start s hcan =>
    have hnew : ∀ t, t ∈ c.tasks ++ [Config.started c s] → t ∈ c.tasks ∨ t = Config.started c s :=
      fun t ht => (List.mem_append.mp ht).imp_right List.mem_singleton.mp
    refine ⟨fun r hr => ?_, fun j => ?_, fun r hr => ?_⟩
    · rcases hnew _ hr with hr | hr
      · exact hc.noRecovery r hr
      · cases s <;> cases hr
        exact hok
    · have hzero : (Config.started c s).holds j = 0 := by cases s <;> rfl
      have htokens : c.world.places j + weight (Task.holds j) (c.tasks ++ [c.started s]) =
          c.tokens j := by
        rw [weight_append, weight_cons, hzero]
        rfl
      exact htokens.trans_le (hc.tokens j)
    · rcases hnew _ hr with hr | hr
      · exact hc.reapers r hr
      · cases s <;> cases hr
        exact ⟨by rintro _ ⟨⟩, trivial⟩
  | @run k choice t m others tasks hk hm hreplaced hothers =>
    have hreap : ∀ r, t = .reap r → r.Leased c.world := by
      rintro r rfl
      exact hc.reapers r hreplaced.task_mem
    have hrecover : ∀ r, t ≠ .recover r := by
      rintro r rfl
      exact hc.noRecovery r hreplaced.task_mem
    refine ⟨fun r hr => ?_, fun j => ?_, fun r hr => ?_⟩
    · rcases hreplaced.mem_after.mp hr with hnext | hother | hnew
      · cases Task.step_moved hm with
        | recover hs => exact hrecover _ rfl
        | _ => cases hnext
      · exact hc.noRecovery r (hreplaced.other_mem_before hother)
      · obtain ⟨s, -, hs⟩ := List.mem_map.mp hnew
        cases s <;> cases hs
    · have hstep := task_tokens hm hrecover hreap j
      have hbefore := hreplaced.weight_before (Task.holds j)
      have hafter := hreplaced.weight_after (Task.holds j)
      have hspawned : weight (Task.holds j) (m.spawned.map Spawn.task) = 0 := by
        rw [weight_eq_zero]
        intro u hu
        obtain ⟨s, -, rfl⟩ := List.mem_map.mp hu
        exact spawn_holds s j
      have hc' := hc.tokens j
      unfold Config.tokens at hc' ⊢
      by_cases hkind : m.access.kind = .request
      · have hnextJob := apply_nextJob_request c.world hkind
        dsimp only
        rw [hnextJob]
        simp only [hkind, true_and] at hstep
        rcases lt_trichotomy j c.world.nextJob with hj | hj | hj
        · rw [if_neg hj.ne] at hstep
          rw [if_pos hj] at hc'
          rw [if_pos (Nat.lt_succ_of_lt hj)]
          omega
        · rw [if_pos hj] at hstep
          rw [if_neg hj.ge.not_gt] at hc'
          rw [if_pos (Nat.lt_succ_of_le hj.le)]
          omega
        · rw [if_neg hj.ne'] at hstep
          rw [if_neg hj.not_gt] at hc'
          rw [if_neg (Nat.not_lt.mpr hj)]
          omega
      · dsimp only
        rw [apply_nextJob c.world hkind]
        simp only [hkind, false_and, if_false] at hstep
        omega
    · rcases hreplaced.mem_after.mp hr with hnext | hother | hnew
      · cases Task.step_moved hm with
        | @reap r₀ n hs =>
          obtain rfl := Task.reap.inj hnext
          exact reap_leased (hreap _ rfl) hs
        | _ => cases hnext
      · obtain ⟨l, hl, hat⟩ := hothers _ hother
        have hr' := hc.reapers r (hreplaced.other_mem_before hother)
        refine ⟨fun j hj => ?_, hr'.nodup⟩
        obtain ⟨hremove, hrenew⟩ := hok t m hk hm l r hl hat j hj
        exact (hr'.expired j hj).apply
          (fun _ => hc.notMem_zset (hr'.expired j hj).mem) hremove hrenew
      · obtain ⟨s, -, hs⟩ := List.mem_map.mp hnew
        cases s <;> cases hs
  | restart inst =>
    have hmem : ∀ t ∈ (c.restarted inst).tasks, t ∈ c.tasks ∨ t = .killed := by
      intro t ht
      obtain ⟨u, hu, rfl⟩ := List.mem_map.mp ht
      split
      · exact .inr rfl
      · exact .inl hu
    refine ⟨fun r hr => ?_, fun j => ?_, fun r hr => ?_⟩
    · exact hc.noRecovery r ((hmem _ hr).resolve_right (by rintro ⟨⟩))
    · refine le_trans (Nat.add_le_add_left (weight_map_le _ fun t _ => ?_) _) (hc.tokens j)
      split
      · exact Nat.zero_le _
      · exact le_rfl
    · exact (hc.reapers r ((hmem _ hr).resolve_right (by rintro ⟨⟩))).env (.restart inst)
  | tick elapsed =>
    exact ⟨hc.noRecovery, hc.tokens, fun r hr => (hc.reapers r hr).env (.tick elapsed)⟩
  | owner id i => exact ⟨hc.noRecovery, hc.tokens, fun r hr => (hc.reapers r hr).env (.owner id i)⟩
  | heartbeat i alive =>
    exact ⟨hc.noRecovery, hc.tokens, fun r hr => (hc.reapers r hr).env (.heartbeat i alive)⟩

theorem leased_reachable {d : Deployment} {c : Config}
    (h : Run Config.step LeasesUndisturbed (Config.init d) c) : c.Leased := by
  refine h.invariant ⟨fun r hr => ?_, fun j => ?_, fun r hr => ?_⟩ fun c c' a _ hc hok hs =>
    leased_step hc hok (Config.step_moved hs)
  · cases hr
  · have hzero : (Config.init d).tokens j = 0 := rfl
    rw [hzero]
    exact Nat.zero_le _
  · cases hr

/-! ## A lease renewed in time -/

/-- The lease of a job, while it is there, has not expired. -/
def LeaseLive (j : Uuid) (c : Config) : Prop :=
  ∀ deadline, c.world.active.lookup j = some deadline → c.world.now < deadline

/-- The job is neither queued nor in the hands of a task that would queue it. -/
structure Config.OffQueue (c : Config) (j : Uuid) : Prop where
  made : j < c.world.nextJob
  zset : j ∉ c.world.queue.zset
  held : ∀ t ∈ c.tasks, t.holds j = 0

/-- A lease that is there keeps its job off the queue. -/
theorem Config.Leased.offQueue {c : Config} (hc : c.Leased) {j : Uuid}
    (h : j ∈ c.world.active) : c.OffQueue j := by
  have htokens := hc.tokens j
  have hplaces : 1 ≤ c.world.places j := by
    unfold World.places Veronex.places
    rw [if_pos h]
    omega
  have hmade : j < c.world.nextJob := by
    by_contra hj
    rw [if_neg hj, Config.tokens] at htokens
    omega
  refine ⟨hmade, hc.notMem_zset h, weight_eq_zero _ |>.mp ?_⟩
  rw [if_pos hmade, Config.tokens] at htokens
  omega

section OffQueue
variable {w : World} {choice : Choice} {j : Uuid}

/-- Only an enqueue of the job puts it into the queue. -/
theorem notMem_zset_apply {a : Access} (hz : j ∉ w.queue.zset)
    (ha : ∀ score model now maxSize maxPerModel,
      a ≠ .zsetEnqueue j score model now maxSize maxPerModel) :
    j ∉ (w.apply a).queue.zset := by
  cases a with
  | zsetEnqueue id score model now maxSize maxPerModel =>
    have hne : j ≠ id := by rintro rfl; exact ha score model now maxSize maxPerModel rfl
    simp only [World.apply, Queue.zsetEnqueue_eq]
    split
    · exact fun h => ((w.queue.mem_zset_enqueued id score model now).mp h).elim hne hz
    · exact hz
  | zsetClaim id model now =>
    simp only [World.apply, Queue.zsetClaim_eq]
    split
    · exact fun h => hz ((w.queue.mem_zset_dequeue id model).mp h).2
    · exact hz
  | zsetCancel id model =>
    simp only [World.apply, Queue.zsetCancel_eq]
    split
    · exact fun h => hz ((w.queue.mem_zset_dequeue id model).mp h).2
    · exact hz
  | _ => exact hz

theorem notMem_zset_of_kind {a : Access} (hz : j ∉ w.queue.zset) (ha : a.kind ≠ .enqueue) :
    j ∉ (w.apply a).queue.zset :=
  notMem_zset_apply hz fun _ _ _ _ _ heq => ha (by rw [heq, Access.kind])

theorem submit_offQueue {s : Submit} {m : Moved Submit} (h : s.step w = some m)
    (hmade : j < w.nextJob) (hz : j ∉ w.queue.zset) (hs : (Task.submit s).holds j = 0) :
    j ∉ (w.apply m.access).queue.zset ∧ (Task.submit m.next).holds j = 0 := by
  obtain ⟨inst, req, pc⟩ := s
  cases pc with
  | create =>
    simp only [Submit.step] at h
    split at h
    · obtain rfl := Option.some.inj h
      exact ⟨hz, rfl⟩
    · next job hjob =>
      obtain rfl := Option.some.inj h
      obtain ⟨prompt, modelName, -, -, rfl⟩ := buildJob_ok hjob
      exact ⟨hz, if_neg hmade.ne'⟩
  | enqueue job =>
    obtain rfl := Option.some.inj h
    have hne : job.id ≠ j := by
      intro heq
      simp [Task.holds, heq] at hs
    refine ⟨notMem_zset_apply hz fun _ _ _ _ _ heq => hne (Access.zsetEnqueue.inj heq).1, ?_⟩
    simp only [Submit.goto, Task.holds]
    split_ifs <;> rfl
  | returned result => cases h
  | _ =>
    obtain rfl := Option.some.inj h
    exact ⟨hz, hs⟩

theorem reap_offQueue {r : Reap} {m : Moved Reap} (h : r.step w = some m) (hr : r.Leased w)
    (hlive : ¬ w.Expired j) (hz : j ∉ w.queue.zset) (hs : (Task.reap r).holds j = 0) :
    j ∉ (w.apply m.access).queue.zset ∧ (Task.reap m.next).holds j = 0 := by
  obtain ⟨inst, pc⟩ := r
  cases pc with
  | each todo =>
    obtain rfl := Option.some.inj h
    refine ⟨hz, ?_⟩
    cases todo with
    | nil => rfl
    | cons id todo =>
      simp only [Reap.each, Reap.goto, Task.holds]
      split_ifs <;> rfl
  | takeOut id attempts todo =>
    obtain rfl := Option.some.inj h
    have hne : id ≠ j := by
      rintro rfl
      exact hlive (hr.expired id (List.mem_cons_self ..))
    exact ⟨hz, if_neg hne⟩
  | getJob id todo =>
    simp only [Reap.step] at h
    split at h
    · obtain rfl := Option.some.inj h
      exact ⟨hz, hs⟩
    · obtain rfl := Option.some.inj h
      exact ⟨hz, rfl⟩
  | enqueue id score model todo =>
    obtain rfl := Option.some.inj h
    have hne : id ≠ j := by
      intro heq
      simp [Task.holds, heq] at hs
    exact ⟨notMem_zset_apply hz fun _ _ _ _ _ heq => hne (Access.zsetEnqueue.inj heq).1, rfl⟩
  | finished => cases h
  | _ =>
    obtain rfl := Option.some.inj h
    exact ⟨hz, hs⟩

/-- Only who holds a job enqueues it, and only the submission that makes it, or a reaper that finds
its lease expired, comes to hold it. -/
theorem task_offQueue {t : Task} {m : Moved Task} (h : t.step w choice = some m)
    (hrecover : ∀ r, t ≠ .recover r) (hreap : ∀ r, t = .reap r → r.Leased w)
    (hlive : ¬ w.Expired j) (hmade : j < w.nextJob) (hz : j ∉ w.queue.zset)
    (ht : t.holds j = 0) :
    j ∉ (w.apply m.access).queue.zset ∧ m.next.holds j = 0 := by
  have hquiet : t.mayAccess .enqueue = false → j ∉ (w.apply m.access).queue.zset := fun hkind =>
    notMem_zset_of_kind hz (ne_of_mayAccess (task_mayAccess h) hkind)
  cases Task.step_moved h with
  | submit hs => exact submit_offQueue hs hmade hz ht
  | reap hs => exact reap_offQueue hs (hreap _ rfl) hlive hz ht
  | recover hs => exact absurd rfl (hrecover _)
  | _ => exact ⟨hquiet rfl, rfl⟩

end OffQueue

theorem offQueue_step {c c' : Config} {a : Action} {j : Uuid} (hc : c.Leased)
    (hj : c.OffQueue j) (hlive : LeaseLive j c) (h : ConfigMoved c a c') : c'.OffQueue j := by
  have hexp : ¬ c.world.Expired j := by
    rintro ⟨deadline, hlookup, hle⟩
    exact absurd (hlive deadline hlookup) hle.not_gt
  cases h with
  | @start s hcan =>
    refine ⟨hj.made, hj.zset, fun t ht => ?_⟩
    rcases List.mem_append.mp ht with ht | ht
    · exact hj.held t ht
    · obtain rfl := List.mem_singleton.mp ht
      cases s <;> rfl
  | @run k choice t m others tasks hk hm hreplaced _ =>
    have ht := hreplaced.task_mem
    obtain ⟨hz, hnext⟩ := task_offQueue hm
      (by rintro r rfl; exact hc.noRecovery r ht) (by rintro r rfl; exact hc.reapers r ht)
      hexp hj.made hj.zset (hj.held t ht)
    refine ⟨hj.made.trans_le (nextJob_le_apply _ _), hz, hreplaced.forall_mem
      (fun u hu => hj.held u (hreplaced.other_mem_before hu)) hnext fun u hu => ?_⟩
    obtain ⟨s, -, rfl⟩ := List.mem_map.mp hu
    exact spawn_holds s j
  | restart inst =>
    refine ⟨hj.made, hj.zset, fun t ht => ?_⟩
    obtain ⟨u, hu, rfl⟩ := List.mem_map.mp ht
    split
    · rfl
    · exact hj.held u hu
  | tick elapsed => exact ⟨hj.made, hj.zset, hj.held⟩
  | owner id i => exact ⟨hj.made, hj.zset, hj.held⟩
  | heartbeat i alive => exact ⟨hj.made, hj.zset, hj.held⟩

/-- A reaper takes out only leases that have expired, and a job whose lease is kept from expiring,
whoever executes it, is not queued. -/
theorem reaper_takes_expired_leases {d : Deployment} {c : Config}
    (h : Run Config.step LeasesUndisturbed (Config.init d) c) :
    (∀ r id attempts todo, .reap r ∈ c.tasks → r.pc = .takeOut id attempts todo →
      c.world.Expired id) ∧
    ∀ j c', j ∈ c.world.active →
      Run Config.step (fun c a => LeasesUndisturbed c a ∧ LeaseLive j c) c c' →
        j ∉ c'.world.queue.zset := by
  refine ⟨fun r id attempts todo hr hpc => ?_, fun j c' hj hrun => ?_⟩
  · refine ((leased_reachable h).reapers r hr).expired id ?_
    rw [hpc]
    exact List.mem_cons_self ..
  · have hinv : c'.Leased ∧ c'.OffQueue j := by
      have hc := leased_reachable h
      refine Run.invariant (I := fun x : Config => x.Leased ∧ x.OffQueue j) hrun
        ⟨hc, hc.offQueue hj⟩ ?_
      rintro x y a - ⟨hx, hxj⟩ ⟨hok, hlive⟩ hs
      exact ⟨leased_step hx hok (Config.step_moved hs),
        offQueue_step hx hxj hlive (Config.step_moved hs)⟩
    exact hinv.2.zset

/-- Whether no recovery is started and nobody but a reaper itself moves while it has jobs listed. -/
def reapersAlone (c : Config) : Action → Bool
  | .start (.recover _) => false
  | .run k _ => (List.range c.tasks.length).all fun l =>
      l = k || match c.tasks[l]? with
        | some (.reap r) => r.pc.listed = []
        | _ => true
  | _ => true

theorem leasesUndisturbed_of_reapersAlone (c : Config) (a : Action)
    (h : reapersAlone c a = true) : LeasesUndisturbed c a := by
  cases a with
  | start s =>
    cases s with
    | recover inst => cases h
    | _ => trivial
  | run k choice =>
    intro t m _ _ l r hl hr j hj
    have hlen : l < c.tasks.length := (List.getElem?_eq_some_iff.mp hr).1
    have hall := List.all_eq_true.mp h l (List.mem_range.mpr hlen)
    rw [hr] at hall
    have hnil : r.pc.listed = [] := by simpa [hl] using hall
    rw [hnil] at hj
    cases hj
  | _ => trivial

/-- A reaper that takes out the lease of job 0 next. -/
def Task.takesOutZero : Task → Bool
  | .reap r => r.pc = .takeOut 0 0 []
  | _ => false

/-- The lease of a job of a crashed instance runs out and a reaper takes it out. -/
theorem reaper_takes_lease_of_crashed_instance :
    ∃ c r, Run Config.step LeasesUndisturbed (Config.init twoInstances) c ∧ .reap r ∈ c.tasks ∧
      r.pc = .takeOut 0 0 [] ∧ c.world.Expired 0 := by
  have hexec : (exec Config.step reapersAlone (Config.init twoInstances)
      (.flatten [submitThenDispatch (plainRequest "hi") 0 2,
        [.restart 0, .tick LEASE_TTL_MS, .start (.reap 1), .run 3 .go, .run 3 .go]])).any (fun c =>
          c.tasks.any Task.takesOutZero) = true := by decide +kernel
  obtain ⟨c, hrun, hc⟩ := Run.exists_of_exec leasesUndisturbed_of_reapersAlone hexec
  obtain ⟨t, ht, hp⟩ := List.any_eq_true.mp hc
  cases t with
  | reap r =>
    have hpc : r.pc = .takeOut 0 0 [] := of_decide_eq_true hp
    exact ⟨c, r, hrun, ht, hpc, (reaper_takes_expired_leases hrun).1 r 0 0 [] ht hpc⟩
  | _ => cases hp

/-- Two reapers find the lease of a crashed instance expired. The first enqueues the job, a
dispatcher claims it again, and the second takes out the lease of its new worker. -/
theorem reaper_takes_live_lease :
    ∃ c r c' v, Run Config.step (fun _ _ => True) (Config.init twoInstances) c ∧
      .reap r ∈ c.tasks ∧ r.pc = .takeOut 0 0 [] ∧ ¬ c.world.Expired 0 ∧ 0 ∈ c.world.active ∧
      Run Config.step (fun c _ => LeaseLive 0 c) c c' ∧ 0 ∈ c'.world.queue.zset ∧
      .run v ∈ c'.tasks ∧ v.uuid = 0 ∧ (Task.run v).ended = false := by
  let live : Config → Bool := fun c => (c.world.active.lookup 0).all fun d => c.world.now < d
  have hlive : ∀ c, live c = true → LeaseLive 0 c := by
    intro c h deadline hlookup
    simpa [live, hlookup] using h
  have hexec : (exec Config.step (fun _ _ => true) (Config.init twoInstances)
      (.flatten [submitThenDispatch (plainRequest "hi") 0 2,
        [.restart 0, .tick LEASE_TTL_MS, .start (.reap 0), .start (.reap 1),
          .run 3 .go, .run 4 .go, .run 3 .go, .run 4 .go],
        List.replicate 4 (.run 3 .go), .start (.dispatch 1) :: List.replicate 6 (.run 5 .go),
        [.run 5 (.scores (fun _ => false) 1), .run 5 (.provider 1 false)],
        List.replicate 4 (.run 5 .go)])).any (fun c =>
          c.tasks.any Task.takesOutZero && live c && decide (0 ∈ c.world.active) &&
            (exec Config.step (fun c _ => live c) c (List.replicate 4 (.run 4 .go))).any fun c' =>
              decide (0 ∈ c'.world.queue.zset) &&
                c'.anyWorker fun v => v.uuid = 0 ∧ (Task.run v).ended = false) = true := by
    decide +kernel
  obtain ⟨c, hrun, hc⟩ : ∃ c, Run Config.step (fun _ _ => True) _ c ∧ _ = true :=
    Run.exists_of_exec (fun _ _ _ => trivial) hexec
  obtain ⟨hc, hrest⟩ := (Bool.and_eq_true _ _).mp hc
  obtain ⟨hc, hactive⟩ := (Bool.and_eq_true _ _).mp hc
  obtain ⟨htakes, hc⟩ := (Bool.and_eq_true _ _).mp hc
  obtain ⟨c', hrun', hc'⟩ := Run.exists_of_exec (fun c _ h => hlive c h) hrest
  obtain ⟨hzset, hworker⟩ := (Bool.and_eq_true _ _).mp hc'
  obtain ⟨v, hv, hp⟩ := Config.mem_of_anyWorker hworker
  obtain ⟨huuid, hended⟩ := of_decide_eq_true hp
  obtain ⟨t, ht, hpc⟩ := List.any_eq_true.mp htakes
  have hunexpired : ¬ c.world.Expired 0 := by
    rintro ⟨deadline, hlookup, hle⟩
    exact absurd (hlive c hc deadline hlookup) hle.not_gt
  cases t with
  | reap r =>
    exact ⟨c, r, c', v, hrun, ht, of_decide_eq_true hpc, hunexpired, of_decide_eq_true hactive,
      hrun', of_decide_eq_true hzset, hv, huuid, hended⟩
  | _ => cases hpc

end Veronex
