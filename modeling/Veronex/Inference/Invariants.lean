import Veronex.Inference.Cluster

/-! # Rules for invariants of the cluster

`local_invariant` is the induction for invariants that speak about the shared state and about each
task on its own. What an access leaves alone is read off its footprint: the entry, the row, the
queue member or the lease it may change.
-/
namespace Veronex
open Concurrency
set_option autoImplicit false

/-! ## Faults and time -/

/-- What the surroundings do to the shared state. -/
inductive World.Env (w : World) : World → Prop
  | tick (elapsed : Millis) : World.Env w { w with now := w.now + elapsed }
  | restart (inst : InstanceId) :
      World.Env w
        { w with
          jobs := Function.update w.jobs inst fun _ => none
          cancelNotifiers := Function.update w.cancelNotifiers inst fun _ => none }
  | owner (id : Uuid) (inst : Option InstanceId) :
      World.Env w { w with owner := Function.update w.owner id inst }
  | heartbeat (inst : InstanceId) (alive : Bool) :
      World.Env w { w with heartbeat := Function.update w.heartbeat inst alive }

/-- An invariant `W` of the shared state and a local one `T` of every task, kept by every step. -/
theorem local_invariant {ok : Config → Action → Prop} {d : Deployment} {W : World → Prop}
    {T : World → Task → Prop} (hinit : W (World.init d))
    (hstart : ∀ c s, T c.world (Config.started c s)) (hkilled : ∀ w, T w .killed)
    (henv : ∀ w w', World.Env w w' → W w → W w' ∧ ∀ t, T w t → T w' t)
    (hrun : ∀ c k choice t m, W c.world → T c.world t → ok c (.run k choice) →
      c.tasks[k]? = some t → t.step c.world choice = some m →
      W (c.world.apply m.access) ∧ T (c.world.apply m.access) m.next ∧
        (∀ s ∈ m.spawned, T (c.world.apply m.access) s.task) ∧
        ∀ u, T c.world u → T (c.world.apply m.access) u)
    {c : Config} (h : Run Config.step ok (Config.init d) c) :
    W c.world ∧ ∀ t ∈ c.tasks, T c.world t := by
  refine Run.invariant (I := fun c : Config => W c.world ∧ ∀ t ∈ c.tasks, T c.world t) h
    ⟨hinit, by intro t ht; cases ht⟩ ?_
  intro c c' a _ ⟨hw, ht⟩ hok hs
  have hchange : ∀ w', World.Env c.world w' → W w' ∧ ∀ t ∈ c.tasks, T w' t := fun w' hw' =>
    ⟨(henv _ _ hw' hw).1, fun t hmem => (henv _ _ hw' hw).2 t (ht t hmem)⟩
  cases Config.step_moved hs with
  | @start s hcan =>
    refine ⟨hw, fun t hmem => ?_⟩
    rcases List.mem_append.mp hmem with hmem | hmem
    · exact ht t hmem
    · obtain rfl := List.mem_singleton.mp hmem
      exact hstart c s
  | @run k choice t m others tasks hk hm hreplaced hothers =>
    obtain ⟨hw', hnext, hspawned, hothers⟩ :=
      hrun c k choice t m hw (ht t hreplaced.task_mem) hok hk hm
    refine ⟨hw', hreplaced.forall_mem (fun u hu => ?_) hnext fun u hu => ?_⟩
    · exact hothers u (ht u (hreplaced.other_mem_before hu))
    · obtain ⟨s, hs, rfl⟩ := List.mem_map.mp hu
      exact hspawned s hs
  | tick elapsed => exact hchange _ (.tick elapsed)
  | restart inst =>
    obtain ⟨hw', ht'⟩ := hchange _ (.restart inst)
    refine ⟨hw', fun t hmem => ?_⟩
    obtain ⟨u, hu, rfl⟩ := List.mem_map.mp hmem
    split
    · exact hkilled _
    · exact ht' u hu
  | owner id inst => exact hchange _ (.owner id inst)
  | heartbeat inst alive => exact hchange _ (.heartbeat inst alive)

/-! ## Footprints -/

/-- The part of the shared state an access writes. `other` is what the properties here do not
speak about: flags, conversations, attempts, the running counter, the TPM buckets. -/
inductive AccessKind
  | other
  | request
  | saveRow
  | endRow
  | resetRow
  | makeEntry
  | updateEntry
  | removeEntry
  | notifier
  | notify
  | await
  | pending
  | enqueue
  | claim
  | dequeue
  | leaseRenew
  | leaseRemove
  | owner
  deriving DecidableEq

def Access.kind : Access → AccessKind
  | .newJob _ _ => .request
  | .saveRow _ => .saveRow
  | .cancelRow _ _ | .failRow _ _ _ | .finalizeRow _ _ => .endRow
  | .updateStatus _ _ => .resetRow
  | .insertEntry _ _ _ | .orInsertEntry _ _ _ => .makeEntry
  | .updateEntry _ _ _ => .updateEntry
  | .removeEntry _ _ => .removeEntry
  | .insertNotifier _ _ _ | .removeNotifier _ _ => .notifier
  | .notifyOne _ => .notify
  | .takePermit _ | .awaitNotify _ _ => .await
  | .incrPending _ => .pending
  | .zsetEnqueue _ _ _ _ _ _ => .enqueue
  | .zsetClaim _ _ _ => .claim
  | .zsetCancel _ _ => .dequeue
  | .leaseRenew _ _ => .leaseRenew
  | .leaseRemove _ => .leaseRemove
  | .setOwner _ _ | .refreshOwner _ _ | .removeOwner _ => .owner
  | _ => .other

section Frames
variable (w : World) {a : Access}

theorem apply_queue (henq : a.kind ≠ .enqueue) (hclaim : a.kind ≠ .claim)
    (hdeq : a.kind ≠ .dequeue) : (w.apply a).queue = w.queue := by
  cases a <;> first | rfl | exact absurd rfl henq | exact absurd rfl hclaim | exact absurd rfl hdeq

theorem apply_pending (h : a.kind ≠ .pending) : (w.apply a).pending = w.pending := by
  cases a <;> first | rfl | exact absurd rfl h

theorem apply_owner (h : a.kind ≠ .owner) : (w.apply a).owner = w.owner := by
  cases a <;> first | rfl | exact absurd rfl h

theorem apply_heartbeat (a : Access) : (w.apply a).heartbeat = w.heartbeat := by
  cases a <;> rfl

theorem apply_now (a : Access) : (w.apply a).now = w.now := by
  cases a <;> rfl

theorem apply_nextJob (h : a.kind ≠ .request) : (w.apply a).nextJob = w.nextJob := by
  cases a <;> first | rfl | exact absurd rfl h

theorem apply_nextJob_request (h : a.kind = .request) :
    (w.apply a).nextJob = w.nextJob + 1 := by
  cases a with
  | newJob inst req => rfl
  | _ => cases h

theorem nextJob_le_apply (a : Access) : w.nextJob ≤ (w.apply a).nextJob := by
  cases a with
  | newJob inst req => exact Nat.le_succ _
  | _ => exact le_rfl

end Frames

/-! ## Entries and rows -/

section Update
variable {β : Type} (f : InstanceId → Uuid → β) (i i' : InstanceId) (j j' : Uuid) (b : β)

@[simp] theorem update₂_self : update₂ f i j b i j = b := by
  simp [update₂]

theorem update₂_of_ne (h : ¬ (i' = i ∧ j' = j)) : update₂ f i j b i' j' = f i' j' := by
  by_cases hi : i' = i
  · subst hi
    have hj : j' ≠ j := fun hj => h ⟨rfl, hj⟩
    simp [update₂, Function.update_of_ne hj]
  · simp [update₂, Function.update_of_ne hi]

end Update

/-- Where an entry that is there after an access comes from. -/
theorem apply_jobs {w : World} {a : Access} {i : InstanceId} {j : Uuid} {e : JobEntry}
    (h : (w.apply a).jobs i j = some e) :
    w.jobs i j = some e ∨ (∃ e₀ u, w.jobs i j = some e₀ ∧ a = .updateEntry i j u ∧ e = u.apply e₀) ∨
      a = .insertEntry i j e ∨ (w.jobs i j = none ∧ a = .orInsertEntry i j e) := by
  cases a with
  | insertEntry i' j' e' =>
    by_cases hij : i = i' ∧ j = j'
    · obtain ⟨rfl, rfl⟩ := hij
      have heq : e' = e := by simpa [World.apply] using h
      exact .inr (.inr (.inl (by rw [heq])))
    · exact .inl (by simpa [World.apply, update₂_of_ne _ _ _ _ _ _ hij] using h)
  | orInsertEntry i' j' e' =>
    by_cases hij : i = i' ∧ j = j'
    · obtain ⟨rfl, rfl⟩ := hij
      have hor : (w.jobs i j).or (some e') = some e := by simpa [World.apply] using h
      cases hjob : w.jobs i j with
      | none =>
        rw [hjob] at hor
        obtain rfl := Option.some.inj hor
        exact .inr (.inr (.inr ⟨rfl, rfl⟩))
      | some e₀ =>
        rw [hjob] at hor
        obtain rfl := Option.some.inj hor
        exact .inl rfl
    · exact .inl (by simpa [World.apply, update₂_of_ne _ _ _ _ _ _ hij] using h)
  | updateEntry i' j' u =>
    by_cases hij : i = i' ∧ j = j'
    · obtain ⟨rfl, rfl⟩ := hij
      have hmap : (w.jobs i j).map u.apply = some e := by simpa [World.apply] using h
      obtain ⟨e₀, he₀, rfl⟩ := Option.map_eq_some_iff.mp hmap
      exact .inr (.inl ⟨e₀, u, he₀, rfl, rfl⟩)
    · exact .inl (by simpa [World.apply, update₂_of_ne _ _ _ _ _ _ hij] using h)
  | removeEntry i' j' =>
    by_cases hij : i = i' ∧ j = j'
    · obtain ⟨rfl, rfl⟩ := hij
      simp [World.apply] at h
    · exact .inl (by simpa [World.apply, update₂_of_ne _ _ _ _ _ _ hij] using h)
  | _ => exact .inl h

/-- The columns no `UPDATE` of a row touches. -/
structure SameRow (row row' : JobRow) : Prop where
  id : row'.id = row.id
  promptPreview : row'.promptPreview = row.promptPreview
  modelName : row'.modelName = row.modelName

theorem SameRow.refl (row : JobRow) : SameRow row row := ⟨rfl, rfl, rfl⟩

theorem JobRow.sameRow_cancel (row : JobRow) (at' : Millis) : SameRow row (row.cancel at') := by
  unfold cancel
  split <;> exact ⟨rfl, rfl, rfl⟩

theorem JobRow.sameRow_failWithReason (row : JobRow) (reason : String) (error : Option String) :
    SameRow row (row.failWithReason reason error) := by
  unfold failWithReason
  split <;> exact ⟨rfl, rfl, rfl⟩

theorem JobRow.sameRow_finalize (row : JobRow) (m : FinalMetrics) :
    SameRow row (row.finalize m) := by
  unfold finalize
  split <;> exact ⟨rfl, rfl, rfl⟩

theorem updateRow_rows {w : World} {id j : Uuid} {f : JobRow → JobRow} {row : JobRow}
    (hf : ∀ row, SameRow row (f row)) (h : (w.updateRow id f).rows j = some row) :
    ∃ row₀, w.rows j = some row₀ ∧ SameRow row₀ row := by
  by_cases hj : j = id
  · subst hj
    have hmap : (w.rows j).map f = some row := by simpa [World.updateRow] using h
    obtain ⟨row₀, hrow₀, rfl⟩ := Option.map_eq_some_iff.mp hmap
    exact ⟨row₀, hrow₀, hf row₀⟩
  · exact ⟨row, by simpa [World.updateRow, Function.update_of_ne hj] using h, .refl row⟩

/-- Where a row that is there after an access comes from. -/
theorem apply_rows {w : World} {a : Access} {j : Uuid} {row : JobRow}
    (h : (w.apply a).rows j = some row) :
    (∃ row₀, w.rows j = some row₀ ∧ SameRow row₀ row) ∨
      (w.rows j = none ∧ row.id = j ∧ a = .saveRow row) := by
  have hsame : w.rows j = some row → ∃ row₀, w.rows j = some row₀ ∧ SameRow row₀ row :=
    fun h => ⟨row, h, .refl row⟩
  cases a with
  | saveRow row' =>
    by_cases hj : j = row'.id
    · subst hj
      have hor : (w.rows row'.id).or (some row') = some row := by simpa [World.apply] using h
      cases hrow : w.rows row'.id with
      | none =>
        rw [hrow] at hor
        obtain rfl := Option.some.inj hor
        exact .inr ⟨rfl, rfl, rfl⟩
      | some row₀ =>
        rw [hrow] at hor
        obtain rfl := Option.some.inj hor
        exact .inl ⟨_, rfl, .refl _⟩
    · exact .inl (hsame (by simpa [World.apply, Function.update_of_ne hj] using h))
  | cancelRow id at' => exact .inl (updateRow_rows (fun row => row.sameRow_cancel at') h)
  | failRow id reason error =>
    exact .inl (updateRow_rows (fun row => row.sameRow_failWithReason reason error) h)
  | finalizeRow id m => exact .inl (updateRow_rows (fun row => row.sameRow_finalize m) h)
  | updateStatus id status =>
    have hf : ∀ row : JobRow, SameRow row { row with status } := fun row => ⟨rfl, rfl, rfl⟩
    exact .inl (updateRow_rows hf h)
  | _ => exact .inl (hsame h)

/-- The row an access writes. -/
def Access.rowId : Access → Option Uuid
  | .saveRow row => some row.id
  | .cancelRow id _ | .failRow id _ _ | .finalizeRow id _ | .updateStatus id _ => some id
  | _ => none

theorem rowId_of_kind {a : Access} (hsave : a.kind ≠ .saveRow) (hend : a.kind ≠ .endRow)
    (hreset : a.kind ≠ .resetRow) : a.rowId = none := by
  cases a <;> first
    | rfl
    | exact absurd rfl hsave
    | exact absurd rfl hend
    | exact absurd rfl hreset

theorem apply_rows_of_ne {w : World} {a : Access} {j : Uuid} (h : a.rowId ≠ some j) :
    (w.apply a).rows j = w.rows j := by
  cases a with
  | saveRow row => exact Function.update_of_ne (fun hj => h (by rw [hj]; rfl)) _ _
  | cancelRow id at' => exact Function.update_of_ne (fun hj => h (by rw [hj]; rfl)) _ _
  | failRow id reason error => exact Function.update_of_ne (fun hj => h (by rw [hj]; rfl)) _ _
  | finalizeRow id m => exact Function.update_of_ne (fun hj => h (by rw [hj]; rfl)) _ _
  | updateStatus id status => exact Function.update_of_ne (fun hj => h (by rw [hj]; rfl)) _ _
  | _ => rfl

theorem updateRow_self (w : World) (j : Uuid) (f : JobRow → JobRow) :
    (w.updateRow j f).rows j = (w.rows j).map f :=
  Function.update_self ..

/-- Rows are never deleted. -/
theorem rows_ne_none {w : World} (a : Access) {j : Uuid} (h : w.rows j ≠ none) :
    (w.apply a).rows j ≠ none := by
  by_cases hj : a.rowId = some j
  swap
  · rwa [apply_rows_of_ne hj]
  cases a with
  | saveRow row =>
    obtain rfl : row.id = j := Option.some.inj hj
    simp [World.apply]
  | cancelRow id at' =>
    obtain rfl : id = j := Option.some.inj hj
    simpa [World.apply, updateRow_self] using h
  | failRow id reason error =>
    obtain rfl : id = j := Option.some.inj hj
    simpa [World.apply, updateRow_self] using h
  | finalizeRow id m =>
    obtain rfl : id = j := Option.some.inj hj
    simpa [World.apply, updateRow_self] using h
  | updateStatus id status =>
    obtain rfl : id = j := Option.some.inj hj
    simpa [World.apply, updateRow_self] using h
  | _ => cases hj

/-- The row of the job is completed, failed or cancelled. -/
def World.RowEnded (w : World) (j : Uuid) : Prop :=
  ∃ row, w.rows j = some row ∧ row.status.isTerminal = true

/-- A row that one of the three final updates names has ended. -/
theorem rowEnded_of_endRow {w : World} {a : Access} {j : Uuid} (hkind : a.kind = .endRow)
    (hj : a.rowId = some j) (h : w.rows j ≠ none) : (w.apply a).RowEnded j := by
  obtain ⟨row, hrow⟩ := Option.ne_none_iff_exists'.mp h
  cases a with
  | cancelRow id at' =>
    obtain rfl : id = j := Option.some.inj hj
    exact ⟨_, by rw [World.apply, updateRow_self, hrow]; rfl, row.cancel_isTerminal at'⟩
  | failRow id reason error =>
    obtain rfl : id = j := Option.some.inj hj
    exact ⟨_, by rw [World.apply, updateRow_self, hrow]; rfl,
      row.failWithReason_isTerminal reason error⟩
  | finalizeRow id m =>
    obtain rfl : id = j := Option.some.inj hj
    exact ⟨_, by rw [World.apply, updateRow_self, hrow]; rfl, row.finalize_isTerminal m⟩
  | _ => cases hkind

/-- A row that has ended stays so, as only recovery resets a status. -/
theorem World.RowEnded.apply {w : World} {a : Access} {j : Uuid} (h : w.RowEnded j)
    (ha : a.kind ≠ .resetRow) : (w.apply a).RowEnded j := by
  obtain ⟨row, hrow, hterminal⟩ := h
  by_cases hj : a.rowId = some j
  swap
  · exact ⟨row, by rwa [apply_rows_of_ne hj], hterminal⟩
  cases a with
  | saveRow row' =>
    obtain rfl : row'.id = j := Option.some.inj hj
    exact ⟨row, by simp [World.apply, hrow], hterminal⟩
  | cancelRow id at' => exact rowEnded_of_endRow rfl hj (by rw [hrow]; rintro ⟨⟩)
  | failRow id reason error => exact rowEnded_of_endRow rfl hj (by rw [hrow]; rintro ⟨⟩)
  | finalizeRow id m => exact rowEnded_of_endRow rfl hj (by rw [hrow]; rintro ⟨⟩)
  | updateStatus id status => exact absurd rfl ha
  | _ => cases hj

theorem mapM_ok_mem {α β ε : Type} {f : α → Except ε β} {xs : List α} {ys : List β}
    (h : xs.mapM f = .ok ys) {y : β} (hy : y ∈ ys) : ∃ x ∈ xs, f x = .ok y := by
  induction xs generalizing ys with
  | nil =>
    obtain rfl : ys = [] := by simpa [pure, Except.pure] using h.symm
    cases hy
  | cons x xs ih =>
    rw [List.mapM_cons] at h
    cases hx : f x with
    | error e => rw [hx] at h; cases h
    | ok b =>
      cases hrest : xs.mapM f with
      | error e => rw [hx, hrest] at h; cases h
      | ok bs =>
        rw [hx, hrest] at h
        cases h
        rcases List.mem_cons.mp hy with rfl | hy
        · exact ⟨x, List.mem_cons_self .., hx⟩
        · obtain ⟨x', hx', hfx⟩ := ih hrest hy
          exact ⟨x', List.mem_cons_of_mem _ hx', hfx⟩

/-- A listed job is read off a row that is there. -/
theorem listPending_mem {w : World} {jobs : List InferenceJob} (h : w.listPending = .ok jobs)
    {job : InferenceJob} (hjob : job ∈ jobs) : ∃ j row, w.rows j = some row ∧ rowToJob row = .ok job := by
  obtain ⟨row, hrow, hparse⟩ := mapM_ok_mem h hjob
  have hmem := (List.perm_insertionSort _ _).mem_iff.mp (List.mem_of_mem_take hrow)
  obtain ⟨j, -, hj⟩ := List.mem_filterMap.mp (List.mem_filter.mp hmem).1
  exact ⟨j, row, hj, hparse⟩

/-- A peeked job is queued. -/
theorem mem_zset_of_mem_zsetPeek {w : World} {k : ℕ} {entry : Uuid × ℕ} (h : entry ∈ w.zsetPeek k) :
    entry.1 ∈ w.queue.zset := by
  have hmem := (List.perm_insertionSort _ _).mem_iff.mp (List.mem_of_mem_take h)
  obtain ⟨id, hid, hentry⟩ := List.mem_filterMap.mp hmem
  obtain ⟨score, -, rfl⟩ := Option.map_eq_some_iff.mp hentry
  exact AList.mem_keys.mpr hid

/-- A listed lease is in the active set and due. -/
theorem lookup_of_mem_leaseExpired {w : World} {now : Millis} {j : Uuid}
    (h : j ∈ w.leaseExpired now) : ∃ deadline, w.active.lookup j = some deadline ∧ deadline ≤ now := by
  obtain ⟨entry, hentry, rfl⟩ := List.mem_map.mp h
  rw [(List.perm_insertionSort _ _).mem_iff] at hentry
  obtain ⟨id, -, hid⟩ := List.mem_filterMap.mp hentry
  obtain ⟨deadline, hlookup, hdue⟩ := Option.bind_eq_some_iff.mp hid
  split at hdue
  · next hle =>
    obtain rfl := Option.some.inj hdue
    exact ⟨deadline, hlookup, hle⟩
  · cases hdue

/-! ## The kinds of accesses of each task -/

def Submit.mayAccess : AccessKind → Bool
  | .request | .saveRow | .notifier | .makeEntry | .pending | .enqueue | .removeEntry
  | .endRow => true
  | _ => false

def Cancel.mayAccess : AccessKind → Bool
  | .other | .updateEntry | .notify | .pending | .endRow | .dequeue | .notifier => true
  | _ => false

def Stream.mayAccess : AccessKind → Bool
  | .other | .await => true
  | _ => false

def Dispatch.mayAccess : AccessKind → Bool
  | .other | .makeEntry | .updateEntry | .notify | .pending | .endRow | .claim | .dequeue
  | .leaseRemove | .owner => true
  | _ => false

def Worker.mayAccess : AccessKind → Bool
  | .other | .updateEntry | .notify | .await | .pending | .endRow | .notifier | .leaseRemove
  | .owner => true
  | _ => false

def Keepalive.mayAccess : AccessKind → Bool
  | .other | .leaseRenew => true
  | _ => false

def CancelMessage.mayAccess : AccessKind → Bool
  | .other | .notify => true
  | _ => false

def Drain.mayAccess : AccessKind → Bool
  | .other | .notify => true
  | _ => false

def Cleanup.mayAccess : AccessKind → Bool
  | .removeEntry => true
  | _ => false

def Sweep.mayAccess : AccessKind → Bool
  | .other | .removeEntry | .notifier => true
  | _ => false

def Recover.mayAccess : AccessKind → Bool
  | .other | .resetRow | .makeEntry | .enqueue => true
  | _ => false

def WaitCancel.mayAccess : AccessKind → Bool
  | .other | .dequeue | .endRow | .pending => true
  | _ => false

def Reap.mayAccess : AccessKind → Bool
  | .other | .endRow | .leaseRemove | .enqueue => true
  | _ => false

/-- A kind outside a footprint is not the kind of an access in it. -/
theorem ne_of_mayAccess {f : AccessKind → Bool} {k l : AccessKind} (hk : f k = true)
    (hl : f l = false) : k ≠ l := by
  rintro rfl
  rw [hk] at hl
  cases hl

section Kinds
variable {w : World} {choice : Choice}

theorem submit_mayAccess {s : Submit} {m : Moved Submit} (h : s.step w = some m) :
    Submit.mayAccess m.access.kind = true := by
  obtain ⟨inst, req, pc⟩ := s
  cases pc
  all_goals simp only [Submit.step] at h
  all_goals repeat' (split at h)
  all_goals first
    | (obtain rfl := Option.some.inj h; rfl)
    | cases h

theorem cancel_mayAccess {c : Cancel} {m : Moved Cancel} (h : c.step w = some m) :
    Cancel.mayAccess m.access.kind = true := by
  obtain ⟨inst, uuid, isLocal, prev, pc⟩ := c
  cases pc
  all_goals simp only [Cancel.step] at h
  all_goals repeat' (split at h)
  all_goals first
    | (obtain rfl := Option.some.inj h; rfl)
    | cases h

theorem stream_mayAccess {s : Stream} {m : Moved Stream} (h : s.step w = some m) :
    Stream.mayAccess m.access.kind = true := by
  obtain ⟨reader, inst, uuid, yielded, pc⟩ := s
  cases pc
  all_goals simp only [Stream.step] at h
  all_goals repeat' (split at h)
  all_goals first
    | (obtain rfl := Option.some.inj h; rfl)
    | cases h

theorem dispatch_mayAccess {d : Dispatch} {m : Moved Dispatch} (h : d.step w choice = some m) :
    Dispatch.mayAccess m.access.kind = true := by
  obtain ⟨inst, pc⟩ := d
  cases pc
  case load now todo scored =>
    obtain rfl := Option.some.inj h
    cases todo with
    | nil => rfl
    | cons entry todo =>
      simp only [Dispatch.loadStep]
      split <;> rfl
  case attempt rest =>
    cases rest with
    | nil => obtain rfl := Option.some.inj h; rfl
    | cons c rest =>
      simp only [Dispatch.step, Dispatch.attemptStep] at h
      split at h <;> first
        | (obtain rfl := Option.some.inj h; rfl)
        | cases h
  case failJob c rest pc =>
    obtain rfl := Option.some.inj h
    cases pc <;> simp only [Dispatch.failStep] <;> (try split) <;> rfl
  all_goals simp only [Dispatch.step] at h
  all_goals repeat' (split at h)
  all_goals first
    | (obtain rfl := Option.some.inj h; rfl)
    | cases h

theorem tpmAccess_kind (v : Worker) (tokens : ℕ) : (v.tpmAccess w tokens).kind = .other := by
  unfold Worker.tpmAccess
  split
  · rfl
  · dsimp only
    split <;> rfl

/-- What a worker touches: its own entry, row and keys, and what every task may touch. -/
inductive Worker.Touches (w : World) (v : Worker) : Access → Prop
  | other {a : Access} (hkind : a.kind = .other) : Touches w v a
  | pays : Touches w v (.incrPending (-1))
  | running {e : JobEntry} (hpc : v.pc = .setup) (he : w.jobs v.inst v.uuid = some e)
      (hopen : e.status ≠ .cancelled) : Touches w v (.updateEntry v.inst v.uuid (.running w.now))
  | entry {u : EntryUpdate} (hu : ∀ startedAt, u ≠ .running startedAt) :
      Touches w v (.updateEntry v.inst v.uuid u)
  | fails {reason message : String} (hpc : v.pc = .lifecycleRow message ∨ v.pc = .errorRow message) :
      Touches w v (.failRow v.uuid reason (some message))
  | finalizes {metrics : FinalMetrics} : Touches w v (.finalizeRow v.uuid metrics)
  | takes : Touches w v (.takePermit v.cancelNotify)
  | notifies {cell : Cell} : Touches w v (.notifyOne cell)
  | removesNotifier : Touches w v (.removeNotifier v.inst v.uuid)
  | releases : Touches w v (.leaseRemove v.uuid)
  | refreshes (hpc : v.pc = .refreshOwner)
      (hdue : OWNER_REFRESH_INTERVAL ≤ w.now - v.ts.lastOwnerRefresh) :
      Touches w v (.refreshOwner v.uuid v.inst)
  | removesOwner : Touches w v (.removeOwner v.uuid)

theorem persistStep_touches (v : Worker) (site : PersistSite) (pc : PersistPc) :
    v.Touches w (v.persistStep w site pc).access := by
  cases pc with
  | compareExchange flag =>
    simp only [Worker.persistStep]
    split <;> exact .other rfl
  | get => exact .other rfl
  | put turns => exact .other rfl

theorem finalStep_touches (v : Worker) (completedAt : Millis) (pc : FinalPc) :
    v.Touches w (v.finalStep w completedAt pc).access := by
  cases pc with
  | lostEntry => exact .entry (by rintro _ ⟨⟩)
  | lostNotifier => exact .removesNotifier
  | finalizeRow => exact .finalizes
  | removeNotifier => exact .removesNotifier
  | recordTpm => exact .other (tpmAccess_kind v _)
  | counters =>
    simp only [Worker.finalStep]
    split
    · split <;> exact .other rfl
    · exact .other rfl
  | _ =>
    simp only [Worker.finalStep]
    repeat' split
    all_goals exact .other rfl

theorem receiveStep_touches (v : Worker) (result : Except String StreamToken) :
    v.Touches w (v.receiveStep w result).access := by
  unfold Worker.receiveStep
  repeat' split
  all_goals first
    | exact .other rfl
    | exact .entry (by rintro _ ⟨⟩)

theorem blockStep_touches (v : Worker) (exit : Exit) (pc : BlockPc) :
    v.Touches w (v.blockStep exit pc).access := by
  cases pc with
  | stopKeepalive => exact .other rfl
  | leaseRemove => exact .releases
  | removeAttempts => exact .other rfl
  | removeOwner => exact .removesOwner

theorem worker_touches {v : Worker} {m : Moved Worker} (h : v.step w choice = some m) :
    v.Touches w m.access := by
  obtain ⟨args, job, stop, apiKeyId, tpmMinute, startedAt, cancelNotify, ts, log, pc⟩ := v
  cases pc
  case setup =>
    simp only [Worker.step] at h
    split at h
    · obtain rfl := Option.some.inj h
      exact .other rfl
    · next e he =>
      split at h
      · obtain rfl := Option.some.inj h
        exact .other rfl
      · next hopen =>
        obtain rfl := Option.some.inj h
        exact .running rfl he hopen
  case lifecycleRow message =>
    obtain rfl := Option.some.inj h
    exact .fails (.inl rfl)
  case errorRow message =>
    obtain rfl := Option.some.inj h
    exact .fails (.inr rfl)
  case refreshOwner =>
    simp only [Worker.step] at h
    split at h
    · next hdue =>
      obtain rfl := Option.some.inj h
      exact .refreshes rfl hdue
    · obtain rfl := Option.some.inj h
      exact .other rfl
  case persist site pc =>
    obtain rfl := Option.some.inj h
    exact persistStep_touches _ site pc
  case final completedAt pc =>
    obtain rfl := Option.some.inj h
    exact finalStep_touches _ completedAt pc
  case received result =>
    obtain rfl := Option.some.inj h
    exact receiveStep_touches _ result
  case block exit pc =>
    obtain rfl := Option.some.inj h
    exact blockStep_touches _ exit pc
  case errorTpm =>
    obtain rfl := Option.some.inj h
    exact .other (tpmAccess_kind _ 0)
  case notify cell site =>
    obtain rfl := Option.some.inj h
    exact .notifies
  all_goals simp only [Worker.step] at h
  all_goals repeat' (split at h)
  all_goals first
    | (obtain rfl := Option.some.inj h; exact .other rfl)
    | (obtain rfl := Option.some.inj h; exact .pays)
    | (obtain rfl := Option.some.inj h; exact .entry (by rintro _ ⟨⟩))
    | (obtain rfl := Option.some.inj h; exact .takes)
    | cases h

theorem Worker.Touches.mayAccess {v : Worker} {a : Access} (h : v.Touches w a) :
    Worker.mayAccess a.kind = true := by
  cases h with
  | other hkind => rw [hkind]; rfl
  | _ => rfl

theorem worker_mayAccess {v : Worker} {m : Moved Worker} (h : v.step w choice = some m) :
    Worker.mayAccess m.access.kind = true :=
  (worker_touches h).mayAccess

theorem keepalive_mayAccess {k : Keepalive} {m : Moved Keepalive} (h : k.step w = some m) :
    Keepalive.mayAccess m.access.kind = true := by
  obtain ⟨inst, uuid, stop, pc⟩ := k
  cases pc
  all_goals simp only [Keepalive.step] at h
  all_goals repeat' (split at h)
  all_goals first
    | (obtain rfl := Option.some.inj h; rfl)
    | cases h

theorem cancelMessage_mayAccess {c : CancelMessage} {m : Moved CancelMessage}
    (h : c.step w = some m) : CancelMessage.mayAccess m.access.kind = true := by
  simp only [CancelMessage.step] at h
  split at h
  · cases h
  · split at h <;> (obtain rfl := Option.some.inj h; rfl)

theorem drain_mayAccess {d : Drain} {m : Moved Drain} (h : d.step w choice = some m) :
    Drain.mayAccess m.access.kind = true := by
  obtain ⟨inst, providerId, pc⟩ := d
  cases pc
  case notify toCancel =>
    obtain rfl := Option.some.inj h
    cases toCancel <;> rfl
  all_goals simp only [Drain.step] at h
  all_goals repeat' (split at h)
  all_goals first
    | (obtain rfl := Option.some.inj h; rfl)
    | cases h

theorem cleanup_mayAccess {c : Cleanup} {m : Moved Cleanup} (h : c.step w = some m) :
    Cleanup.mayAccess m.access.kind = true := by
  simp only [Cleanup.step] at h
  split at h
  · obtain rfl := Option.some.inj h
    rfl
  · cases h

theorem sweep_mayAccess {s : Sweep} {m : Moved Sweep} (h : s.step w choice = some m) :
    Sweep.mayAccess m.access.kind = true := by
  obtain ⟨inst, pc⟩ := s
  cases pc
  case removeEntry stale =>
    obtain rfl := Option.some.inj h
    cases stale <;> rfl
  all_goals simp only [Sweep.step] at h
  all_goals repeat' (split at h)
  all_goals first
    | (obtain rfl := Option.some.inj h; rfl)
    | cases h

theorem recover_mayAccess {r : Recover} {m : Moved Recover} (h : r.step w = some m) :
    Recover.mayAccess m.access.kind = true := by
  obtain ⟨inst, pc⟩ := r
  cases pc
  all_goals simp only [Recover.step] at h
  all_goals repeat' (split at h)
  all_goals first
    | (obtain rfl := Option.some.inj h; rfl)
    | cases h

theorem waitCancel_mayAccess {q : WaitCancel} {m : Moved WaitCancel}
    (h : q.step w choice = some m) : WaitCancel.mayAccess m.access.kind = true := by
  obtain ⟨inst, pc⟩ := q
  cases pc
  case cancel todo =>
    obtain rfl := Option.some.inj h
    cases todo <;> rfl
  all_goals simp only [WaitCancel.step] at h
  all_goals repeat' (split at h)
  all_goals first
    | (obtain rfl := Option.some.inj h; rfl)
    | cases h

theorem reap_mayAccess {r : Reap} {m : Moved Reap} (h : r.step w = some m) :
    Reap.mayAccess m.access.kind = true := by
  obtain ⟨inst, pc⟩ := r
  cases pc
  all_goals simp only [Reap.step] at h
  all_goals repeat' (split at h)
  all_goals first
    | (obtain rfl := Option.some.inj h; rfl)
    | cases h

def Task.mayAccess : Task → AccessKind → Bool
  | .submit _ => Submit.mayAccess
  | .cancel _ => Cancel.mayAccess
  | .stream _ => Stream.mayAccess
  | .dispatch _ => Dispatch.mayAccess
  | .run _ => Worker.mayAccess
  | .keepalive _ => Keepalive.mayAccess
  | .cancelMessage _ => CancelMessage.mayAccess
  | .drain _ => Drain.mayAccess
  | .cleanup _ => Cleanup.mayAccess
  | .sweep _ => Sweep.mayAccess
  | .recover _ => Recover.mayAccess
  | .waitCancel _ => WaitCancel.mayAccess
  | .reap _ => Reap.mayAccess
  | .killed => fun _ => false

theorem task_mayAccess {t : Task} {m : Moved Task} (h : t.step w choice = some m) :
    t.mayAccess m.access.kind = true := by
  cases Task.step_moved h with
  | submit hs => exact submit_mayAccess hs
  | cancel hs => exact cancel_mayAccess hs
  | stream hs => exact stream_mayAccess hs
  | dispatch hs => exact dispatch_mayAccess hs
  | run hs => exact worker_mayAccess hs
  | keepalive hs => exact keepalive_mayAccess hs
  | cancelMessage hs => exact cancelMessage_mayAccess hs
  | drain hs => exact drain_mayAccess hs
  | cleanup hs => exact cleanup_mayAccess hs
  | sweep hs => exact sweep_mayAccess hs
  | recover hs => exact recover_mayAccess hs
  | waitCancel hs => exact waitCancel_mayAccess hs
  | reap hs => exact reap_mayAccess hs

end Kinds

/-! ## Requests -/

/-- Every id in the log of requests has been made. -/
def RequestsMade (w : World) : Prop := ∀ j r, w.requests j = some r → j < w.nextJob

theorem apply_requests {w : World} (a : Access) (hw : RequestsMade w) {j : Uuid}
    {r : InstanceId × SubmitJobRequest} (h : w.requests j = some r) :
    (w.apply a).requests j = some r := by
  cases a with
  | newJob inst req =>
    have hj : j ≠ w.nextJob := Nat.ne_of_lt (hw j r h)
    simpa [World.apply, Function.update_of_ne hj] using h
  | _ => exact h

theorem RequestsMade.apply {w : World} (hw : RequestsMade w) (a : Access) :
    RequestsMade (w.apply a) := by
  intro j r h
  cases a with
  | newJob inst req =>
    by_cases hj : j = w.nextJob
    · subst hj
      exact Nat.lt_succ_self _
    · have hr : w.requests j = some r := by simpa [World.apply, Function.update_of_ne hj] using h
      exact Nat.lt_succ_of_lt (hw j r hr)
  | _ => exact hw j r h

/-! ## Workers -/

/-- What a worker keeps, and where the rest of it is set. -/
structure Worker.Keeps (v v' : Worker) : Prop where
  args : v'.args = v.args
  cancelNotify : v'.cancelNotify = v.cancelNotify ∨ v.pc = .capture
  key : v'.apiKeyId = v.apiKeyId ∧ v'.tpmMinute = v.tpmMinute ∨ v.pc = .setup
  tokens : v'.ts.tokenCount = v.ts.tokenCount ∨ v.pc = .capture ∨
    ∃ token, v.pc = .received (.ok token)

theorem Worker.keeps_goto (v : Worker) (pc : WorkerPc) : v.Keeps (v.goto pc) :=
  ⟨rfl, .inl rfl, .inl ⟨rfl, rfl⟩, .inl rfl⟩

theorem worker_keeps {w : World} {v : Worker} {choice : Choice} {m : Moved Worker}
    (h : v.step w choice = some m) : v.Keeps m.next := by
  obtain ⟨args, job, stop, apiKeyId, tpmMinute, startedAt, cancelNotify, ts, log, pc⟩ := v
  cases pc
  case setup =>
    simp only [Worker.step] at h
    repeat' (split at h)
    all_goals
      obtain rfl := Option.some.inj h
      exact ⟨rfl, .inl rfl, .inr rfl, .inl rfl⟩
  case capture =>
    simp only [Worker.step] at h
    split at h
    all_goals
      obtain rfl := Option.some.inj h
      exact ⟨rfl, .inr rfl, .inl ⟨rfl, rfl⟩, .inr (.inl rfl)⟩
  case received result =>
    obtain rfl := Option.some.inj h
    cases result with
    | error message =>
      simp only [Worker.receiveStep]
      repeat' split
      all_goals exact Worker.keeps_goto _ _
    | ok token =>
      simp only [Worker.receiveStep]
      repeat' split
      all_goals exact ⟨rfl, .inl rfl, .inl ⟨rfl, rfl⟩, .inr (.inr ⟨token, rfl⟩)⟩
  case persist site pc =>
    obtain rfl := Option.some.inj h
    cases pc <;> simp only [Worker.persistStep] <;> (try split) <;> exact Worker.keeps_goto _ _
  case final completedAt pc =>
    obtain rfl := Option.some.inj h
    cases pc <;> simp only [Worker.finalStep] <;> repeat' split
    all_goals exact Worker.keeps_goto _ _
  case block exit pc =>
    obtain rfl := Option.some.inj h
    cases pc <;> exact Worker.keeps_goto _ _
  all_goals simp only [Worker.step] at h
  all_goals repeat' (split at h)
  all_goals first
    | (obtain rfl := Option.some.inj h; exact ⟨rfl, .inl rfl, .inl ⟨rfl, rfl⟩, .inl rfl⟩)
    | cases h

/-- The arguments of a worker never change. -/
theorem step_args {w : World} {v : Worker} {choice : Choice} {m : Moved Worker}
    (h : v.step w choice = some m) : m.next.args = v.args :=
  (worker_keeps h).args

/-! ## Steps that spawn no worker -/

/-- A step that spawns no worker. -/
def Moved.Plain {M : Type} (m : Moved M) : Prop := ∀ s ∈ m.spawned, ∀ args, s ≠ .run args

theorem plain_of_nil {M : Type} {m : Moved M} (h : m.spawned = []) : m.Plain := by
  intro s hs
  rw [h] at hs
  cases hs

theorem plain_of_cleanup {M : Type} {m : Moved M} {inst : InstanceId} {uuid : Uuid} {due : Millis}
    (h : m.spawned = [.cleanup inst uuid due]) : m.Plain := by
  intro s hs args
  rw [h] at hs
  obtain rfl := List.mem_singleton.mp hs
  rintro ⟨⟩

/-- The arguments a dispatcher gives to the worker it spawns. -/
def Dispatch.runArgs (d : Dispatch) (c : Candidate) (provider : ProviderId × Bool) : RunArgs :=
  { inst := d.inst, uuid := c.uuid, job := c.job, providerId := provider.1
    isFreeTier := provider.2 }

section Plain
variable {w : World} {choice : Choice}

theorem submit_spawned {s : Submit} {m : Moved Submit} (h : s.step w = some m) :
    m.spawned = [] := by
  obtain ⟨inst, req, pc⟩ := s
  cases pc
  all_goals simp only [Submit.step] at h
  all_goals repeat' (split at h)
  all_goals first
    | (obtain rfl := Option.some.inj h; rfl)
    | cases h

theorem cancel_plain {c : Cancel} {m : Moved Cancel} (h : c.step w = some m) : m.Plain := by
  obtain ⟨inst, uuid, isLocal, prev, pc⟩ := c
  cases pc
  case publish isFinal =>
    obtain rfl := Option.some.inj h
    intro s hs args
    obtain ⟨i, -, rfl⟩ := List.mem_map.mp hs
    rintro ⟨⟩
  case removeNotifier isFinal =>
    obtain rfl := Option.some.inj h
    intro s hs args
    dsimp only at hs
    split at hs
    · obtain rfl := List.mem_singleton.mp hs
      rintro ⟨⟩
    · cases hs
  all_goals simp only [Cancel.step] at h
  all_goals repeat' (split at h)
  all_goals first
    | (obtain rfl := Option.some.inj h; exact plain_of_nil rfl)
    | cases h

theorem stream_spawned {s : Stream} {m : Moved Stream} (h : s.step w = some m) :
    m.spawned = [] := by
  obtain ⟨reader, inst, uuid, yielded, pc⟩ := s
  cases pc
  all_goals simp only [Stream.step] at h
  all_goals repeat' (split at h)
  all_goals first
    | (obtain rfl := Option.some.inj h; rfl)
    | cases h

/-- A dispatcher spawns a worker as it writes the owner key, and nothing else does. -/
theorem dispatch_spawned {d : Dispatch} {m : Moved Dispatch} (h : d.step w choice = some m) :
    m.Plain ∨ ∃ c provider, d.pc = .setOwner c provider ∧ m.access = .setOwner c.uuid d.inst ∧
      m.spawned = [.run (d.runArgs c provider)] := by
  obtain ⟨inst, pc⟩ := d
  cases pc
  case setOwner c provider =>
    obtain rfl := Option.some.inj h
    exact .inr ⟨c, provider, rfl, rfl, rfl⟩
  case load now todo scored =>
    obtain rfl := Option.some.inj h
    cases todo with
    | nil => exact .inl (plain_of_nil rfl)
    | cons entry todo =>
      simp only [Dispatch.loadStep]
      split <;> exact .inl (plain_of_nil rfl)
  case attempt rest =>
    cases rest with
    | nil => obtain rfl := Option.some.inj h; exact .inl (plain_of_nil rfl)
    | cons c rest =>
      simp only [Dispatch.step, Dispatch.attemptStep] at h
      split at h <;> first
        | (obtain rfl := Option.some.inj h; exact .inl (plain_of_nil rfl))
        | cases h
  case failJob c rest pc =>
    obtain rfl := Option.some.inj h
    cases pc with
    | row => exact .inl (plain_of_cleanup rfl)
    | entry =>
      simp only [Dispatch.failStep]
      split <;> exact .inl (plain_of_nil rfl)
    | _ => exact .inl (plain_of_nil rfl)
  all_goals simp only [Dispatch.step] at h
  all_goals repeat' (split at h)
  all_goals first
    | (obtain rfl := Option.some.inj h; exact .inl (plain_of_nil rfl))
    | cases h

theorem finalStep_plain (v : Worker) (completedAt : Millis) (pc : FinalPc) :
    (v.finalStep w completedAt pc).Plain := by
  cases pc with
  | lostNotifier => exact plain_of_cleanup rfl
  | recordTpm => exact plain_of_cleanup rfl
  | _ =>
    simp only [Worker.finalStep]
    repeat' split
    all_goals exact plain_of_nil rfl

theorem worker_plain {v : Worker} {m : Moved Worker} (h : v.step w choice = some m) :
    m.Plain := by
  obtain ⟨args, job, stop, apiKeyId, tpmMinute, startedAt, cancelNotify, ts, log, pc⟩ := v
  cases pc
  case spawned =>
    obtain rfl := Option.some.inj h
    intro s hs args
    obtain rfl := List.mem_singleton.mp hs
    rintro ⟨⟩
  case persist site pc =>
    obtain rfl := Option.some.inj h
    cases pc <;> simp only [Worker.persistStep] <;> (try split) <;> exact plain_of_nil rfl
  case final completedAt pc =>
    obtain rfl := Option.some.inj h
    exact finalStep_plain _ completedAt pc
  case block exit pc =>
    obtain rfl := Option.some.inj h
    cases pc <;> exact plain_of_nil rfl
  all_goals simp only [Worker.step, Worker.receiveStep] at h
  all_goals repeat' (split at h)
  all_goals first
    | (obtain rfl := Option.some.inj h; exact plain_of_nil rfl)
    | (obtain rfl := Option.some.inj h; exact plain_of_cleanup rfl)
    | cases h

theorem keepalive_spawned {k : Keepalive} {m : Moved Keepalive} (h : k.step w = some m) :
    m.spawned = [] := by
  obtain ⟨inst, uuid, stop, pc⟩ := k
  cases pc
  all_goals simp only [Keepalive.step] at h
  all_goals repeat' (split at h)
  all_goals first
    | (obtain rfl := Option.some.inj h; rfl)
    | cases h

theorem cancelMessage_spawned {c : CancelMessage} {m : Moved CancelMessage}
    (h : c.step w = some m) : m.spawned = [] := by
  simp only [CancelMessage.step] at h
  split at h
  · cases h
  · split at h <;> (obtain rfl := Option.some.inj h; rfl)

theorem drain_spawned {d : Drain} {m : Moved Drain} (h : d.step w choice = some m) :
    m.spawned = [] := by
  obtain ⟨inst, providerId, pc⟩ := d
  cases pc
  case notify toCancel =>
    obtain rfl := Option.some.inj h
    cases toCancel <;> rfl
  all_goals simp only [Drain.step] at h
  all_goals repeat' (split at h)
  all_goals first
    | (obtain rfl := Option.some.inj h; rfl)
    | cases h

theorem cleanup_spawned {c : Cleanup} {m : Moved Cleanup} (h : c.step w = some m) :
    m.spawned = [] := by
  simp only [Cleanup.step] at h
  split at h
  · obtain rfl := Option.some.inj h
    rfl
  · cases h

theorem sweep_spawned {s : Sweep} {m : Moved Sweep} (h : s.step w choice = some m) :
    m.spawned = [] := by
  obtain ⟨inst, pc⟩ := s
  cases pc
  case removeEntry stale =>
    obtain rfl := Option.some.inj h
    cases stale <;> rfl
  all_goals simp only [Sweep.step] at h
  all_goals repeat' (split at h)
  all_goals first
    | (obtain rfl := Option.some.inj h; rfl)
    | cases h

theorem recover_spawned {r : Recover} {m : Moved Recover} (h : r.step w = some m) :
    m.spawned = [] := by
  obtain ⟨inst, pc⟩ := r
  cases pc
  all_goals simp only [Recover.step] at h
  all_goals repeat' (split at h)
  all_goals first
    | (obtain rfl := Option.some.inj h; rfl)
    | cases h

theorem waitCancel_spawned {q : WaitCancel} {m : Moved WaitCancel}
    (h : q.step w choice = some m) : m.spawned = [] := by
  obtain ⟨inst, pc⟩ := q
  cases pc
  case cancel todo =>
    obtain rfl := Option.some.inj h
    cases todo <;> rfl
  all_goals simp only [WaitCancel.step] at h
  all_goals repeat' (split at h)
  all_goals first
    | (obtain rfl := Option.some.inj h; rfl)
    | cases h

theorem reap_spawned {r : Reap} {m : Moved Reap} (h : r.step w = some m) : m.spawned = [] := by
  obtain ⟨inst, pc⟩ := r
  cases pc
  all_goals simp only [Reap.step] at h
  all_goals repeat' (split at h)
  all_goals first
    | (obtain rfl := Option.some.inj h; rfl)
    | cases h

def Task.isDispatch : Task → Bool
  | .dispatch _ => true
  | _ => false

/-- Only a dispatcher spawns workers. -/
theorem task_plain {t : Task} {m : Moved Task} (h : t.step w choice = some m)
    (ht : t.isDispatch = false) : m.Plain := by
  cases Task.step_moved h with
  | dispatch hs => cases ht
  | submit hs => exact plain_of_nil (submit_spawned hs)
  | cancel hs => exact cancel_plain hs
  | stream hs => exact plain_of_nil (stream_spawned hs)
  | run hs => exact worker_plain hs
  | keepalive hs => exact plain_of_nil (keepalive_spawned hs)
  | cancelMessage hs => exact plain_of_nil (cancelMessage_spawned hs)
  | drain hs => exact plain_of_nil (drain_spawned hs)
  | cleanup hs => exact plain_of_nil (cleanup_spawned hs)
  | sweep hs => exact plain_of_nil (sweep_spawned hs)
  | recover hs => exact plain_of_nil (recover_spawned hs)
  | waitCancel hs => exact plain_of_nil (waitCancel_spawned hs)
  | reap hs => exact plain_of_nil (reap_spawned hs)

end Plain

/-! ## Accesses of workers -/

section ByWorker
variable {w : World} {choice : Choice}

/-- The accesses that only workers make. -/
def Access.byWorker : Access → Bool
  | .recordTpm _ _ _ | .finalizeRow _ _ | .setFlag _ | .putConversation _ _ => true
  | _ => false

theorem task_byWorker {t : Task} {m : Moved Task} (h : t.step w choice = some m)
    (ht : ∀ v, t ≠ .run v) : m.access.byWorker = false := by
  cases Task.step_moved h with
  | @submit s _ hs =>
    obtain ⟨inst, req, pc⟩ := s
    cases pc <;> simp only [Submit.step] at hs
    all_goals repeat' (split at hs)
    all_goals first
      | (obtain rfl := Option.some.inj hs; rfl)
      | cases hs
  | @cancel x _ hs =>
    obtain ⟨inst, uuid, isLocal, prev, pc⟩ := x
    cases pc <;> simp only [Cancel.step] at hs
    all_goals repeat' (split at hs)
    all_goals first
      | (obtain rfl := Option.some.inj hs; rfl)
      | cases hs
  | @dispatch d _ hs =>
    obtain ⟨inst, pc⟩ := d
    cases pc
    case failJob c rest pc =>
      obtain rfl := Option.some.inj hs
      cases pc <;> simp only [Moved.map, Dispatch.failStep] <;> (try split) <;> rfl
    case load now todo scored =>
      obtain rfl := Option.some.inj hs
      cases todo <;> simp only [Moved.map, Dispatch.loadStep] <;> (try split) <;> rfl
    all_goals simp only [Dispatch.step, Dispatch.attemptStep] at hs
    all_goals repeat' (split at hs)
    all_goals first
      | (obtain rfl := Option.some.inj hs; rfl)
      | cases hs
  | run hs => exact absurd rfl (ht _)
  | @drain d _ hs =>
    obtain ⟨inst, providerId, pc⟩ := d
    cases pc
    case notify cells =>
      obtain rfl := Option.some.inj hs
      cases cells <;> rfl
    all_goals simp only [Drain.step] at hs
    all_goals repeat' (split at hs)
    all_goals first
      | (obtain rfl := Option.some.inj hs; rfl)
      | cases hs
  | @sweep s _ hs =>
    obtain ⟨inst, pc⟩ := s
    cases pc
    case removeEntry stale =>
      obtain rfl := Option.some.inj hs
      cases stale <;> rfl
    all_goals simp only [Sweep.step] at hs
    all_goals repeat' (split at hs)
    all_goals first
      | (obtain rfl := Option.some.inj hs; rfl)
      | cases hs
  | @waitCancel q _ hs =>
    obtain ⟨inst, pc⟩ := q
    cases pc
    case cancel todo =>
      obtain rfl := Option.some.inj hs
      cases todo <;> rfl
    all_goals simp only [WaitCancel.step] at hs
    all_goals repeat' (split at hs)
    all_goals first
      | (obtain rfl := Option.some.inj hs; rfl)
      | cases hs
  | @stream s _ hs =>
    obtain ⟨reader, inst, uuid, yielded, pc⟩ := s
    cases pc <;> simp only [Stream.step] at hs
    all_goals repeat' (split at hs)
    all_goals first
      | (obtain rfl := Option.some.inj hs; rfl)
      | cases hs
  | @keepalive k _ hs =>
    obtain ⟨inst, uuid, stop, pc⟩ := k
    cases pc <;> simp only [Keepalive.step] at hs
    all_goals repeat' (split at hs)
    all_goals first
      | (obtain rfl := Option.some.inj hs; rfl)
      | cases hs
  | @cancelMessage x _ hs =>
    simp only [CancelMessage.step] at hs
    repeat' (split at hs)
    all_goals first
      | (obtain rfl := Option.some.inj hs; rfl)
      | cases hs
  | @cleanup x _ hs =>
    simp only [Cleanup.step] at hs
    split at hs
    · obtain rfl := Option.some.inj hs
      rfl
    · cases hs
  | @recover r _ hs =>
    obtain ⟨inst, pc⟩ := r
    cases pc <;> simp only [Recover.step] at hs
    all_goals repeat' (split at hs)
    all_goals first
      | (obtain rfl := Option.some.inj hs; rfl)
      | cases hs
  | @reap r _ hs =>
    obtain ⟨inst, pc⟩ := r
    cases pc <;> simp only [Reap.step] at hs
    all_goals repeat' (split at hs)
    all_goals first
      | (obtain rfl := Option.some.inj hs; rfl)
      | cases hs

end ByWorker

/-- A worker that can step has neither returned nor panicked. -/
theorem worker_not_ended {w : World} {v : Worker} {choice : Choice} {m : Moved Worker}
    (h : v.step w choice = some m) : (Task.run v).ended = false := by
  obtain ⟨args, job, stop, apiKeyId, tpmMinute, startedAt, cancelNotify, ts, log, pc⟩ := v
  cases pc
  case returned exit => cases h
  case panicked => cases h
  all_goals rfl

/-- A worker of the pool was there before the step, with the same arguments, or a dispatcher has
just spawned it. -/
theorem worker_before {c c' : Config} {a : Action} {v : Worker} (h : ConfigMoved c a c')
    (hv : .run v ∈ c'.tasks) :
    (∃ v₀, .run v₀ ∈ c.tasks ∧ v₀.args = v.args ∧
      ((Task.run v).ended = false → (Task.run v₀).ended = false)) ∨
    ∃ k choice d candidate provider, a = .run k choice ∧ c.tasks[k]? = some (.dispatch d) ∧
      d.pc = .setOwner candidate provider ∧ v = .start (d.runArgs candidate provider) := by
  cases h with
  | @start s hcan =>
    rcases List.mem_append.mp hv with hv | hv
    · exact .inl ⟨v, hv, rfl, id⟩
    · have hnew : Config.started c s = .run v := (List.mem_singleton.mp hv).symm
      cases s <;> cases hnew
  | @run k choice t m others tasks hk hm hreplaced _ =>
    rcases hreplaced.mem_after.mp hv with hnext | hother | hnew
    · cases Task.step_moved hm with
      | @run v₀ n hs =>
        obtain rfl : v = n.next := Task.run.inj hnext
        exact .inl ⟨v₀, hreplaced.task_mem, (step_args hs).symm, fun _ => worker_not_ended hs⟩
      | _ => cases hnext
    · exact .inl ⟨v, hreplaced.other_mem_before hother, rfl, id⟩
    · obtain ⟨s, hs, hsv⟩ := List.mem_map.mp hnew
      cases s with
      | run args =>
        obtain rfl := Task.run.inj hsv
        cases ht : t.isDispatch with
        | false => exact absurd rfl (task_plain hm ht _ hs args)
        | true =>
          cases Task.step_moved hm with
          | @dispatch d n hd =>
            rcases dispatch_spawned hd with hplain | ⟨candidate, provider, hpc, -, hspawned⟩
            · exact absurd rfl (hplain _ hs args)
            · have hrun : Spawn.run args ∈ [Spawn.run (d.runArgs candidate provider)] := by
                simpa only [Moved.map, hspawned] using hs
              obtain rfl := Spawn.run.inj (List.mem_singleton.mp hrun)
              exact .inr ⟨k, choice, d, candidate, provider, rfl, hk, hpc, rfl⟩
          | _ => cases ht
      | _ => cases hsv
  | restart inst =>
    obtain ⟨u, hu, huv⟩ := List.mem_map.mp hv
    split at huv
    · cases huv
    · exact .inl ⟨v, huv ▸ hu, rfl, id⟩
  | tick elapsed => exact .inl ⟨v, hv, rfl, id⟩
  | owner id' inst => exact .inl ⟨v, hv, rfl, id⟩
  | heartbeat inst alive => exact .inl ⟨v, hv, rfl, id⟩

end Veronex
