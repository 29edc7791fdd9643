import Veronex.Inference.Invariants

/-! # Recovery and the jobs of live instances

`recover_pending_jobs` asks for the owner of a job only when its row says `running`. Nothing ever
writes that status: a row stays pending from `save` until the job ends (`no_row_running`), so the
owner is never looked up. What is left of the protection is stated as the condition of
`recovery_spares_executed_jobs`.
-/
namespace Veronex
open Concurrency
set_option autoImplicit false

/-! ## No row is ever running -/

def JobsNotRunning (jobs : List InferenceJob) : Prop := ∀ job ∈ jobs, job.status ≠ .running

/-- The jobs a recovery holds are not running, so it never asks for an owner. -/
def RecoverPc.NotRunning : RecoverPc → Prop
  | .each todo => JobsNotRunning todo
  | .insertEntry _ todo | .enqueue _ todo => JobsNotRunning todo
  | .readOwner _ _ | .readHeartbeat _ _ _ | .resetStatus _ _ => False
  | .list | .finished => True

def Task.NotRunning : Task → Prop
  | .submit s => match s.pc with
    | .save job => job.status = .pending
    | _ => True
  | .recover r => r.pc.NotRunning
  | _ => True

def World.NotRunning (w : World) : Prop := ∀ j row, w.rows j = some row → row.status ≠ .running

section NotRunning
variable {w : World} {choice : Choice}

theorem updateRow_notRunning {id : Uuid} {f : JobRow → JobRow} (hw : w.NotRunning)
    (hf : ∀ row, (f row).status ≠ .running) : (w.updateRow id f).NotRunning := by
  intro j row hrow
  by_cases hj : j = id
  · subst hj
    have hmap : (w.rows j).map f = some row := by simpa [World.updateRow] using hrow
    obtain ⟨row₀, -, rfl⟩ := Option.map_eq_some_iff.mp hmap
    exact hf row₀
  · exact hw j row (by simpa [World.updateRow, Function.update_of_ne hj] using hrow)

theorem ne_running_of_isTerminal {s : JobStatus} (h : s.isTerminal = true) : s ≠ .running := by
  rintro rfl
  cases h

theorem apply_notRunning {a : Access} (hw : w.NotRunning) (hreset : a.kind ≠ .resetRow)
    (hsave : ∀ row, a = .saveRow row → row.status ≠ .running) : (w.apply a).NotRunning := by
  cases a with
  | saveRow row' =>
    intro j row hrow
    by_cases hj : j = row'.id
    · subst hj
      have hor : (w.rows row'.id).or (some row') = some row := by simpa [World.apply] using hrow
      cases hrow' : w.rows row'.id with
      | none =>
        rw [hrow'] at hor
        obtain rfl := Option.some.inj hor
        exact hsave _ rfl
      | some row₀ =>
        rw [hrow'] at hor
        obtain rfl := Option.some.inj hor
        exact hw _ _ hrow'
    · exact hw j row (by simpa [World.apply, Function.update_of_ne hj] using hrow)
  | cancelRow id at' =>
    exact updateRow_notRunning hw fun row => ne_running_of_isTerminal (row.cancel_isTerminal at')
  | failRow id reason error =>
    exact updateRow_notRunning hw fun row =>
      ne_running_of_isTerminal (row.failWithReason_isTerminal reason error)
  | finalizeRow id m =>
    exact updateRow_notRunning hw fun row => ne_running_of_isTerminal (row.finalize_isTerminal m)
  | updateStatus id status => exact absurd rfl hreset
  | _ => exact hw

theorem World.NotRunning.listPending (hw : w.NotRunning) {jobs : List InferenceJob}
    (h : w.listPending = .ok jobs) : JobsNotRunning jobs := by
  intro job hjob
  obtain ⟨j, row, hj, hparse⟩ := listPending_mem h hjob
  rw [rowToJob_status hparse]
  exact hw j row hj

theorem submit_notRunning {s : Submit} {m : Moved Submit} (hs : (Task.submit s).NotRunning)
    (h : s.step w = some m) :
    (Task.submit m.next).NotRunning ∧
      ∀ row, m.access = .saveRow row → row.status ≠ .running := by
  obtain ⟨inst, req, pc⟩ := s
  cases pc
  case create =>
    simp only [Submit.step] at h
    split at h
    · obtain rfl := Option.some.inj h
      exact ⟨trivial, fun _ h => by cases h⟩
    · next job hjob =>
      obtain rfl := Option.some.inj h
      obtain ⟨prompt, modelName, -, -, rfl⟩ := buildJob_ok hjob
      exact ⟨rfl, fun _ h => by cases h⟩
  case save job =>
    obtain rfl := Option.some.inj h
    refine ⟨trivial, fun row hrow => ?_⟩
    obtain rfl := Access.saveRow.inj hrow
    have hpending : job.status = .pending := hs
    simp [JobRow.ofJob, jobForDb, hpending]
  case enqueue job =>
    obtain rfl := Option.some.inj h
    refine ⟨?_, fun _ h => by cases h⟩
    simp only [Submit.goto, Task.NotRunning]
    split
    · next job' hpc => split at hpc <;> cases hpc
    · trivial
  all_goals simp only [Submit.step] at h
  all_goals first
    | (obtain rfl := Option.some.inj h; exact ⟨trivial, fun _ h => by cases h⟩)
    | cases h

theorem recover_notRunning {r : Recover} {m : Moved Recover} (hw : w.NotRunning)
    (hr : r.pc.NotRunning) (h : r.step w = some m) :
    m.next.pc.NotRunning ∧ m.access.kind ≠ .resetRow ∧
      ∀ row, m.access = .saveRow row → row.status ≠ .running := by
  obtain ⟨inst, pc⟩ := r
  cases pc with
  | list =>
    simp only [Recover.step] at h
    split at h
    · obtain rfl := Option.some.inj h
      exact ⟨trivial, by rintro ⟨⟩, fun _ h => by cases h⟩
    · next jobs hjobs =>
      obtain rfl := Option.some.inj h
      exact ⟨hw.listPending hjobs, by rintro ⟨⟩, fun _ h => by cases h⟩
  | each todo =>
    obtain rfl := Option.some.inj h
    refine ⟨?_, by rintro ⟨⟩, fun _ h => by cases h⟩
    cases todo with
    | nil => trivial
    | cons job todo =>
      have hjob : job.status ≠ .running := hr job (List.mem_cons_self ..)
      simp only [Recover.each, Recover.goto, if_neg hjob]
      exact fun x hx => hr x (List.mem_cons_of_mem _ hx)
  | readOwner job todo => exact hr.elim
  | readHeartbeat owner job todo => exact hr.elim
  | resetStatus job todo => exact hr.elim
  | insertEntry job todo => obtain rfl := Option.some.inj h; exact ⟨hr, by rintro ⟨⟩,
    fun _ h => by cases h⟩
  | enqueue job todo => obtain rfl := Option.some.inj h; exact ⟨hr, by rintro ⟨⟩,
    fun _ h => by cases h⟩
  | finished => cases h

/-- A worker is spawned as such and a recovery is only ever started. -/
theorem spawn_notRunning (s : Spawn) : s.task.NotRunning := by
  cases s <;> trivial

end NotRunning

/-- No row is ever running, and no recovery ever asks for the owner of a job. -/
theorem no_row_running {ok : Config → Action → Prop} {d : Deployment} {c : Config}
    (h : Run Config.step ok (Config.init d) c) :
    c.world.NotRunning ∧ ∀ t ∈ c.tasks, t.NotRunning := by
  refine local_invariant (T := fun _ t => t.NotRunning)
    (fun j row hrow => by cases hrow) ?_ (fun _ => trivial) ?_ ?_ h
  · intro c s
    cases s <;> trivial
  · intro w w' henv hw
    refine ⟨fun j row hrow => hw j row ?_, fun t ht => ht⟩
    cases henv <;> exact hrow
  · intro c k choice t m hw ht _ hk hm
    refine and_assoc.mp ⟨?_, fun s _ => spawn_notRunning s, fun u hu => hu⟩
    have hreset : t.mayAccess .resetRow = false → m.access.kind ≠ .resetRow :=
      ne_of_mayAccess (task_mayAccess hm)
    have hkeep : t.mayAccess .resetRow = false → t.mayAccess .saveRow = false →
        (c.world.apply m.access).NotRunning := by
      intro hreset' hsave
      refine apply_notRunning hw (hreset hreset') fun row hrow => ?_
      refine absurd ?_ (ne_of_mayAccess (task_mayAccess hm) hsave)
      rw [hrow, Access.kind]
    cases Task.step_moved hm with
    | submit hs =>
      obtain ⟨hnext, hsave⟩ := submit_notRunning ht hs
      exact ⟨apply_notRunning hw (hreset rfl) hsave, hnext⟩
    | recover hs =>
      obtain ⟨hnext, hreset', hsave⟩ := recover_notRunning hw ht hs
      exact ⟨apply_notRunning hw hreset' hsave, hnext⟩
    | _ => exact ⟨hkeep rfl rfl, trivial⟩

/-! ## Jobs executed by a live instance -/

/-- A worker of another instance executes the job, and that instance is alive and holds the job's
owner key. -/
def Task.ExecutesElsewhere (w : World) (inst : InstanceId) (j : Uuid) : Task → Prop
  | .run v =>
    (Task.run v).ended = false ∧ v.uuid = j ∧ v.inst ≠ inst ∧ w.heartbeat v.inst = true ∧
      w.owner j = some v.inst
  | _ => False

instance (w : World) (inst : InstanceId) (j : Uuid) : DecidablePred (Task.ExecutesElsewhere w inst j)
  | .run v => inferInstanceAs (Decidable ((Task.run v).ended = false ∧ v.uuid = j ∧ v.inst ≠ inst ∧
      w.heartbeat v.inst = true ∧ w.owner j = some v.inst))
  | .submit _ | .cancel _ | .stream _ | .dispatch _ | .keepalive _ | .cancelMessage _ | .drain _
  | .cleanup _ | .sweep _ | .recover _ | .waitCancel _ | .reap _ | .killed => isFalse id

def Config.ExecutedElsewhere (c : Config) (inst : InstanceId) (j : Uuid) : Prop :=
  ∃ t ∈ c.tasks, t.ExecutesElsewhere c.world inst j

instance (c : Config) (inst : InstanceId) (j : Uuid) : Decidable (c.ExecutedElsewhere inst j) :=
  inferInstanceAs (Decidable (∃ t ∈ c.tasks, t.ExecutesElsewhere c.world inst j))

/-- A worker of the instance executes the job. -/
def Config.ExecutedOn (c : Config) (inst : InstanceId) (j : Uuid) : Prop :=
  ∃ v, .run v ∈ c.tasks ∧ (Task.run v).ended = false ∧ v.uuid = j ∧ v.inst = inst

/-- The next step of a task makes its instance, alive and not `inst`, the owner of job `j`: a
dispatcher hands the job it claimed to a new worker, or a worker refreshes the owner key. -/
def Task.TakesOver (w : World) (inst : InstanceId) (j : Uuid) : Task → Prop
  | .dispatch d => d.inst ≠ inst ∧ w.heartbeat d.inst = true ∧ match d.pc with
    | .setOwner c _ => c.uuid = j
    | _ => False
  | .run v => v.inst ≠ inst ∧ v.uuid = j ∧ w.heartbeat v.inst = true ∧ w.owner j ≠ none ∧
    match v.pc with
    | .refreshOwner => OWNER_REFRESH_INTERVAL ≤ w.now - v.ts.lastOwnerRefresh
    | _ => False
  | _ => False

/-- The step makes a live instance other than `inst` an owner that executes job `j`. -/
def TakesOver (c : Config) (inst : InstanceId) (j : Uuid) : Action → Prop
  | .run k _ => ∃ t, c.tasks[k]? = some t ∧ t.TakesOver c.world inst j
  | .owner id (some i) => id = j ∧ i ≠ inst ∧ c.ExecutedOn i j
  | .heartbeat i true => i ≠ inst ∧ c.ExecutedOn i j
  | _ => False

/-- A recovery is about to enqueue this job: it has looked at its status. -/
def Recover.Holds (r : Recover) (job : InferenceJob) : Prop :=
  ∃ todo, r.pc = .insertEntry job todo ∨ r.pc = .enqueue job todo

/-- No job is executed by a live owner when a recovery decides to enqueue it, and none gets such an
owner between that decision and the enqueue. -/
def RecoversUnowned (c : Config) (a : Action) : Prop :=
  (∀ k choice r job todo, a = .run k choice → c.tasks[k]? = some (.recover r) →
    r.pc = .each (job :: todo) → ¬ c.ExecutedElsewhere r.inst job.id) ∧
  ∀ r job, .recover r ∈ c.tasks → r.Holds job → ¬ TakesOver c r.inst job.id a

/-! ## Steps -/

section Steps
variable {w : World} {choice : Choice} {inst : InstanceId} {j : Uuid}

/-- The writes of owner keys: the handover of a dispatcher, and of a worker the refresh of its own
key and the removal at its end. -/
theorem dispatch_owner {d : Dispatch} {m : Moved Dispatch} (h : d.step w choice = some m)
    (hkind : m.access.kind = .owner) :
    ∃ c provider, d.pc = .setOwner c provider ∧ m.access = .setOwner c.uuid d.inst := by
  obtain ⟨inst, pc⟩ := d
  cases pc
  case setOwner c provider =>
    obtain rfl := Option.some.inj h
    exact ⟨c, provider, rfl, rfl⟩
  case load now todo scored =>
    obtain rfl := Option.some.inj h
    cases todo with
    | nil => cases hkind
    | cons entry todo =>
      simp only [Dispatch.loadStep] at hkind
      split at hkind <;> cases hkind
  case attempt rest =>
    cases rest with
    | nil => obtain rfl := Option.some.inj h; cases hkind
    | cons c rest =>
      simp only [Dispatch.step, Dispatch.attemptStep] at h
      split at h <;> first
        | (obtain rfl := Option.some.inj h; cases hkind)
        | cases h
  case failJob c rest pc =>
    obtain rfl := Option.some.inj h
    cases pc <;> simp only [Dispatch.failStep] at hkind <;> (try split at hkind) <;> cases hkind
  all_goals simp only [Dispatch.step] at h
  all_goals repeat' (split at h)
  all_goals first
    | (obtain rfl := Option.some.inj h; cases hkind)
    | cases h

theorem worker_owner {v : Worker} {m : Moved Worker} (h : v.step w choice = some m)
    (hkind : m.access.kind = .owner) :
    m.access = .removeOwner v.uuid ∨
      m.access = .refreshOwner v.uuid v.inst ∧ v.pc = .refreshOwner ∧
        OWNER_REFRESH_INTERVAL ≤ w.now - v.ts.lastOwnerRefresh := by
  have htouches := worker_touches h
  generalize m.access = a at htouches hkind
  cases htouches with
  | removesOwner => exact .inl rfl
  | refreshes hpc hdue => exact .inr ⟨rfl, hpc, hdue⟩
  | other hother => rw [hother] at hkind; cases hkind
  | _ => cases hkind

/-- Who an owner key names after a step. -/
theorem owner_after {t : Task} {m : Moved Task} {i : InstanceId} (h : t.step w choice = some m)
    (hi : i ≠ inst) (hb : w.heartbeat i = true) (howner : (w.apply m.access).owner j = some i) :
    w.owner j = some i ∨ t.TakesOver w inst j := by
  by_cases hkind : m.access.kind = .owner
  swap
  · rw [apply_owner w hkind] at howner
    exact .inl howner
  cases Task.step_moved h with
  | @dispatch d n hs =>
    obtain ⟨c, provider, hpc, ha⟩ := dispatch_owner hs hkind
    have hset : Function.update w.owner c.uuid (some d.inst) j = some i := by
      simpa only [Moved.map, ha, World.apply] using howner
    by_cases hj : j = c.uuid
    · obtain rfl : d.inst = i := by simpa [hj] using hset
      exact .inr ⟨hi, hb, by rw [hpc]; exact hj.symm⟩
    · exact .inl (by simpa [Function.update_of_ne hj] using hset)
  | @run v n hs =>
    rcases worker_owner hs hkind with ha | ⟨ha, hpc, hdue⟩
    · have hremoved : Function.update w.owner v.uuid none j = some i := by
        simpa only [Moved.map, ha, World.apply] using howner
      by_cases hj : j = v.uuid
      · simp [hj] at hremoved
      · exact .inl (by simpa [Function.update_of_ne hj] using hremoved)
    · have hset : (if (w.owner v.uuid).isSome = true then
          Function.update w.owner v.uuid (some v.inst) else w.owner) j = some i := by
        simpa only [Moved.map, ha, World.apply] using howner
      by_cases hsome : (w.owner v.uuid).isSome = true
      · rw [if_pos hsome] at hset
        by_cases hj : j = v.uuid
        · subst hj
          obtain rfl : v.inst = i := by simpa using hset
          exact .inr ⟨hi, rfl, hb, Option.isSome_iff_ne_none.mp hsome, by rw [hpc]; exact hdue⟩
        · exact .inl (by simpa [Function.update_of_ne hj] using hset)
      · rw [if_neg hsome] at hset
        exact .inl hset
  | _ => exact absurd hkind (ne_of_mayAccess (task_mayAccess h) rfl)

/-- A job that is executed by a live owner after a step was so before it, or the step took it
over. -/
theorem executedElsewhere_before {c c' : Config} {a : Action} (h : ConfigMoved c a c')
    (hex : c'.ExecutedElsewhere inst j) : c.ExecutedElsewhere inst j ∨ TakesOver c inst j a := by
  obtain ⟨u, hu, hux⟩ := hex
  cases u with
  | run v =>
    obtain ⟨hended, huuid, hinst, hb, howner⟩ := hux
    rcases worker_before h hu with ⟨v₀, hv₀, hargs, hended₀⟩ | hspawned
    · have huuid₀ : v₀.uuid = j := by rw [Worker.uuid, hargs]; exact huuid
      have hinst₀ : v₀.inst = v.inst := by rw [Worker.inst, hargs]; rfl
      have hbefore : c.world.heartbeat v.inst = true → c.world.owner j = some v.inst →
          c.ExecutedElsewhere inst j := by
        intro hb howner
        exact ⟨.run v₀, hv₀, hended₀ hended, huuid₀, hinst₀ ▸ hinst, hinst₀ ▸ hb, hinst₀ ▸ howner⟩
      have hon : c.ExecutedOn v.inst j := ⟨v₀, hv₀, hended₀ hended, huuid₀, hinst₀⟩
      cases h with
      | run hk hm hreplaced _ =>
        have hb' : c.world.heartbeat v.inst = true := by rwa [apply_heartbeat] at hb
        rcases owner_after hm hinst hb' howner with howner' | htakes
        · exact .inl (hbefore hb' howner')
        · exact .inr ⟨_, hk, htakes⟩
      | owner id i =>
        by_cases hj : j = id
        · subst hj
          obtain rfl : i = some v.inst := by simpa using howner
          exact .inr ⟨rfl, hinst, hon⟩
        · exact .inl (hbefore hb (by simpa [Function.update_of_ne hj] using howner))
      | heartbeat i alive =>
        by_cases hi : v.inst = i
        · subst hi
          obtain rfl : alive = true := by simpa using hb
          exact .inr ⟨hinst, hon⟩
        · exact .inl (hbefore (by simpa [Function.update_of_ne hi] using hb) howner)
      | start hcan => exact .inl (hbefore hb howner)
      | tick elapsed => exact .inl (hbefore hb howner)
      | restart i => exact .inl (hbefore hb howner)
    · obtain ⟨k, choice, d, candidate, provider, rfl, hk, hpc, rfl⟩ := hspawned
      cases h with
      | run hk' hm hreplaced _ =>
        have hb' : c.world.heartbeat d.inst = true := by
          rw [apply_heartbeat] at hb
          exact hb
        exact .inr ⟨_, hk, hinst, hb', by rw [hpc]; exact huuid⟩
  | _ => exact hux.elim

end Steps

/-! ## Runs -/

/-- No recovery holds a job that a live instance executes. -/
def Config.RecoverySparing (c : Config) : Prop :=
  ∀ r job, .recover r ∈ c.tasks → r.Holds job → ¬ c.ExecutedElsewhere r.inst job.id

/-- What a recovery holds after a step it held before, or it just decided to enqueue it. -/
theorem recover_holds {w : World} {r : Recover} {m : Moved Recover} {job : InferenceJob}
    (hr : r.pc.NotRunning) (h : r.step w = some m) (hm : m.next.Holds job) :
    m.next.inst = r.inst ∧ (r.Holds job ∨ ∃ todo, r.pc = .each (job :: todo)) := by
  obtain ⟨inst, pc⟩ := r
  obtain ⟨todo', htodo'⟩ := hm
  cases pc with
  | list =>
    simp only [Recover.step] at h
    split at h <;> (obtain rfl := Option.some.inj h; simp [Recover.goto] at htodo')
  | each todo =>
    obtain rfl := Option.some.inj h
    cases todo with
    | nil => simp [Recover.each, Recover.goto] at htodo'
    | cons job' todo =>
      have hjob : job'.status ≠ .running := hr job' (List.mem_cons_self ..)
      simp only [Recover.each, Recover.goto, if_neg hjob] at htodo'
      obtain rfl : job' = job := by simpa using And.left (by simpa using htodo')
      exact ⟨by simp [Recover.each, Recover.goto], .inr ⟨todo, rfl⟩⟩
  | readOwner job todo => exact hr.elim
  | readHeartbeat owner job todo => exact hr.elim
  | resetStatus job todo => exact hr.elim
  | insertEntry job' todo =>
    obtain rfl := Option.some.inj h
    obtain ⟨rfl, -⟩ : job' = job ∧ todo = todo' := by simpa [Recover.goto] using htodo'
    exact ⟨rfl, .inl ⟨todo, .inl rfl⟩⟩
  | enqueue job' todo =>
    obtain rfl := Option.some.inj h
    simp [Recover.goto] at htodo'
  | finished => cases h

theorem recoverySparing_step {c c' : Config} {a : Action} (hc : c.RecoverySparing)
    (hnr : ∀ t ∈ c.tasks, t.NotRunning) (hok : RecoversUnowned c a) (h : ConfigMoved c a c') :
    c'.RecoverySparing := by
  intro r job hr hholds hex
  -- the recovery held the job before the step, or has just decided
  have hbefore : ∃ r₀, r₀.inst = r.inst ∧ .recover r₀ ∈ c.tasks ∧
      (r₀.Holds job ∨ ∃ k choice todo, a = .run k choice ∧ c.tasks[k]? = some (.recover r₀) ∧
        r₀.pc = .each (job :: todo)) := by
    cases h with
    | @start s hcan =>
      rcases List.mem_append.mp hr with hr | hr
      · exact ⟨r, rfl, hr, .inl hholds⟩
      · have hnew : Config.started c s = .recover r := (List.mem_singleton.mp hr).symm
        obtain ⟨todo, hpc⟩ := hholds
        cases s <;> cases hnew
        simp at hpc
    | @run k choice t m others tasks hk hm hreplaced _ =>
      rcases hreplaced.mem_after.mp hr with hnext | hother | hnew
      · cases Task.step_moved hm with
        | @recover r₀ n hs =>
          obtain rfl : r = n.next := Task.recover.inj hnext
          obtain ⟨hinst, hcase⟩ := recover_holds (hnr _ hreplaced.task_mem) hs hholds
          refine ⟨r₀, hinst.symm, hreplaced.task_mem, hcase.imp_right ?_⟩
          rintro ⟨todo, hpc⟩
          exact ⟨k, choice, todo, rfl, hk, hpc⟩
        | _ => cases hnext
      · exact ⟨r, rfl, hreplaced.other_mem_before hother, .inl hholds⟩
      · obtain ⟨s, -, hs⟩ := List.mem_map.mp hnew
        cases s <;> cases hs
    | restart inst =>
      obtain ⟨u, hu, hur⟩ := List.mem_map.mp hr
      split at hur
      · cases hur
      · exact ⟨r, rfl, hur ▸ hu, .inl hholds⟩
    | tick elapsed => exact ⟨r, rfl, hr, .inl hholds⟩
    | owner id' inst => exact ⟨r, rfl, hr, .inl hholds⟩
    | heartbeat inst alive => exact ⟨r, rfl, hr, .inl hholds⟩
  obtain ⟨r₀, hinst, hr₀, hcase⟩ := hbefore
  rw [← hinst] at hex
  rcases executedElsewhere_before h hex with hex | htakes
  · rcases hcase with hholds | ⟨k, choice, todo, rfl, hk, hpc⟩
    · exact hc r₀ job hr₀ hholds hex
    · exact hok.1 k choice r₀ job todo rfl hk hpc hex
  · rcases hcase with hholds | ⟨k, choice, todo, rfl, hk, hpc⟩
    · exact hok.2 r₀ job hr₀ hholds htakes
    · obtain ⟨t, ht, htakes⟩ := htakes
      obtain rfl : .recover r₀ = t := Option.some.inj (hk.symm.trans ht)
      exact htakes

/-- Recovery never enqueues a job that a live instance executes, as long as it does not meet such a
job where it skips the look at the owner. -/
theorem recovery_spares_executed_jobs {d : Deployment} {c : Config}
    (h : Run Config.step RecoversUnowned (Config.init d) c) :
    ∀ r job todo, .recover r ∈ c.tasks → r.pc = .enqueue job todo →
      ¬ c.ExecutedElsewhere r.inst job.id := by
  have hinv : c.RecoverySparing := by
    refine h.invariant (fun r job hr => by cases hr) ?_
    intro c c' a hrun hc hok hs
    exact recoverySparing_step hc (no_row_running hrun).2 hok (Config.step_moved hs)
  intro r job todo hr hpc
  exact hinv r job hr ⟨todo, .inr hpc⟩

/-- Whether nobody dispatches or executes anything, and the surroundings do nothing. -/
def nobodyExecutes (c : Config) (a : Action) : Bool :=
  (c.tasks.all fun t => match t with
    | .run _ | .dispatch _ => false
    | _ => true) &&
  match a with
  | .start _ | .run _ _ => true
  | _ => false

theorem recoversUnowned_of_nobodyExecutes (c : Config) (a : Action)
    (h : nobodyExecutes c a = true) : RecoversUnowned c a := by
  obtain ⟨htasks, ha⟩ := (Bool.and_eq_true _ _).mp h
  have hidle := List.all_eq_true.mp htasks
  refine ⟨?_, ?_⟩
  · rintro k choice r job todo - - - ⟨t, ht, hex⟩
    have htask := hidle t ht
    cases t with
    | run v => cases htask
    | _ => exact hex
  · rintro r job - - htakes
    cases a with
    | run k choice =>
      obtain ⟨t, ht, htakes⟩ := htakes
      have htask := hidle t (List.mem_of_getElem? ht)
      cases t with
      | run v => cases htask
      | dispatch d => cases htask
      | _ => exact htakes
    | start s => exact htakes
    | _ => cases ha

namespace Config

/-- Whether some recovery is about to enqueue a job that passes a test. -/
def anyRecovery (c : Config) (p : Recover → InferenceJob → Bool) : Bool :=
  c.tasks.any fun t => match t with
    | .recover r => match r.pc with
      | .enqueue job _ => p r job
      | _ => false
    | _ => false

theorem mem_of_anyRecovery {c : Config} {p : Recover → InferenceJob → Bool}
    (h : c.anyRecovery p = true) :
    ∃ r job todo, .recover r ∈ c.tasks ∧ r.pc = .enqueue job todo ∧ p r job = true := by
  obtain ⟨t, ht, hp⟩ := List.any_eq_true.mp h
  cases t with
  | recover r =>
    cases hpc : r.pc with
    | enqueue job todo => exact ⟨r, job, todo, ht, hpc, by simpa [hpc] using hp⟩
    | _ => simp [hpc] at hp
  | _ => cases hp

end Config

/-- A queued job of instance 0 is enqueued again by a recovery on instance 1. -/
theorem recovery_spares_queued_job :
    ∃ c r job todo, Run Config.step RecoversUnowned (Config.init twoInstances) c ∧
      .recover r ∈ c.tasks ∧ r.pc = .enqueue job todo ∧ ¬ c.ExecutedElsewhere r.inst job.id := by
  have hexec : (exec Config.step nobodyExecutes (Config.init twoInstances)
      (.flatten [.start (.submit 0 (plainRequest "hi")) :: List.replicate 6 (.run 0 .go),
        .start (.recover 1) :: List.replicate 3 (.run 1 .go)])).any (fun c =>
          c.anyRecovery fun _ _ => true) = true := by decide +kernel
  obtain ⟨c, hrun, hc⟩ := Run.exists_of_exec recoversUnowned_of_nobodyExecutes hexec
  obtain ⟨r, job, todo, hr, hpc, -⟩ := Config.mem_of_anyRecovery hc
  exact ⟨c, r, job, todo, hrun, hr, hpc, recovery_spares_executed_jobs hrun r job todo hr hpc⟩

/-- Instance 0 executes a job, alive and as its owner, and a recovery on instance 1 puts it back
into the queue. -/
theorem recovery_enqueues_executed_job :
    ∃ c r job todo k c', Run Config.step (fun _ _ => True) (Config.init twoInstances) c ∧
      .recover r ∈ c.tasks ∧ r.pc = .enqueue job todo ∧ c.ExecutedElsewhere r.inst job.id ∧
      c.step (.run k .go) = some c' ∧ job.id ∉ c.world.queue.zset ∧
      job.id ∈ c'.world.queue.zset := by
  have hexec : (exec Config.step (fun _ _ => true) (Config.init twoInstances)
      (.flatten [submitThenDispatch (plainRequest "hi") 0 2,
        .start (.recover 1) :: List.replicate 3 (.run 3 .go)])).any (fun c =>
          c.anyRecovery fun r job => decide (c.ExecutedElsewhere r.inst job.id) &&
            decide (job.id ∉ c.world.queue.zset) &&
            (c.step (.run 3 .go)).any fun c' => job.id ∈ c'.world.queue.zset) = true := by
    decide +kernel
  obtain ⟨c, hrun, hc⟩ : ∃ c, Run Config.step (fun _ _ => True) _ c ∧ _ = true :=
    Run.exists_of_exec (fun _ _ _ => trivial) hexec
  obtain ⟨r, job, todo, hr, hpc, hp⟩ := Config.mem_of_anyRecovery hc
  obtain ⟨hp, hafter⟩ := (Bool.and_eq_true _ _).mp hp
  obtain ⟨hex, hout⟩ := (Bool.and_eq_true _ _).mp hp
  obtain ⟨c', hc', hin⟩ := (Option.any_eq_true _ _).mp hafter
  exact ⟨c, r, job, todo, 3, c', hrun, hr, hpc, of_decide_eq_true hex, hc', of_decide_eq_true hout,
    of_decide_eq_true hin⟩

end Veronex
