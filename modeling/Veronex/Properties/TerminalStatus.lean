import Veronex.Inference.Invariants

/-! # The terminal status of an entry

Once the status of a `JobEntry` is completed, failed or cancelled it is meant to stay. `cancel`
looks before it writes. The other writers do not, or look for a cancelled entry only: the setup of
`run_job`, its token budget, the two failures of a run, `fail_job_no_provider`, the finalizer, and
the `insert` of `submit`. `Task.Spares` says for each of them what it must not find.

`terminal_status_kept_iff`: the steps of a run keep every terminal status exactly if each writer is
spared what it would overwrite.
-/
namespace Veronex
open Concurrency
set_option autoImplicit false

/-! ## Accesses -/

/-- A terminal status is still there, unless its entry is gone. -/
def World.KeepsTerminal (w w' : World) : Prop :=
  ∀ i j e e', w.jobs i j = some e → e.status.isTerminal → w'.jobs i j = some e' →
    e'.status = e.status

/-- What an access needs of the entry it writes. -/
def Access.Spares (w : World) : Access → Prop
  | .updateEntry i j u => ∀ e, w.jobs i j = some e → e.status.isTerminal →
      (u.apply e).status = e.status
  | .insertEntry i j entry => ∀ e, w.jobs i j = some e → e.status.isTerminal →
      entry.status = e.status
  | _ => True

section Accesses
variable {w : World} {a : Access} {i : InstanceId} {j : Uuid} {e : JobEntry}

theorem keepsTerminal_apply_iff : w.KeepsTerminal (w.apply a) ↔ a.Spares w := by
  constructor
  · intro hkept
    cases a with
    | updateEntry i j u =>
      intro e he hterminal
      exact hkept i j e (u.apply e) he hterminal (by simp [World.apply, he])
    | insertEntry i j entry =>
      intro e he hterminal
      exact hkept i j e entry he hterminal (by simp [World.apply])
    | _ => trivial
  · intro hspares i j e e' he hterminal he'
    rcases apply_jobs he' with hsame | ⟨e₀, u, he₀, rfl, rfl⟩ | rfl | ⟨hnone, -⟩
    · rw [Option.some.inj (he.symm.trans hsame)]
    · obtain rfl : e = e₀ := Option.some.inj (he.symm.trans he₀)
      exact hspares e he hterminal
    · exact hspares e he hterminal
    · rw [hnone] at he
      cases he

theorem spares_of_kind (hmake : a.kind ≠ .makeEntry) (hupdate : a.kind ≠ .updateEntry) :
    a.Spares w := by
  cases a with
  | insertEntry i j entry => exact absurd rfl hmake
  | updateEntry i j u => exact absurd rfl hupdate
  | _ => trivial

theorem spares_updateEntry (he : w.jobs i j = some e) (u : EntryUpdate) :
    (Access.updateEntry i j u).Spares w ↔
      (e.status.isTerminal → (u.apply e).status = e.status) := by
  constructor
  · exact fun h => h e he
  · intro h e' he'
    obtain rfl : e = e' := Option.some.inj (he.symm.trans he')
    exact h

end Accesses

/-! ## The writers -/

/-- The status of an entry that is there. -/
def World.statusAt (w : World) (i : InstanceId) (j : Uuid) : Option JobStatus :=
  (w.jobs i j).map JobEntry.status

/-- What the writes of a worker must not find. -/
def Worker.Spares (w : World) (v : Worker) : Prop :=
  match v.pc with
  | .setup => w.statusAt v.inst v.uuid ≠ some .completed ∧ w.statusAt v.inst v.uuid ≠ some .failed
  | .lifecycleEntry _ | .errorEntry _ =>
    w.statusAt v.inst v.uuid ≠ some .completed ∧ w.statusAt v.inst v.uuid ≠ some .cancelled
  | .received (.ok token) =>
    -- the token budget
    ∀ e, w.jobs v.inst v.uuid = some e → MAX_TOKENS_PER_JOB < e.tokens.length →
      (Worker.consume v.ts token w.now v.startedAt).isSome → e.status ≠ .completed
  | .finalEntry => w.statusAt v.inst v.uuid ≠ some .failed
  | _ => True

/-- What the writes of the dispatcher must not find. -/
def Dispatch.Spares (w : World) (d : Dispatch) : Prop :=
  match d.pc with
  | .failJob c _ .entry =>
    w.statusAt d.inst c.uuid ≠ some .completed ∧ w.statusAt d.inst c.uuid ≠ some .cancelled
  | _ => True

/-- A submission inserts a pending entry. -/
def Submit.Spares (w : World) (s : Submit) : Prop :=
  match s.pc with
  | .insertEntry job _ => ∀ status, w.statusAt s.inst job.id = some status →
      status.isTerminal = false
  | _ => True

def Task.Spares (w : World) : Task → Prop
  | .submit s => s.Spares w
  | .dispatch d => d.Spares w
  | .run v => v.Spares w
  | _ => True

section Writers
variable {w : World} {choice : Choice} {i : InstanceId} {j : Uuid} {e : JobEntry}

theorem statusAt_some (he : w.jobs i j = some e) : w.statusAt i j = some e.status := by
  rw [World.statusAt, he]
  rfl

theorem statusAt_none (he : w.jobs i j = none) : w.statusAt i j = none := by
  rw [World.statusAt, he]
  rfl

/-- A failure leaves a failed entry failed. -/
theorem spares_failed (he : w.jobs i j = some e) (error reason : String) :
    (Access.updateEntry i j (.failed error reason)).Spares w ↔
      w.statusAt i j ≠ some .completed ∧ w.statusAt i j ≠ some .cancelled := by
  rw [spares_updateEntry he, statusAt_some he]
  cases hs : e.status <;> simp [JobStatus.isTerminal, EntryUpdate.apply]

theorem spares_running (he : w.jobs i j = some e) (hcancelled : e.status ≠ .cancelled)
    (startedAt : Millis) :
    (Access.updateEntry i j (.running startedAt)).Spares w ↔
      w.statusAt i j ≠ some .completed ∧ w.statusAt i j ≠ some .failed := by
  rw [spares_updateEntry he, statusAt_some he]
  cases hs : e.status <;> simp_all [JobStatus.isTerminal, EntryUpdate.apply]

theorem spares_completed (he : w.jobs i j = some e) (hcancelled : e.status ≠ .cancelled)
    (completedAt : Millis) :
    (Access.updateEntry i j (.completed completedAt)).Spares w ↔
      w.statusAt i j ≠ some .failed := by
  rw [spares_updateEntry he, statusAt_some he]
  cases hs : e.status <;> simp_all [JobStatus.isTerminal, EntryUpdate.apply]

theorem submit_spares_iff {s : Submit} {m : Moved Submit} (h : s.step w = some m) :
    m.access.Spares w ↔ s.Spares w := by
  obtain ⟨inst, req, pc⟩ := s
  cases pc
  case insertEntry job cell =>
    obtain rfl := Option.some.inj h
    constructor
    · intro hspares status hstatus
      obtain ⟨e, he, rfl⟩ := Option.map_eq_some_iff.mp hstatus
      by_contra hterminal
      have hsame : JobStatus.pending = e.status := hspares e he (by simpa using hterminal)
      rw [← hsame] at hterminal
      exact hterminal rfl
    · intro hspares e he hterminal
      rw [hspares e.status (statusAt_some he)] at hterminal
      cases hterminal
  all_goals simp only [Submit.step] at h
  all_goals repeat' (split at h)
  all_goals first
    | (obtain rfl := Option.some.inj h; exact iff_of_true trivial trivial)
    | cases h

/-- `cancel` marks only an entry that is not terminal. -/
theorem cancel_spares {c : Cancel} {m : Moved Cancel} (h : c.step w = some m) :
    m.access.Spares w := by
  obtain ⟨inst, uuid, isLocal, prev, pc⟩ := c
  cases pc
  case mark =>
    simp only [Cancel.step] at h
    split at h
    · obtain rfl := Option.some.inj h
      trivial
    · next e he =>
      split at h
      · obtain rfl := Option.some.inj h
        trivial
      · next hopen =>
        obtain rfl := Option.some.inj h
        exact (spares_updateEntry he _).mpr fun hterminal => absurd hterminal hopen
  all_goals simp only [Cancel.step] at h
  all_goals first
    | (obtain rfl := Option.some.inj h; trivial)
    | cases h

theorem dispatch_spares_iff {d : Dispatch} {m : Moved Dispatch} (h : d.step w choice = some m) :
    m.access.Spares w ↔ d.Spares w := by
  obtain ⟨inst, pc⟩ := d
  cases pc
  case failJob c rest pc =>
    cases pc
    case entry =>
      simp only [Dispatch.step, Dispatch.failStep] at h
      split at h
      · next hnone =>
        obtain rfl := Option.some.inj h
        refine iff_of_true trivial ?_
        show w.statusAt inst c.uuid ≠ _ ∧ w.statusAt inst c.uuid ≠ _
        rw [statusAt_none hnone]
        simp
      · next e he =>
        obtain rfl := Option.some.inj h
        exact spares_failed he _ _
    all_goals
      obtain rfl := Option.some.inj h
      exact iff_of_true trivial trivial
  case assign c provider =>
    obtain rfl := Option.some.inj h
    exact iff_of_true (fun e he hterminal => rfl) trivial
  case load now todo scored =>
    refine iff_of_true ?_ trivial
    obtain rfl := Option.some.inj h
    cases todo with
    | nil => trivial
    | cons entry todo =>
      simp only [Dispatch.loadStep]
      split <;> trivial
  all_goals simp only [Dispatch.step, Dispatch.attemptStep] at h
  all_goals repeat' (split at h)
  all_goals first
    | (obtain rfl := Option.some.inj h; exact iff_of_true trivial trivial)
    | cases h

theorem tpmAccess_spares (v : Worker) (tokens : ℕ) : (v.tpmAccess w tokens).Spares w :=
  spares_of_kind (by rw [tpmAccess_kind]; decide) (by rw [tpmAccess_kind]; decide)

/-- The finalizer writes `done` alone after its first write. -/
theorem finalStep_spares (v : Worker) (completedAt : Millis) (pc : FinalPc) :
    (v.finalStep w completedAt pc).access.Spares w := by
  cases pc with
  | lostEntry => exact fun e he hterminal => rfl
  | recordTpm => exact tpmAccess_spares v _
  | counters =>
    simp only [Worker.finalStep]
    split
    · split <;> trivial
    · trivial
  | _ =>
    simp only [Worker.finalStep]
    repeat' split
    all_goals trivial

/-- The critical section of an item of the stream. -/
theorem receiveStep_spares_iff (v : Worker) (result : Except String StreamToken) :
    (v.receiveStep w result).access.Spares w ↔ (v.goto (.received result)).Spares w := by
  unfold Worker.receiveStep
  cases he : w.jobs v.inst v.uuid with
  | none =>
    refine iff_of_true trivial ?_
    cases result with
    | error message => trivial
    | ok token =>
      intro e he'
      have hnone : w.jobs v.inst v.uuid = some e := he'
      rw [he] at hnone
      cases hnone
  | some e =>
    have hself : ∀ e', w.jobs (v.goto (.received result)).inst (v.goto (.received result)).uuid =
        some e' → e' = e := fun e' he' => Option.some.inj (he'.symm.trans he)
    dsimp only
    split
    · next hcancelled =>
      refine iff_of_true trivial ?_
      cases result with
      | error message => trivial
      | ok token =>
        intro e' he' _ _ hcompleted
        rw [hself e' he', hcancelled] at hcompleted
        cases hcompleted
    · next hopen =>
      cases result with
      | error message => exact iff_of_true trivial trivial
      | ok token =>
        dsimp only
        cases hconsume : Worker.consume v.ts token w.now v.startedAt with
        | none =>
          refine iff_of_true trivial fun e' he' _ hsome => ?_
          have hconsumed : (Worker.consume v.ts token w.now v.startedAt).isSome := hsome
          rw [hconsume] at hconsumed
          cases hconsumed
        | some result =>
          dsimp only
          split
          · next hbudget =>
            rw [spares_failed he, statusAt_some he]
            constructor
            · intro hspared e' he' _ _ hcompleted
              rw [hself e' he'] at hcompleted
              exact hspared.1 (by rw [hcompleted])
            · intro hspared
              have hne : e.status ≠ .completed :=
                hspared e he hbudget (by
                  show (Worker.consume v.ts token w.now v.startedAt).isSome = true
                  rw [hconsume]
                  rfl)
              exact ⟨by simpa using hne, by simpa using hopen⟩
          · next hfits =>
            refine iff_of_true (fun e' he' hterminal => rfl) fun e' he' hbudget _ => ?_
            rw [hself e' he'] at hbudget
            exact absurd hbudget hfits

theorem worker_spares_iff {v : Worker} {m : Moved Worker} (h : v.step w choice = some m) :
    m.access.Spares w ↔ v.Spares w := by
  obtain ⟨args, job, stop, apiKeyId, tpmMinute, startedAt, cancelNotify, ts, log, pc⟩ := v
  cases pc
  case setup =>
    simp only [Worker.step] at h
    split at h
    · next hnone =>
      obtain rfl := Option.some.inj h
      refine iff_of_true trivial ?_
      show w.statusAt args.inst args.uuid ≠ _ ∧ w.statusAt args.inst args.uuid ≠ _
      have habsent : w.statusAt args.inst args.uuid = none := statusAt_none hnone
      simp [habsent]
    · next e he =>
      split at h
      · next hcancelled =>
        obtain rfl := Option.some.inj h
        refine iff_of_true trivial ?_
        show w.statusAt args.inst args.uuid ≠ _ ∧ w.statusAt args.inst args.uuid ≠ _
        have hstatus : w.statusAt args.inst args.uuid = some e.status := statusAt_some he
        simp [hstatus, hcancelled]
      · next hopen =>
        obtain rfl := Option.some.inj h
        exact spares_running he hopen w.now
  case lifecycleEntry message =>
    simp only [Worker.step] at h
    split at h
    · next hnone =>
      obtain rfl := Option.some.inj h
      refine iff_of_true trivial ?_
      show w.statusAt args.inst args.uuid ≠ _ ∧ w.statusAt args.inst args.uuid ≠ _
      have habsent : w.statusAt args.inst args.uuid = none := statusAt_none hnone
      simp [habsent]
    · next e he =>
      obtain rfl := Option.some.inj h
      exact spares_failed he _ _
  case errorEntry message =>
    simp only [Worker.step] at h
    split at h
    · next hnone =>
      obtain rfl := Option.some.inj h
      refine iff_of_true trivial ?_
      show w.statusAt args.inst args.uuid ≠ _ ∧ w.statusAt args.inst args.uuid ≠ _
      have habsent : w.statusAt args.inst args.uuid = none := statusAt_none hnone
      simp [habsent]
    · next e he =>
      obtain rfl := Option.some.inj h
      exact spares_failed he _ _
  case finalEntry =>
    simp only [Worker.step] at h
    split at h
    · next hnone =>
      obtain rfl := Option.some.inj h
      refine iff_of_true trivial ?_
      have habsent : w.statusAt args.inst args.uuid = none := statusAt_none hnone
      show w.statusAt args.inst args.uuid ≠ _
      simp [habsent]
    · next e he =>
      split at h
      · next hcancelled =>
        obtain rfl := Option.some.inj h
        refine iff_of_true trivial ?_
        have hstatus : w.statusAt args.inst args.uuid = some e.status := statusAt_some he
        show w.statusAt args.inst args.uuid ≠ _
        simp [hstatus, hcancelled]
      · next hopen =>
        obtain rfl := Option.some.inj h
        exact spares_completed he hopen w.now
  case received result =>
    obtain rfl := Option.some.inj h
    exact receiveStep_spares_iff _ result
  case final completedAt pc =>
    obtain rfl := Option.some.inj h
    exact iff_of_true (finalStep_spares _ completedAt pc) trivial
  case persist site pc =>
    obtain rfl := Option.some.inj h
    refine iff_of_true ?_ trivial
    cases pc <;> simp only [Worker.persistStep] <;> (try split) <;> trivial
  case block exit pc =>
    obtain rfl := Option.some.inj h
    refine iff_of_true ?_ trivial
    cases pc <;> trivial
  case errorTpm =>
    obtain rfl := Option.some.inj h
    exact iff_of_true (tpmAccess_spares _ 0) trivial
  all_goals simp only [Worker.step] at h
  all_goals repeat' (split at h)
  all_goals first
    | (obtain rfl := Option.some.inj h; exact iff_of_true trivial trivial)
    | (obtain rfl := Option.some.inj h
       exact iff_of_true (fun e he hterminal => rfl) trivial)
    | cases h

/-- Recovery adopts a job only where it has no entry. -/
theorem recover_spares {r : Recover} {m : Moved Recover} (h : r.step w = some m) :
    m.access.Spares w := by
  obtain ⟨inst, pc⟩ := r
  cases pc
  all_goals simp only [Recover.step] at h
  all_goals repeat' (split at h)
  all_goals first
    | (obtain rfl := Option.some.inj h; trivial)
    | cases h

theorem task_spares_iff {t : Task} {m : Moved Task} (h : t.step w choice = some m) :
    m.access.Spares w ↔ t.Spares w := by
  have hkind := task_mayAccess h
  cases Task.step_moved h with
  | submit hs => exact submit_spares_iff hs
  | cancel hs => exact iff_of_true (cancel_spares hs) trivial
  | dispatch hs => exact dispatch_spares_iff hs
  | run hs => exact worker_spares_iff hs
  | recover hs => exact iff_of_true (recover_spares hs) trivial
  | _ =>
    -- the other tasks make and update no entry
    exact iff_of_true
      (spares_of_kind (ne_of_mayAccess hkind rfl) (ne_of_mayAccess hkind rfl)) trivial

end Writers

/-! ## Runs -/

/-- The condition under which a step overwrites no terminal status. -/
def SparesTerminal (c : Config) : Action → Prop
  | .run k _ => ∀ t, c.tasks[k]? = some t → t.Spares c.world
  | _ => True

theorem step_keepsTerminal_iff {c c' : Config} {a : Action} (h : c.step a = some c') :
    c.world.KeepsTerminal c'.world ↔ SparesTerminal c a := by
  have hsame : ∀ w' : World, w'.jobs = c.world.jobs → c.world.KeepsTerminal w' := by
    intro w' hjobs i j e e' he hterminal he'
    rw [hjobs] at he'
    rw [Option.some.inj (he.symm.trans he')]
  cases Config.step_moved h with
  | start hs => exact iff_of_true (hsame _ rfl) trivial
  | run ht hm hreplaced hothers =>
    rw [keepsTerminal_apply_iff, task_spares_iff hm]
    constructor
    · intro hspares u hu
      obtain rfl := Option.some.inj (ht.symm.trans hu)
      exact hspares
    · exact fun hspares => hspares _ ht
  | tick elapsed => exact iff_of_true (hsame _ rfl) trivial
  | restart inst =>
    refine iff_of_true (fun i j e e' he hterminal he' => ?_) trivial
    by_cases hi : i = inst
    · -- the maps of the instance are empty
      subst hi
      simp [Config.restarted] at he'
    · have hjobs : (c.restarted inst).world.jobs i = c.world.jobs i :=
        Function.update_of_ne hi _ _
      rw [hjobs] at he'
      rw [Option.some.inj (he.symm.trans he')]
  | owner id inst => exact iff_of_true (hsame _ rfl) trivial
  | heartbeat inst alive => exact iff_of_true (hsame _ rfl) trivial

/-- Every step of a run keeps every terminal status of an entry exactly if every status write of the
run is spared what it would overwrite. -/
theorem terminal_status_kept_iff (c : Config) (actions : List Action) :
    EachStep Config.step (fun c _ c' => c.world.KeepsTerminal c'.world) c actions ↔
      EachStep Config.step (fun c a _ => SparesTerminal c a) c actions :=
  eachStep_congr (fun _ _ _ (h : Config.step _ _ = some _) => step_keepsTerminal_iff h) c actions

/-- A stream error of a running job, up to the write of its entry, and then a cancel that marks the
entry. -/
def cancelBeforeErrorEntry : List Action :=
  submitThenDispatch (plainRequest "hi") 0 2 ++
    [Action.run 2 .go, Action.run 2 .go, Action.run 2 .pendingFirst, Action.run 2 .go,
      Action.run 2 .go, Action.run 2 .go, Action.run 2 (.item (some (.error "gone"))),
      Action.run 2 .go, Action.run 2 .go, Action.run 2 .go, Action.start (.cancel 0 0),
      Action.run 4 .go, Action.run 4 .go]

/-- The cancelled job becomes a failed one. -/
theorem cancelled_job_fails :
    ¬ ∀ actions, EachStep Config.step (fun c _ c' => c.world.KeepsTerminal c'.world)
      (Config.init twoInstances) actions := by
  intro hall
  have hexec : (exec Config.step (fun _ _ => true) (Config.init twoInstances)
      cancelBeforeErrorEntry).any (fun c =>
        decide (c.world.statusAt 0 0 = some .cancelled) &&
          (c.step (.run 2 .go)).any fun c' =>
            decide (c'.world.statusAt 0 0 = some .failed)) = true := by
    decide +kernel
  obtain ⟨c, hc, htest⟩ := (Option.any_eq_true _ _).mp hexec
  obtain ⟨hbefore, hstep⟩ := (Bool.and_eq_true _ _).mp htest
  obtain ⟨c', hc', hafter⟩ := (Option.any_eq_true _ _).mp hstep
  obtain ⟨e, he, hcancelled⟩ := Option.map_eq_some_iff.mp (of_decide_eq_true hbefore)
  obtain ⟨e', he', hfailed⟩ := Option.map_eq_some_iff.mp (of_decide_eq_true hafter)
  have hkept := (hall (cancelBeforeErrorEntry ++ [.run 2 .go])).last hc hc'
  have hsame := hkept 0 0 e e' he (by rw [hcancelled]; rfl) he'
  rw [hcancelled, hfailed] at hsame
  cases hsame

end Veronex
