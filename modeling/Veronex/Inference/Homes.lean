import Veronex.Inference.Invariants

/-! # Cells and homes

`world_named`: the cells of an entry carry the instance and the job of the entry, and a cell that is
not made yet has no waiting reader.

`homes_reachable`: where dispatchers and recovery adopt no job, the entries of a job are on the
instance that submitted it, and so is everybody who has seen one: the dispatchers that loaded it, its
workers, the cancels that marked it.
-/
namespace Veronex
open Concurrency
set_option autoImplicit false

/-! ## Cells -/

/-- A cell made for a job of an instance, among the first `made` cells. -/
structure Cell.MadeFor (n : Cell) (made : ℕ) (role : CellRole) (i : InstanceId) (j : Uuid) :
    Prop where
  role : n.role = role
  inst : n.inst = i
  job : n.job = j
  made : n.serial < made

/-- The cells of an entry. -/
structure JobEntry.Named (e : JobEntry) (made : ℕ) (i : InstanceId) (j : Uuid) : Prop where
  notify : e.notify.MadeFor made .notify i j
  cancelNotify : e.cancelNotify.MadeFor made .cancelNotify i j

structure World.Named (w : World) : Prop where
  entries : ∀ i j e, w.jobs i j = some e → e.Named w.nextCell i j
  fresh : ∀ n, w.nextCell ≤ n.serial → w.waiting n = []

/-- The cells a task has in its hands. -/
def Task.Named (w : World) : Task → Prop
  | .submit s => match s.pc with
    | .insertEntry job cell => cell.MadeFor w.nextCell .cancelNotify s.inst job.id
    | _ => True
  | .stream s => match s.pc with
    | .await n | .parked n => n.MadeFor w.nextCell .notify s.inst s.uuid
    | _ => True
  | .run v => v.cancelNotify.role ≠ .notify
  | _ => True

section Cells
variable {w : World} {a : Access} {choice : Choice} {i : InstanceId} {j : Uuid} {e : JobEntry}

theorem nextCell_le_apply (w : World) (a : Access) : w.nextCell ≤ (w.apply a).nextCell := by
  cases a with
  | newCells n => exact Nat.le_add_right ..
  | insertEntry inst id entry => exact Nat.le_add_right ..
  | orInsertEntry inst id entry => exact Nat.le_add_right ..
  | insertNotifier inst id cell => exact Nat.le_add_right ..
  | _ => exact le_rfl

theorem Cell.MadeFor.mono {n : Cell} {k l : ℕ} {role : CellRole} (h : n.MadeFor k role i j)
    (hle : k ≤ l) : n.MadeFor l role i j :=
  ⟨h.role, h.inst, h.job, h.made.trans_le hle⟩

theorem JobEntry.Named.mono {k l : ℕ} (h : e.Named k i j) (hle : k ≤ l) : e.Named l i j :=
  ⟨h.notify.mono hle, h.cancelNotify.mono hle⟩

theorem JobEntry.Named.update {k : ℕ} (h : e.Named k i j) (u : EntryUpdate) :
    (u.apply e).Named k i j := by
  have hsame := u.sameOrigin e
  refine ⟨?_, ?_⟩
  · rw [hsame.notify]
    exact h.notify
  · rw [hsame.cancelNotify]
    exact h.cancelNotify

theorem Task.Named.mono {w w' : World} {t : Task} (h : t.Named w) (hle : w.nextCell ≤ w'.nextCell) :
    t.Named w' := by
  cases t with
  | submit s =>
    obtain ⟨inst, req, pc⟩ := s
    cases pc with
    | insertEntry job cell => exact Cell.MadeFor.mono h hle
    | _ => trivial
  | stream s =>
    obtain ⟨reader, inst, uuid, yielded, pc⟩ := s
    cases pc with
    | await n => exact Cell.MadeFor.mono h hle
    | parked n => exact Cell.MadeFor.mono h hle
    | _ => trivial
  | run v => exact h
  | _ => trivial

/-- The entries an access makes are named for their place. -/
def Access.MakesNamed (w : World) : Access → Prop
  | .insertEntry i j e | .orInsertEntry i j e => e.Named (w.nextCell + 3) i j
  | .awaitNotify n _ => n.serial < w.nextCell
  | _ => True

theorem adoptedEntry_named (w : World) (i : InstanceId) (j : Uuid) (job : InferenceJob) :
    (adoptedEntry w i j job).Named (w.nextCell + 3) i j := by
  refine ⟨⟨rfl, rfl, rfl, ?_⟩, ⟨rfl, rfl, rfl, ?_⟩⟩
  · show w.nextCell + 0 < w.nextCell + 3
    omega
  · show w.nextCell + 1 < w.nextCell + 3
    omega

theorem World.Named.apply (hw : w.Named) (ha : a.MakesNamed w) : (w.apply a).Named where
  entries i j e he := by
    have hle := nextCell_le_apply w a
    rcases apply_jobs he with he | ⟨e₀, u, he₀, rfl, rfl⟩ | rfl | ⟨-, rfl⟩
    · exact (hw.entries i j e he).mono hle
    · exact ((hw.entries i j e₀ he₀).update u).mono hle
    · exact ha
    · exact ha
  fresh n hn := by
    have hold : w.waiting n = [] := hw.fresh n ((nextCell_le_apply w a).trans hn)
    cases a with
    | notifyOne cell =>
      by_cases hcell : n = cell
      · subst hcell
        simp [World.apply, hold]
      · simp [World.apply, Function.update_of_ne hcell, hold]
    | awaitNotify cell reader =>
      have hcell : n ≠ cell := by
        rintro rfl
        exact absurd hn (Nat.not_le.mpr ha)
      simp only [World.apply]
      split
      · exact hold
      · rw [Function.update_of_ne hcell, hold]
    | _ => exact hold

theorem makesNamed_of_kind (hmake : a.kind ≠ .makeEntry) (hawait : a.kind ≠ .await) :
    a.MakesNamed w := by
  cases a with
  | insertEntry i j e => exact absurd rfl hmake
  | orInsertEntry i j e => exact absurd rfl hmake
  | awaitNotify n r => exact absurd rfl hawait
  | _ => trivial

theorem submit_named {s : Submit} {m : Moved Submit} (hs : (Task.submit s).Named w)
    (h : s.step w = some m) :
    m.access.MakesNamed w ∧ (Task.submit m.next).Named (w.apply m.access) := by
  obtain ⟨inst, req, pc⟩ := s
  cases pc
  case insertNotifier job =>
    obtain rfl := Option.some.inj h
    refine ⟨trivial, ⟨rfl, rfl, rfl, ?_⟩⟩
    show w.nextCell + 0 < w.nextCell + 1
    omega
  case insertEntry job cell =>
    obtain rfl := Option.some.inj h
    refine ⟨⟨⟨rfl, rfl, rfl, ?_⟩, Cell.MadeFor.mono hs (Nat.le_add_right ..)⟩, trivial⟩
    show w.nextCell + 0 < w.nextCell + 3
    omega
  case enqueue job =>
    obtain rfl := Option.some.inj h
    refine ⟨trivial, ?_⟩
    simp only [Submit.goto, Task.Named]
    split
    · next heq => split at heq <;> cases heq
    · trivial
  all_goals simp only [Submit.step] at h
  all_goals repeat' (split at h)
  all_goals first
    | (obtain rfl := Option.some.inj h; exact ⟨trivial, trivial⟩)
    | cases h

theorem stream_named {s : Stream} {m : Moved Stream} (hw : w.Named) (hs : (Task.stream s).Named w)
    (h : s.step w = some m) :
    m.access.MakesNamed w ∧ (Task.stream m.next).Named (w.apply m.access) := by
  obtain ⟨reader, inst, uuid, yielded, pc⟩ := s
  cases pc with
  | lookup =>
    obtain rfl := Option.some.inj h
    refine ⟨trivial, ?_⟩
    simp only [Stream.goto, Task.Named]
    split
    · next heq => split at heq <;> cases heq
    · next heq => split at heq <;> cases heq
    · trivial
  | database =>
    obtain rfl := Option.some.inj h
    refine ⟨trivial, ?_⟩
    simp only [Stream.fromDatabase]
    split
    · trivial
    · trivial
    · split <;> trivial
  | read =>
    simp only [Stream.step] at h
    split at h
    · obtain rfl := Option.some.inj h
      exact ⟨trivial, trivial⟩
    · next e he =>
      obtain rfl := Option.some.inj h
      refine ⟨trivial, ?_⟩
      cases hdone : e.done with
      | true => trivial
      | false => exact (hw.entries inst uuid e he).notify
  | await n =>
    obtain rfl := Option.some.inj h
    have hmade : n.MadeFor (w.apply (.awaitNotify n reader)).nextCell .notify inst uuid := hs
    refine ⟨hs.made, ?_⟩
    simp only [Stream.goto, Task.Named]
    split
    · next heq => split at heq <;> cases heq
    · next heq =>
      split at heq
      · cases heq
      · cases heq
        exact hmade
    · trivial
  | parked n =>
    simp only [Stream.step] at h
    split at h
    · cases h
    · obtain rfl := Option.some.inj h
      exact ⟨trivial, trivial⟩
  | finished result => cases h

/-- The signal of a worker never becomes a reader's cell. -/
theorem worker_cancelNotify {v : Worker} {m : Moved Worker} (h : v.step w choice = some m) :
    m.next.cancelNotify = v.cancelNotify ∨ v.pc = .capture :=
  (worker_keeps h).cancelNotify

/-- A worker takes permits, but parks nowhere. -/
theorem worker_awaits {v : Worker} {m : Moved Worker} (h : v.step w choice = some m) :
    m.access.kind ≠ .await ∨ m.access = .takePermit v.cancelNotify := by
  have htouches := worker_touches h
  generalize m.access = a at htouches
  cases htouches with
  | takes => exact .inr rfl
  | other hkind => left; rw [hkind]; rintro ⟨⟩
  | _ => exact .inl (by rintro ⟨⟩)

theorem worker_named {v : Worker} {m : Moved Worker} (hw : w.Named) (hv : v.cancelNotify.role ≠ .notify)
    (h : v.step w choice = some m) : m.next.cancelNotify.role ≠ .notify := by
  rcases worker_cancelNotify h with hsame | hcapture
  · rw [hsame]
    exact hv
  · simp only [Worker.step, hcapture] at h
    split at h
    · next e he =>
      obtain rfl := Option.some.inj h
      dsimp only
      rw [(hw.entries _ _ e he).cancelNotify.role]
      decide
    · obtain rfl := Option.some.inj h
      dsimp only [World.cell]
      decide

theorem dispatch_makesNamed {d : Dispatch} {m : Moved Dispatch} (h : d.step w choice = some m) :
    m.access.MakesNamed w := by
  obtain ⟨inst, pc⟩ := d
  cases pc
  case adopt now id score job todo scored =>
    obtain rfl := Option.some.inj h
    exact adoptedEntry_named w inst id job
  case load now todo scored =>
    obtain rfl := Option.some.inj h
    cases todo with
    | nil => trivial
    | cons entry todo =>
      simp only [Dispatch.loadStep]
      split <;> trivial
  case failJob c rest pc =>
    obtain rfl := Option.some.inj h
    cases pc
    case entry =>
      simp only [Dispatch.failStep]
      split <;> trivial
    all_goals trivial
  all_goals simp only [Dispatch.step, Dispatch.attemptStep] at h
  all_goals repeat' (split at h)
  all_goals first
    | (obtain rfl := Option.some.inj h; trivial)
    | cases h

theorem recover_makesNamed {r : Recover} {m : Moved Recover} (h : r.step w = some m) :
    m.access.MakesNamed w := by
  obtain ⟨inst, pc⟩ := r
  cases pc
  case insertEntry job todo =>
    obtain rfl := Option.some.inj h
    have hadopted := adoptedEntry_named w inst job.id job
    exact ⟨hadopted.notify, hadopted.cancelNotify⟩
  all_goals simp only [Recover.step] at h
  all_goals repeat' (split at h)
  all_goals first
    | (obtain rfl := Option.some.inj h; trivial)
    | cases h

/-- Every step keeps the names, and nobody else's are touched. -/
theorem task_named {t : Task} {m : Moved Task} (hw : w.Named) (ht : t.Named w)
    (h : t.step w choice = some m) :
    m.access.MakesNamed w ∧ m.next.Named (w.apply m.access) := by
  have hkind := task_mayAccess h
  cases Task.step_moved h with
  | submit hs => exact submit_named ht hs
  | stream hs => exact stream_named hw ht hs
  | run hs =>
    refine ⟨?_, worker_named hw ht hs⟩
    rcases worker_awaits hs with hkind' | hpermit
    · exact makesNamed_of_kind (ne_of_mayAccess hkind rfl) hkind'
    · rw [Moved.map, hpermit]
      trivial
  | dispatch hs => exact ⟨dispatch_makesNamed hs, trivial⟩
  | recover hs => exact ⟨recover_makesNamed hs, trivial⟩
  | _ =>
    exact ⟨makesNamed_of_kind (ne_of_mayAccess hkind rfl) (ne_of_mayAccess hkind rfl), trivial⟩

theorem spawn_named (s : Spawn) : s.task.Named w := by
  cases s with
  | run args =>
    show CellRole.stop ≠ CellRole.notify
    decide
  | _ => trivial

end Cells

theorem world_named {ok : Config → Action → Prop} {d : Deployment} {c : Config}
    (h : Run Config.step ok (Config.init d) c) :
    c.world.Named ∧ ∀ t ∈ c.tasks, t.Named c.world := by
  refine local_invariant (W := World.Named) (T := fun w t => t.Named w) ⟨?_, fun _ _ => rfl⟩
    (fun c s => ?_) (fun _ => trivial) (fun w w' henv hw => ?_) ?_ h
  · intro i j e he
    cases he
  · cases s <;> trivial
  · cases henv with
    | restart inst =>
      refine ⟨⟨fun i j e he => ?_, hw.fresh⟩, fun t ht => ht⟩
      by_cases hi : i = inst
      · subst hi
        simp at he
      · exact hw.entries i j e (by simpa [Function.update_of_ne hi] using he)
    | _ => exact ⟨⟨hw.entries, hw.fresh⟩, fun t ht => ht⟩
  · intro c k choice t m hw ht _ _ hm
    obtain ⟨hmakes, hnext⟩ := task_named hw ht hm
    exact ⟨hw.apply hmakes, hnext, fun s _ => spawn_named s,
      fun u hu => hu.mono (nextCell_le_apply ..)⟩

/-! ## Homes -/

/-- The instance that submitted a job. -/
def World.HomeOf (w : World) (i : InstanceId) (j : Uuid) : Prop :=
  ∃ req, w.requests j = some (i, req)

/-- The jobs a dispatcher has loaded. -/
def DispatchPc.candidates : DispatchPc → List Candidate
  | .load _ _ scored | .fetch _ _ _ _ scored | .dropMissing _ _ _ scored
  | .adopt _ _ _ _ _ scored | .sort _ scored | .attempt scored => scored
  | .countMiss c rest | .claimToFail c rest | .failJob c rest _ | .resetMisses c _ rest
  | .claim c _ rest => c :: rest
  | .assign c _ | .setOwner c _ => [c]
  | .len | .peek _ | .finished => []

/-- The job of a submission that has not inserted its entry. -/
def SubmitPc.building : SubmitPc → Option Uuid
  | .save job | .insertNotifier job | .insertEntry job _ => some job.id
  | _ => none

/-- The job of a submission that has inserted its entry. -/
def SubmitPc.inserted : SubmitPc → Option Uuid
  | .incrPending job | .enqueue job | .rejectDecr job | .rejectEntry job | .rejectNotifier job
  | .rejectRow job => some job.id
  | _ => none

def Task.building : Task → Option Uuid
  | .submit s => s.pc.building
  | _ => none

/-- A task that has seen an entry of the job on the instance. -/
def Task.Knows (i : InstanceId) (j : Uuid) : Task → Prop
  | .submit s => s.inst = i ∧ s.pc.inserted = some j
  | .dispatch d => d.inst = i ∧ ∃ c ∈ d.pc.candidates, c.uuid = j
  | .run v => v.inst = i ∧ v.uuid = j
  | .cancel x => x.inst = i ∧ x.uuid = j ∧ x.prev ≠ none
  | _ => False

/-- A dispatcher or a recovery about to adopt a job finds an entry of it. -/
def Task.AdoptsNothing (w : World) : Task → Prop
  | .dispatch d => match d.pc with
    | .adopt _ id _ _ _ _ => (w.jobs d.inst id).isSome
    | _ => True
  | .recover r => match r.pc with
    | .insertEntry job _ => (w.jobs r.inst job.id).isSome
    | _ => True
  | _ => True

def AdoptsNothing (c : Config) : Action → Prop
  | .run k _ => ∀ t, c.tasks[k]? = some t → t.AdoptsNothing c.world
  | _ => True

section Knowledge
variable {w : World} {choice : Choice} {i : InstanceId} {j : Uuid} {e : JobEntry}

theorem submit_knows {s : Submit} {m : Moved Submit} (h : s.step w = some m)
    (hknows : (Task.submit m.next).Knows i j) :
    (Task.submit s).Knows i j ∨ ∃ e, m.access = .insertEntry i j e := by
  obtain ⟨inst, req, pc⟩ := s
  cases pc
  case insertEntry job cell =>
    obtain rfl := Option.some.inj h
    obtain ⟨rfl, hj⟩ := hknows
    obtain rfl := Option.some.inj hj
    exact .inr ⟨_, rfl⟩
  case enqueue job =>
    obtain rfl := Option.some.inj h
    obtain ⟨hi, hj⟩ := hknows
    simp only [Submit.goto] at hj
    split at hj
    · cases hj
    · exact .inl ⟨hi, hj⟩
  all_goals simp only [Submit.step] at h
  all_goals repeat' (split at h)
  all_goals first
    | (obtain rfl := Option.some.inj h; exact .inl hknows)
    | (obtain rfl := Option.some.inj h; cases hknows.2)
    | cases h

theorem cancel_knows {x : Cancel} {m : Moved Cancel} (h : x.step w = some m)
    (hknows : (Task.cancel m.next).Knows i j) :
    (Task.cancel x).Knows i j ∨ ∃ e, w.jobs i j = some e := by
  obtain ⟨inst, uuid, isLocal, prev, pc⟩ := x
  cases pc
  case mark =>
    simp only [Cancel.step] at h
    split at h
    · obtain rfl := Option.some.inj h
      exact .inl hknows
    · next e he =>
      split at h
      · obtain rfl := Option.some.inj h
        exact .inl hknows
      · obtain rfl := Option.some.inj h
        obtain ⟨rfl, rfl, -⟩ := hknows
        exact .inr ⟨e, he⟩
  all_goals simp only [Cancel.step] at h
  all_goals first
    | (obtain rfl := Option.some.inj h; exact .inl hknows)
    | cases h

theorem dispatch_inst {d : Dispatch} {m : Moved Dispatch} (h : d.step w choice = some m) :
    m.next.inst = d.inst := by
  obtain ⟨inst, pc⟩ := d
  cases pc
  case load now todo scored =>
    obtain rfl := Option.some.inj h
    cases todo with
    | nil => rfl
    | cons entry todo =>
      simp only [Dispatch.loadStep]
      split <;> rfl
  case failJob c rest pc =>
    obtain rfl := Option.some.inj h
    cases pc
    case entry =>
      simp only [Dispatch.failStep]
      split <;> rfl
    all_goals rfl
  all_goals simp only [Dispatch.step, Dispatch.attemptStep] at h
  all_goals repeat' (split at h)
  all_goals first
    | (obtain rfl := Option.some.inj h; rfl)
    | cases h

/-- A dispatcher loads a job from an entry of its instance, or adopts it. -/
theorem dispatch_loads {d : Dispatch} {m : Moved Dispatch} (h : d.step w choice = some m)
    {c : Candidate} (hc : c ∈ m.next.pc.candidates) :
    c ∈ d.pc.candidates ∨ (∃ e, w.jobs d.inst c.uuid = some e) ∨
      ∃ now score job todo scored, d.pc = .adopt now c.uuid score job todo scored := by
  obtain ⟨inst, pc⟩ := d
  cases pc with
  | load now todo scored =>
    obtain rfl := Option.some.inj h
    cases todo with
    | nil =>
      simp only [Dispatch.loadStep, Dispatch.goto] at hc
      split at hc
      · cases hc
      · exact .inl hc
    | cons entry todo =>
      obtain ⟨id, score⟩ := entry
      simp only [Dispatch.loadStep] at hc
      cases hjob : w.jobs inst id with
      | none =>
        rw [hjob] at hc
        exact .inl hc
      | some e =>
        rw [hjob] at hc
        rcases List.mem_append.mp hc with hc | hc
        · exact .inl hc
        · obtain rfl := List.mem_singleton.mp hc
          exact .inr (.inl ⟨e, hjob⟩)
  | adopt now id score job todo scored =>
    obtain rfl := Option.some.inj h
    rcases List.mem_append.mp hc with hc | hc
    · exact .inl hc
    · obtain rfl := List.mem_singleton.mp hc
      exact .inr (.inr ⟨now, score, job, todo, scored, rfl⟩)
  | sort now scored =>
    simp only [Dispatch.step] at h
    split at h
    · obtain rfl := Option.some.inj h
      exact .inl ((List.perm_insertionSort _ _).mem_iff.mp hc)
    · cases h
  | attempt rest =>
    cases rest with
    | nil => obtain rfl := Option.some.inj h; cases hc
    | cons c rest =>
      simp only [Dispatch.step, Dispatch.attemptStep] at h
      split at h <;> first
        | (obtain rfl := Option.some.inj h; exact .inl hc)
        | cases h
  | failJob c rest pc =>
    obtain rfl := Option.some.inj h
    cases pc with
    | entry =>
      simp only [Dispatch.failStep] at hc
      split at hc <;> exact .inl hc
    | row => exact .inl (List.mem_cons_of_mem _ hc)
    | _ => exact .inl hc
  | peek k =>
    obtain rfl := Option.some.inj h
    simp only [Dispatch.goto] at hc
    split at hc <;> cases hc
  | fetch now id score todo scored =>
    simp only [Dispatch.step] at h
    repeat' (split at h)
    all_goals
      obtain rfl := Option.some.inj h
      exact .inl hc
  | countMiss c rest =>
    obtain rfl := Option.some.inj h
    simp only [Dispatch.goto] at hc
    split at hc
    · exact .inl (List.mem_cons_of_mem _ hc)
    · exact .inl hc
  | claimToFail c rest =>
    obtain rfl := Option.some.inj h
    simp only [Dispatch.goto] at hc
    split at hc
    · exact .inl hc
    · exact .inl (List.mem_cons_of_mem _ hc)
  | resetMisses c provider rest =>
    obtain rfl := Option.some.inj h
    cases provider with
    | none => exact .inl (List.mem_cons_of_mem _ hc)
    | some p => exact .inl hc
  | claim c provider rest =>
    obtain rfl := Option.some.inj h
    simp only [Dispatch.goto] at hc
    split at hc
    · obtain rfl := List.mem_singleton.mp hc
      exact .inl List.mem_cons_self
    · exact .inl (List.mem_cons_of_mem _ hc)
  | setOwner c provider => obtain rfl := Option.some.inj h; cases hc
  | finished => cases h
  | _ =>
    obtain rfl := Option.some.inj h
    exact .inl hc

theorem dispatch_candidates {d : Dispatch} {m : Moved Dispatch} (h : d.step w choice = some m)
    (hadopts : (Task.dispatch d).AdoptsNothing w) {c : Candidate} (hc : c ∈ m.next.pc.candidates) :
    c ∈ d.pc.candidates ∨ ∃ e, w.jobs d.inst c.uuid = some e := by
  rcases dispatch_loads h hc with hold | hentry | ⟨now, score, job, todo, scored, hpc⟩
  · exact .inl hold
  · exact .inr hentry
  · simp only [Task.AdoptsNothing, hpc] at hadopts
    exact .inr (Option.isSome_iff_exists.mp hadopts)

/-- Where nothing is adopted, knowledge of a job comes from an entry, or from inserting it. -/
theorem knows_step {t : Task} {m : Moved Task} (h : t.step w choice = some m)
    (hadopts : t.AdoptsNothing w)
    (hknows : m.next.Knows i j ∨ ∃ s ∈ m.spawned, s.task.Knows i j) :
    t.Knows i j ∨ (∃ e, w.jobs i j = some e) ∨ ∃ e, m.access = .insertEntry i j e := by
  rcases hknows with hnext | ⟨s, hs, hknows⟩
  · cases Task.step_moved h with
    | submit hs => exact (submit_knows hs hnext).imp_right .inr
    | cancel hs => exact (cancel_knows hs hnext).imp_right .inl
    | dispatch hs =>
      obtain ⟨hi, c, hc, rfl⟩ := hnext
      have hinst := dispatch_inst hs
      rcases dispatch_candidates hs hadopts hc with hold | hentry
      · exact .inl ⟨hinst ▸ hi, c, hold, rfl⟩
      · exact .inr (.inl (by rwa [← hinst, hi] at hentry))
    | run hs =>
      left
      obtain ⟨hi, hj⟩ := hnext
      have hargs := step_args hs
      exact ⟨by rw [← hi, Worker.inst, Worker.inst, hargs], by rw [← hj, Worker.uuid, Worker.uuid, hargs]⟩
    | _ => exact hnext.elim
  · cases s with
    | run args =>
      cases ht : t.isDispatch with
      | false => exact absurd rfl (task_plain h ht _ hs args)
      | true =>
        cases Task.step_moved h with
        | @dispatch d n hd =>
          rcases dispatch_spawned hd with hplain | ⟨c, provider, hpc, -, hspawned⟩
          · exact absurd rfl (hplain _ hs args)
          · have hrun : Spawn.run args ∈ [Spawn.run (d.runArgs c provider)] := by
              simpa only [Moved.map, hspawned] using hs
            obtain rfl := Spawn.run.inj (List.mem_singleton.mp hrun)
            obtain ⟨hi, hj⟩ := hknows
            exact .inl ⟨hi, c, by rw [hpc]; exact List.mem_singleton.mpr rfl, hj⟩
        | _ => cases ht
    | _ => exact hknows.elim

/-- What a dispatcher makes, it adopts. -/
theorem dispatch_adopts {d : Dispatch} {m : Moved Dispatch} (h : d.step w choice = some m)
    (hkind : m.access.kind = .makeEntry) :
    ∃ now id score job todo scored, d.pc = .adopt now id score job todo scored ∧
      m.access = .orInsertEntry d.inst id (adoptedEntry w d.inst id job) := by
  obtain ⟨inst, pc⟩ := d
  cases pc
  case adopt now id score job todo scored =>
    obtain rfl := Option.some.inj h
    exact ⟨now, id, score, job, todo, scored, rfl, rfl⟩
  case load now todo scored =>
    obtain rfl := Option.some.inj h
    cases todo with
    | nil => cases hkind
    | cons entry todo =>
      simp only [Dispatch.loadStep] at hkind
      split at hkind <;> cases hkind
  case failJob c rest pc =>
    obtain rfl := Option.some.inj h
    cases pc
    case entry =>
      simp only [Dispatch.failStep] at hkind
      split at hkind <;> cases hkind
    all_goals cases hkind
  all_goals simp only [Dispatch.step, Dispatch.attemptStep] at h
  all_goals repeat' (split at h)
  all_goals first
    | (obtain rfl := Option.some.inj h; cases hkind)
    | cases h

theorem recover_adopts {r : Recover} {m : Moved Recover} (h : r.step w = some m)
    (hkind : m.access.kind = .makeEntry) :
    ∃ job todo, r.pc = .insertEntry job todo ∧
      m.access = .orInsertEntry r.inst job.id (recoveredEntry w r.inst job) := by
  obtain ⟨inst, pc⟩ := r
  cases pc
  case insertEntry job todo =>
    obtain rfl := Option.some.inj h
    exact ⟨job, todo, rfl, rfl⟩
  all_goals simp only [Recover.step] at h
  all_goals repeat' (split at h)
  all_goals first
    | (obtain rfl := Option.some.inj h; cases hkind)
    | cases h

theorem submit_inserts {s : Submit} {m : Moved Submit} (h : s.step w = some m)
    (hkind : m.access.kind = .makeEntry) :
    ∃ job cell, s.pc = .insertEntry job cell ∧
      m.access = .insertEntry s.inst job.id (submittedEntry w s.inst s.req job cell) ∧
      m.next = s.goto (.incrPending job) := by
  obtain ⟨inst, req, pc⟩ := s
  cases pc
  case insertEntry job cell =>
    obtain rfl := Option.some.inj h
    exact ⟨job, cell, rfl, rfl, rfl⟩
  all_goals simp only [Submit.step] at h
  all_goals repeat' (split at h)
  all_goals first
    | (obtain rfl := Option.some.inj h; cases hkind)
    | cases h

/-- Who makes an entry: the submission of the job, a dispatcher or recovery. -/
theorem entry_made {t : Task} {m : Moved Task} (h : t.step w choice = some m)
    (ha : m.access = .insertEntry i j e ∨ m.access = .orInsertEntry i j e) :
    (∃ s job cell, t = .submit s ∧ s.pc = .insertEntry job cell ∧ job.id = j ∧
      e = submittedEntry w s.inst s.req job cell) ∨
    (∃ job, e = adoptedEntry w i j job) ∨ ∃ job, job.id = j ∧ e = recoveredEntry w i job := by
  have hkind : m.access.kind = .makeEntry := by
    rcases ha with ha | ha <;> (rw [ha]; rfl)
  have hmay := task_mayAccess h
  rw [hkind] at hmay
  cases Task.step_moved h with
  | @submit s n hs =>
    obtain ⟨job, cell, hpc, hinsert, -⟩ := submit_inserts hs hkind
    rcases ha with ha | ha
    · obtain ⟨-, hid, he⟩ := Access.insertEntry.inj (hinsert.symm.trans ha)
      exact .inl ⟨s, job, cell, rfl, hpc, hid, he.symm⟩
    · cases hinsert.symm.trans ha
  | dispatch hs =>
    obtain ⟨_, _, _, job, _, _, -, hadopt⟩ := dispatch_adopts hs hkind
    rcases ha with ha | ha
    · cases hadopt.symm.trans ha
    · obtain ⟨rfl, rfl, he⟩ := Access.orInsertEntry.inj (hadopt.symm.trans ha)
      exact .inr (.inl ⟨job, he.symm⟩)
  | recover hs =>
    obtain ⟨job, _, -, hadopt⟩ := recover_adopts hs hkind
    rcases ha with ha | ha
    · cases hadopt.symm.trans ha
    · obtain ⟨rfl, hid, he⟩ := Access.orInsertEntry.inj (hadopt.symm.trans ha)
      exact .inr (.inr ⟨job, hid, he.symm⟩)
  | _ => cases hmay

/-- An entry is made by the submission that builds its job. -/
theorem inserts_building {t : Task} {m : Moved Task} (h : t.step w choice = some m)
    (ha : m.access = .insertEntry i j e) :
    ∃ s, t = .submit s ∧ s.inst = i ∧ s.pc.building = some j ∧ m.next.building = none := by
  have hkind : m.access.kind = .makeEntry := by rw [ha]; rfl
  have hmay := task_mayAccess h
  rw [hkind] at hmay
  cases Task.step_moved h with
  | @submit s n hs =>
    obtain ⟨job, cell, hpc, hinsert, hnext⟩ := submit_inserts hs hkind
    obtain ⟨rfl, rfl, -⟩ := Access.insertEntry.inj (hinsert.symm.trans ha)
    refine ⟨s, rfl, rfl, by rw [hpc]; rfl, ?_⟩
    rw [Moved.map, hnext]
    rfl
  | dispatch hs =>
    obtain ⟨_, _, _, _, _, _, -, hadopt⟩ := dispatch_adopts hs hkind
    cases hadopt.symm.trans ha
  | recover hs =>
    obtain ⟨_, _, -, hadopt⟩ := recover_adopts hs hkind
    cases hadopt.symm.trans ha
  | _ => cases hmay

/-- Where nothing is adopted, an entry is an old one or a submission's. -/
theorem entry_step {t : Task} {m : Moved Task} (h : t.step w choice = some m)
    (hadopts : t.AdoptsNothing w) (he : (w.apply m.access).jobs i j = some e) :
    (∃ e₀, w.jobs i j = some e₀) ∨ m.access = .insertEntry i j e := by
  rcases apply_jobs he with hold | ⟨e₀, u, he₀, -, -⟩ | hinsert | ⟨hnone, hadopt⟩
  · exact .inl ⟨e, hold⟩
  · exact .inl ⟨e₀, he₀⟩
  · exact .inr hinsert
  · exfalso
    have hkind : m.access.kind = .makeEntry := by rw [hadopt]; rfl
    have hmay := task_mayAccess h
    rw [hkind] at hmay
    cases Task.step_moved h with
    | submit hs =>
      obtain ⟨_, _, -, hinsert, -⟩ := submit_inserts hs hkind
      cases hinsert.symm.trans hadopt
    | dispatch hs =>
      obtain ⟨_, id, _, _, _, _, hpc, hor⟩ := dispatch_adopts hs hkind
      obtain ⟨rfl, rfl, -⟩ := Access.orInsertEntry.inj (hor.symm.trans hadopt)
      simp only [Task.AdoptsNothing, hpc] at hadopts
      rw [hnone] at hadopts
      cases hadopts
    | recover hs =>
      obtain ⟨job, _, hpc, hor⟩ := recover_adopts hs hkind
      obtain ⟨rfl, rfl, -⟩ := Access.orInsertEntry.inj (hor.symm.trans hadopt)
      simp only [Task.AdoptsNothing, hpc] at hadopts
      rw [hnone] at hadopts
      cases hadopts
    | _ => cases hmay

/-- A submission starts to build the job whose id it has just made. -/
theorem submit_building {s : Submit} {m : Moved Submit} (h : s.step w = some m)
    (hbuilding : m.next.pc.building = some j) :
    m.next.inst = s.inst ∧ (s.pc.building = some j ∨
      m.access = .newJob s.inst s.req ∧ j = w.nextJob) := by
  obtain ⟨inst, req, pc⟩ := s
  cases pc
  case create =>
    simp only [Submit.step] at h
    split at h
    · obtain rfl := Option.some.inj h
      cases hbuilding
    · next job hjob =>
      obtain rfl := Option.some.inj h
      obtain ⟨prompt, modelName, -, -, rfl⟩ := buildJob_ok hjob
      exact ⟨rfl, .inr ⟨rfl, (Option.some.inj hbuilding).symm⟩⟩
  case enqueue job =>
    obtain rfl := Option.some.inj h
    simp only [Submit.goto] at hbuilding
    split at hbuilding <;> cases hbuilding
  all_goals simp only [Submit.step] at h
  all_goals first
    | (obtain rfl := Option.some.inj h; exact ⟨rfl, .inl hbuilding⟩)
    | (obtain rfl := Option.some.inj h; cases hbuilding)
    | cases h

theorem building_step {t : Task} {m : Moved Task} (h : t.step w choice = some m)
    (hbuilding : m.next.building = some j) :
    ∃ s s', t = .submit s ∧ m.next = .submit s' ∧ s'.inst = s.inst ∧
      (s.pc.building = some j ∨ m.access = .newJob s.inst s.req ∧ j = w.nextJob) := by
  cases Task.step_moved h with
  | @submit s n hs =>
    obtain ⟨hinst, hcases⟩ := submit_building hs hbuilding
    exact ⟨s, n.next, rfl, rfl, hinst, hcases⟩
  | _ => cases hbuilding

theorem spawn_building (s : Spawn) : s.task.building = none := by
  cases s <;> rfl

theorem World.HomeOf.apply {a : Access} (hw : RequestsMade w) (h : w.HomeOf i j) :
    (w.apply a).HomeOf i j := by
  obtain ⟨req, hreq⟩ := h
  exact ⟨req, apply_requests a hw hreq⟩

theorem World.HomeOf.unique {i' : InstanceId} (h : w.HomeOf i j) (h' : w.HomeOf i' j) : i = i' := by
  obtain ⟨req, hreq⟩ := h
  obtain ⟨req', hreq'⟩ := h'
  exact (Prod.mk.inj (Option.some.inj (hreq.symm.trans hreq'))).1

theorem World.HomeOf.lt (hw : RequestsMade w) (h : w.HomeOf i j) : j < w.nextJob := by
  obtain ⟨req, hreq⟩ := h
  exact hw j _ hreq

end Knowledge

/-- A task that is about to insert the entry of a job. -/
def Task.builds (j : Uuid) (t : Task) : ℕ := if t.building = some j then 1 else 0

structure Config.Homes (c : Config) : Prop where
  made : RequestsMade c.world
  /-- Entries and knowledge of a job are on the instance that submitted it. -/
  entries : ∀ i j e, c.world.jobs i j = some e → c.world.HomeOf i j
  knows : ∀ t ∈ c.tasks, ∀ i j, t.Knows i j → c.world.HomeOf i j
  /-- One submission inserts the entry of a job, and before nobody has seen one. -/
  once : ∀ j, weight (Task.builds j) c.tasks ≤ 1
  built : ∀ s j, .submit s ∈ c.tasks → s.pc.building = some j → c.world.HomeOf s.inst j
  absent : ∀ t ∈ c.tasks, ∀ j, t.building = some j → ∀ i, c.world.jobs i j = none
  unknown : ∀ t ∈ c.tasks, ∀ j, t.building = some j → ∀ u ∈ c.tasks, ∀ i, ¬ u.Knows i j

section Homes
variable {c c' : Config} {j : Uuid}

theorem builds_of_building {t : Task} (h : t.building = some j) : t.builds j = 1 := if_pos h

/-- Of two tasks that build a job one is the other. -/
theorem Config.Homes.not_both (hc : c.Homes) {t t' : Task} {new others tasks : List Task}
    (hreplaced : Replaced c.tasks t t' new others tasks) (ht : t.building = some j) {u : Task}
    (hu : u ∈ others) : u.building ≠ some j := by
  intro hbuilding
  have hbefore := hreplaced.weight_before (Task.builds j)
  have hle := le_weight_of_mem (Task.builds j) hu
  have honce := hc.once j
  rw [builds_of_building ht] at hbefore
  rw [builds_of_building hbuilding] at hle
  omega

theorem Config.Homes.run {choice : Choice} {t : Task} {m : Moved Task}
    {others tasks : List Task} (hc : c.Homes) (hadopts : t.AdoptsNothing c.world)
    (hm : t.step c.world choice = some m)
    (hreplaced : Replaced c.tasks t m.next (m.spawned.map Spawn.task) others tasks) :
    Config.Homes { world := c.world.apply m.access, tasks } := by
  have ht : t ∈ c.tasks := hreplaced.task_mem
  have hhome : ∀ i j, c.world.HomeOf i j → (c.world.apply m.access).HomeOf i j :=
    fun i j h => h.apply hc.made
  -- the entry that the step inserts is at home
  have hinsert : ∀ i j e, m.access = .insertEntry i j e → c.world.HomeOf i j ∧
      t.building = some j ∧ m.next.building = none := by
    intro i j e ha
    obtain ⟨s, rfl, rfl, hbuilding, hnext⟩ := inserts_building hm ha
    exact ⟨hc.built s j ht hbuilding, hbuilding, hnext⟩
  have hknows : ∀ u ∈ tasks, ∀ i j, u.Knows i j →
      (∃ v ∈ c.tasks, v.Knows i j) ∨ (∃ e, c.world.jobs i j = some e) ∨
        ∃ e, m.access = .insertEntry i j e := by
    intro u hu i j hknows
    rcases hreplaced.mem_after.mp hu with rfl | hother | hnew
    · rcases knows_step hm hadopts (.inl hknows) with hold | hrest
      · exact .inl ⟨t, ht, hold⟩
      · exact .inr hrest
    · exact .inl ⟨u, hreplaced.other_mem_before hother, hknows⟩
    · obtain ⟨s, hs, rfl⟩ := List.mem_map.mp hnew
      rcases knows_step hm hadopts (.inr ⟨s, hs, hknows⟩) with hold | hrest
      · exact .inl ⟨t, ht, hold⟩
      · exact .inr hrest
  -- before its insert, a job has no entry and nobody who knows it
  have hclear : ∀ u ∈ tasks, ∀ j, u.building = some j → (∀ i, c.world.jobs i j = none) ∧
      (∀ v ∈ c.tasks, ∀ i, ¬ v.Knows i j) ∧ ∀ i e, m.access ≠ .insertEntry i j e := by
    intro u hu j hbuilding
    rcases hreplaced.mem_after.mp hu with rfl | hother | hnew
    · have hno : ∀ i e, m.access ≠ .insertEntry i j e := by
        intro i e ha
        rw [(hinsert i j e ha).2.2] at hbuilding
        cases hbuilding
      obtain ⟨s, s', rfl, -, -, hold | ⟨-, hfresh⟩⟩ := building_step hm hbuilding
      · exact ⟨hc.absent _ ht j hold, hc.unknown _ ht j hold, hno⟩
      · subst hfresh
        refine ⟨fun i => ?_, fun v hv i hknown => ?_, hno⟩
        · cases hjob : c.world.jobs i c.world.nextJob with
          | none => rfl
          | some e => exact absurd ((hc.entries i _ e hjob).lt hc.made) (lt_irrefl _)
        · exact absurd ((hc.knows v hv i _ hknown).lt hc.made) (lt_irrefl _)
    · have hold := hreplaced.other_mem_before hother
      refine ⟨hc.absent u hold j hbuilding, hc.unknown u hold j hbuilding, fun i e ha => ?_⟩
      exact hc.not_both hreplaced (hinsert i j e ha).2.1 hother hbuilding
    · obtain ⟨s, -, rfl⟩ := List.mem_map.mp hnew
      rw [spawn_building] at hbuilding
      cases hbuilding
  have hnone : ∀ u ∈ tasks, ∀ j, u.building = some j → ∀ i,
      (c.world.apply m.access).jobs i j = none := by
    intro u hu j hbuilding i
    obtain ⟨habsent, -, hno⟩ := hclear u hu j hbuilding
    cases hjob : (c.world.apply m.access).jobs i j with
    | none => rfl
    | some e =>
      rcases entry_step hm hadopts hjob with ⟨e₀, he₀⟩ | ha
      · rw [habsent i] at he₀
        cases he₀
      · exact absurd ha (hno i e)
  refine ⟨hc.made.apply _, fun i j e he => ?_, fun u hu i j hknown => ?_, fun j => ?_,
    fun s j hs hbuilding => ?_, hnone, fun u hu j hbuilding v hv i hknown => ?_⟩
  · rcases entry_step hm hadopts he with ⟨e₀, he₀⟩ | ha
    · exact hhome i j (hc.entries i j e₀ he₀)
    · exact hhome i j (hinsert i j e ha).1
  · rcases hknows u hu i j hknown with ⟨v, hv, hold⟩ | ⟨e, he⟩ | ⟨e, ha⟩
    · exact hhome i j (hc.knows v hv i j hold)
    · exact hhome i j (hc.entries i j e he)
    · exact hhome i j (hinsert i j e ha).1
  · show weight (Task.builds j) tasks ≤ 1
    have hbefore := hreplaced.weight_before (Task.builds j)
    have hafter := hreplaced.weight_after (Task.builds j)
    have hspawned : weight (Task.builds j) (m.spawned.map Spawn.task) = 0 := by
      refine (weight_eq_zero _).mpr fun u hu => ?_
      obtain ⟨s, -, rfl⟩ := List.mem_map.mp hu
      rw [Task.builds, spawn_building]
      rfl
    have honce := hc.once j
    by_cases hbuilding : m.next.building = some j
    · have hothers : weight (Task.builds j) others = 0 := by
        refine (weight_eq_zero _).mpr fun u hu => if_neg fun hbuilds => ?_
        obtain ⟨s, s', rfl, -, -, hold | ⟨-, hfresh⟩⟩ := building_step hm hbuilding
        · exact hc.not_both hreplaced hold hu hbuilds
        · -- the id is new
          cases u with
          | submit s₀ =>
            have hold := hc.built s₀ j (hreplaced.other_mem_before hu) hbuilds
            exact absurd (hold.lt hc.made) (Nat.not_lt.mpr hfresh.ge)
          | _ => cases hbuilds
      have hone : m.next.builds j = 1 := builds_of_building hbuilding
      omega
    · have hzero : m.next.builds j = 0 := if_neg hbuilding
      omega
  · rcases hreplaced.mem_after.mp hs with hnext | hother | hnew
    · have hnext' : m.next.building = some j := by rw [← hnext]; exact hbuilding
      obtain ⟨s₀, s', rfl, hs', hinst, hold | ⟨ha, hfresh⟩⟩ := building_step hm hnext'
      · obtain rfl : s = s' := Task.submit.inj (hnext.trans hs')
        rw [hinst]
        exact hhome _ _ (hc.built s₀ j ht hold)
      · obtain rfl : s = s' := Task.submit.inj (hnext.trans hs')
        rw [hinst]
        refine ⟨s₀.req, ?_⟩
        rw [ha, hfresh]
        exact Function.update_self ..
    · exact hhome _ _ (hc.built s j (hreplaced.other_mem_before hother) hbuilding)
    · obtain ⟨sp, -, hsp⟩ := List.mem_map.mp hnew
      cases sp <;> cases hsp
  · obtain ⟨habsent, hunknown, hno⟩ := hclear u hu j hbuilding
    rcases hknows v hv i j hknown with ⟨v', hv', hold⟩ | ⟨e, he⟩ | ⟨e, ha⟩
    · exact hunknown v' hv' i hold
    · rw [habsent i] at he
      cases he
    · exact hno i e ha

theorem Config.Homes.of_tasks (hc : c.Homes) {w : World} {tasks : List Task}
    (hrequests : w.requests = c.world.requests) (hnextJob : w.nextJob = c.world.nextJob)
    (hjobs : ∀ i j e, w.jobs i j = some e → c.world.jobs i j = some e)
    (hknows : ∀ u ∈ tasks, ∀ i j, u.Knows i j → u ∈ c.tasks)
    (hbuilding : ∀ u ∈ tasks, ∀ j, u.building = some j → u ∈ c.tasks)
    (honce : ∀ j, weight (Task.builds j) tasks ≤ weight (Task.builds j) c.tasks) :
    Config.Homes { world := w, tasks } := by
  have hhome : ∀ i j, c.world.HomeOf i j → w.HomeOf i j := by
    rintro i j ⟨req, hreq⟩
    exact ⟨req, by rw [hrequests]; exact hreq⟩
  refine ⟨?_, fun i j e he => hhome i j (hc.entries i j e (hjobs i j e he)),
    fun u hu i j hknown => hhome i j (hc.knows u (hknows u hu i j hknown) i j hknown),
    fun j => (honce j).trans (hc.once j),
    fun s j hs hb => hhome _ _ (hc.built s j (hbuilding _ hs j hb) hb), ?_, ?_⟩
  · intro j r hr
    rw [hrequests] at hr
    rw [hnextJob]
    exact hc.made j r hr
  · intro u hu j hb i
    cases hjob : w.jobs i j with
    | none => rfl
    | some e =>
      have hold := hjobs i j e hjob
      rw [hc.absent u (hbuilding u hu j hb) j hb i] at hold
      cases hold
  · intro u hu j hb v hv i hknown
    exact hc.unknown u (hbuilding u hu j hb) j hb v (hknows v hv i j hknown) i hknown

theorem started_knows (c : Config) (s : Start) (i : InstanceId) (j : Uuid) :
    ¬ (c.started s).Knows i j := by
  cases s with
  | submit inst req => rintro ⟨-, h⟩; cases h
  | cancel inst uuid => exact fun h => h.2.2 rfl
  | dispatch inst => rintro ⟨-, x, hx, -⟩; cases hx
  | _ => exact id

theorem started_building (c : Config) (s : Start) : (c.started s).building = none := by
  cases s <;> rfl

theorem homes_step {a : Action} (hc : c.Homes) (hok : AdoptsNothing c a) (h : ConfigMoved c a c') :
    c'.Homes := by
  cases h with
  | @start s hcan =>
    refine hc.of_tasks rfl rfl (fun _ _ _ he => he) (fun u hu i j hknown => ?_)
      (fun u hu j hb => ?_) fun j => ?_
    · rcases List.mem_append.mp hu with hu | hu
      · exact hu
      · obtain rfl := List.mem_singleton.mp hu
        exact absurd hknown (started_knows c s i j)
    · rcases List.mem_append.mp hu with hu | hu
      · exact hu
      · obtain rfl := List.mem_singleton.mp hu
        rw [started_building] at hb
        cases hb
    · have hzero : (c.started s).builds j = 0 := by
        rw [Task.builds, started_building]
        rfl
      rw [weight_append, weight_cons, hzero, weight_nil]
      omega
  | run ht hm hreplaced hothers => exact hc.run (hok _ ht) hm hreplaced
  | restart inst =>
    refine hc.of_tasks rfl rfl (fun i j e he => ?_) (fun u hu i j hknown => ?_)
      (fun u hu j hb => ?_) fun j => weight_map_le _ fun t _ => ?_
    · by_cases hi : i = inst
      · subst hi
        simp at he
      · simpa [Function.update_of_ne hi] using he
    · obtain ⟨v, hv, rfl⟩ := List.mem_map.mp hu
      split at hknown
      · exact hknown.elim
      · rwa [if_neg (by assumption)]
    · obtain ⟨v, hv, rfl⟩ := List.mem_map.mp hu
      split at hb
      · cases hb
      · rwa [if_neg (by assumption)]
    · split
      · exact Nat.zero_le _
      · exact le_rfl
  | tick elapsed => exact ⟨hc.made, hc.entries, hc.knows, hc.once, hc.built, hc.absent, hc.unknown⟩
  | owner id inst =>
    exact ⟨hc.made, hc.entries, hc.knows, hc.once, hc.built, hc.absent, hc.unknown⟩
  | heartbeat inst alive =>
    exact ⟨hc.made, hc.entries, hc.knows, hc.once, hc.built, hc.absent, hc.unknown⟩

theorem homes_reachable {d : Deployment} (h : Run Config.step AdoptsNothing (Config.init d) c) :
    c.Homes := by
  refine h.invariant ?_ fun c c' a _ hc hok hs => homes_step hc hok (Config.step_moved hs)
  refine ⟨fun j r hr => ?_, fun i j e he => ?_, fun t ht => ?_, fun j => Nat.zero_le _,
    fun s j hs => ?_, fun t ht => ?_, fun t ht => ?_⟩
  · cases hr
  · cases he
  all_goals exact absurd (by assumption) List.not_mem_nil

/-- Whoever knows a job, and whoever has an entry of it, is on the same instance. -/
theorem Config.Homes.home_unique (hc : c.Homes) {t : Task} (ht : t ∈ c.tasks) {i i' : InstanceId}
    (hknows : t.Knows i j) {e : JobEntry} (he : c.world.jobs i' j = some e) : i' = i :=
  (hc.entries i' j e he).unique (hc.knows t ht i j hknows)

end Homes

end Veronex
