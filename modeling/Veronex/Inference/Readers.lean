import Veronex.Inference.Homes

/-! # Settled entries

`notify_one` wakes one reader or leaves a permit for the next one. An entry is settled when it is
terminal and done and no reader is left to wait for it: none has parked, and those about to park
are no more than the permit lets through.

`Config.Settled.step`: a settled entry stays so unless a step opens it. `Config.Ended.notified`: a
notification settles an ended entry that one reader waits for.
-/
namespace Veronex
open Concurrency
set_option autoImplicit false

/-! ## Waiting -/

/-- A reader before its first poll of the cell. -/
def Task.awaits (n : Cell) : Task → ℕ
  | .stream s => match s.pc with
    | .await m => if m = n then 1 else 0
    | _ => 0
  | _ => 0

/-- The readers a cell has to wake. -/
def Config.readersAt (c : Config) (n : Cell) : ℕ :=
  (c.world.waiting n).length + weight (Task.awaits n) c.tasks

/-- No reader of the cell is left to wait. -/
structure Config.Woken (c : Config) (n : Cell) : Prop where
  parked : c.world.waiting n = []
  permitted : weight (Task.awaits n) c.tasks ≤ (c.world.permit n).toNat

/-- The entry of a job on an instance, if there is one, has ended with this cell. -/
def World.Ended (w : World) (i : InstanceId) (j : Uuid) (n : Cell) : Prop :=
  ∀ e, w.jobs i j = some e → e.status.isTerminal = true ∧ e.done = true ∧ e.notify = n

/-- The entry of a job on an instance, if there is one, has ended and its readers know. -/
def Config.Settled (c : Config) (i : InstanceId) (j : Uuid) : Prop :=
  ∀ e, c.world.jobs i j = some e →
    e.status.isTerminal = true ∧ e.done = true ∧ c.Woken e.notify

/-- The entry that the next step of a task makes, or sets running. -/
def Task.opens (w : World) : Task → Option (InstanceId × Uuid)
  | .submit s => match s.pc with
    | .insertEntry job _ => some (s.inst, job.id)
    | _ => none
  | .dispatch d => match d.pc with
    | .adopt _ id _ _ _ _ => if (w.jobs d.inst id).isSome then none else some (d.inst, id)
    | _ => none
  | .recover r => match r.pc with
    | .insertEntry job _ => if (w.jobs r.inst job.id).isSome then none else some (r.inst, job.id)
    | _ => none
  | .run v => match v.pc, w.jobs v.inst v.uuid with
    | .setup, some e => if e.status = .cancelled then none else some (v.inst, v.uuid)
    | _, _ => none
  | _ => none

section Waiting
variable {w : World} {a : Access} {choice : Choice} {i : InstanceId} {j : Uuid} {e : JobEntry}
  {n : Cell}

/-- What an access does to the readers that wait for a cell. -/
theorem apply_waiting (w : World) (a : Access) (n : Cell) :
    (w.apply a).waiting n = w.waiting n ∨
      (a = .notifyOne n ∧ (w.apply a).waiting n = (w.waiting n).tail) ∨
      ∃ reader, a = .awaitNotify n reader ∧ w.permit n = false ∧
        (w.apply a).waiting n = w.waiting n ++ [reader] := by
  cases a with
  | notifyOne cell =>
    by_cases hcell : n = cell
    · subst hcell
      exact .inr (.inl ⟨rfl, by simp [World.apply]⟩)
    · exact .inl (by simp [World.apply, Function.update_of_ne hcell])
  | awaitNotify cell reader =>
    by_cases hcell : n = cell
    · subst hcell
      cases hpermit : w.permit n with
      | true => exact .inl (by simp [World.apply, hpermit])
      | false => exact .inr (.inr ⟨reader, rfl, rfl, by simp [World.apply, hpermit]⟩)
    · left
      simp only [World.apply]
      split
      · rfl
      · rw [Function.update_of_ne hcell]
  | _ => exact .inl rfl

/-- A permit is kept until it is taken. -/
theorem apply_permit (w : World) (a : Access) (n : Cell) (h : w.permit n = true) :
    (w.apply a).permit n = true ∨ a = .takePermit n ∨ ∃ reader, a = .awaitNotify n reader := by
  cases a with
  | notifyOne cell =>
    left
    simp only [World.apply]
    split
    · by_cases hcell : n = cell
      · rw [hcell, Function.update_self]
      · rw [Function.update_of_ne hcell, h]
    · exact h
  | takePermit cell =>
    by_cases hcell : n = cell
    · exact .inr (.inl (by rw [hcell]))
    · exact .inl (by simp [World.apply, Function.update_of_ne hcell, h])
  | awaitNotify cell reader =>
    by_cases hcell : n = cell
    · exact .inr (.inr ⟨reader, by rw [hcell]⟩)
    · exact .inl (by simp [World.apply, Function.update_of_ne hcell, h])
  | _ => exact .inl h

/-- A notification leaves a permit where nobody waits. -/
theorem permit_notifyOne (h : w.waiting n = []) : (w.apply (.notifyOne n)).permit n = true := by
  simp [World.apply, h]

theorem waiting_notifyOne : (w.apply (.notifyOne n)).waiting n = (w.waiting n).tail := by
  simp [World.apply]

/-- A reader goes to wait for an entry it found open. -/
theorem stream_awaits {s : Stream} {m : Moved Stream} (h : s.step w = some m) :
    (Task.stream m.next).awaits n = 0 ∨
      ∃ e, w.jobs s.inst s.uuid = some e ∧ e.done = false ∧ e.notify = n := by
  obtain ⟨reader, inst, uuid, yielded, pc⟩ := s
  cases pc with
  | lookup =>
    obtain rfl := Option.some.inj h
    left
    simp only [Stream.goto, Task.awaits]
    split
    · next heq => split at heq <;> cases heq
    · rfl
  | database =>
    obtain rfl := Option.some.inj h
    left
    simp only [Stream.fromDatabase]
    split
    · rfl
    · rfl
    · split <;> rfl
  | read =>
    simp only [Stream.step] at h
    split at h
    · obtain rfl := Option.some.inj h
      exact .inl rfl
    · next e he =>
      obtain rfl := Option.some.inj h
      cases hdone : e.done with
      | true => exact .inl rfl
      | false =>
        by_cases hcell : e.notify = n
        · exact .inr ⟨e, he, hdone, hcell⟩
        · left
          simp [Task.awaits, hcell]
  | await cell =>
    obtain rfl := Option.some.inj h
    left
    simp only [Stream.goto, Task.awaits]
    split
    · next heq => split at heq <;> cases heq
    · rfl
  | parked cell =>
    simp only [Stream.step] at h
    split at h
    · cases h
    · obtain rfl := Option.some.inj h
      exact .inl rfl
  | finished result => cases h

theorem awaits_step {t : Task} {m : Moved Task} (h : t.step w choice = some m) :
    m.next.awaits n = 0 ∨ ∃ i j e, w.jobs i j = some e ∧ e.done = false ∧ e.notify = n := by
  cases Task.step_moved h with
  | @stream s _ hs => exact (stream_awaits hs).imp_right fun hopen => ⟨s.inst, s.uuid, hopen⟩
  | _ => exact .inl rfl

theorem spawn_awaits (s : Spawn) : s.task.awaits n = 0 := by
  cases s <;> rfl

/-- A cell is polled by a reader that was about to. -/
theorem reader_of_await {t : Task} {m : Moved Task} {reader : ReaderId}
    (h : t.step w choice = some m) (ha : m.access = .awaitNotify n reader) :
    ∃ s, t = .stream s ∧ s.reader = reader ∧ s.pc = .await n := by
  have hkind : m.access.kind = .await := by rw [ha]; rfl
  have hmay := task_mayAccess h
  rw [hkind] at hmay
  cases Task.step_moved h with
  | @stream s _ hs =>
    obtain ⟨id, inst, uuid, yielded, pc⟩ := s
    cases pc
    case await cell =>
      obtain rfl := Option.some.inj hs
      obtain ⟨rfl, rfl⟩ := Access.awaitNotify.inj ha
      exact ⟨_, rfl, rfl, rfl⟩
    all_goals simp only [Stream.step] at hs
    all_goals repeat' (split at hs)
    all_goals first
      | (obtain rfl := Option.some.inj hs; cases ha)
      | cases hs
  | run hs =>
    rcases worker_awaits hs with hother | hpermit
    · exact absurd hkind hother
    · cases hpermit.symm.trans ha
  | _ => cases hmay

theorem awaits_of_await {t : Task} {m : Moved Task} {reader : ReaderId}
    (h : t.step w choice = some m) (ha : m.access = .awaitNotify n reader) : t.awaits n = 1 := by
  obtain ⟨s, rfl, -, hpc⟩ := reader_of_await h ha
  simp [Task.awaits, hpc]

/-- A permit that is not polled for is a worker's. -/
theorem taken_by_worker {t : Task} {m : Moved Task} (h : t.step w choice = some m)
    (ha : m.access = .takePermit n) : ∃ v, t = .run v ∧ v.cancelNotify = n := by
  have hkind : m.access.kind = .await := by rw [ha]; rfl
  have hmay := task_mayAccess h
  rw [hkind] at hmay
  cases Task.step_moved h with
  | @stream s _ hs =>
    obtain ⟨id, inst, uuid, yielded, pc⟩ := s
    cases pc
    all_goals simp only [Stream.step] at hs
    all_goals repeat' (split at hs)
    all_goals first
      | (obtain rfl := Option.some.inj hs; cases ha)
      | cases hs
  | @run v _ hs =>
    rcases worker_awaits hs with hother | hpermit
    · exact absurd hkind hother
    · exact ⟨v, rfl, Access.takePermit.inj (hpermit.symm.trans ha)⟩
  | _ => cases hmay

end Waiting

/-! ## Opening an entry -/

section Opening
variable {w : World} {a : Access} {choice : Choice} {i : InstanceId} {j : Uuid} {e : JobEntry}

/-- A worker sets an entry running in its setup. -/
theorem worker_running {v : Worker} {m : Moved Worker} {startedAt : Millis}
    (h : v.step w choice = some m) (ha : m.access = .updateEntry i j (.running startedAt)) :
    v.pc = .setup ∧ i = v.inst ∧ j = v.uuid ∧
      ∃ e, w.jobs i j = some e ∧ e.status ≠ .cancelled := by
  have htouches := worker_touches h
  rw [ha] at htouches
  cases htouches with
  | running hpc he hopen => exact ⟨hpc, rfl, rfl, _, he, hopen⟩
  | entry hu => exact absurd rfl (hu startedAt)
  | other hkind => cases hkind

/-- A dispatcher fails an entry or assigns it a provider. -/
theorem dispatch_updates {d : Dispatch} {m : Moved Dispatch} {u : EntryUpdate}
    (h : d.step w choice = some m) (ha : m.access = .updateEntry i j u) :
    (∃ error reason, u = .failed error reason) ∨ ∃ provider, u = .assigned provider := by
  obtain ⟨inst, pc⟩ := d
  cases pc
  case failJob c rest pc =>
    obtain rfl := Option.some.inj h
    cases pc
    case entry =>
      simp only [Dispatch.failStep] at ha
      split at ha
      · cases ha
      · obtain ⟨-, -, rfl⟩ := Access.updateEntry.inj ha
        exact .inl ⟨_, _, rfl⟩
    all_goals cases ha
  case assign c provider =>
    obtain rfl := Option.some.inj h
    obtain ⟨-, -, rfl⟩ := Access.updateEntry.inj ha
    exact .inr ⟨_, rfl⟩
  case load now todo scored =>
    obtain rfl := Option.some.inj h
    cases todo with
    | nil => cases ha
    | cons entry todo =>
      simp only [Dispatch.loadStep] at ha
      split at ha <;> cases ha
  all_goals simp only [Dispatch.step, Dispatch.attemptStep] at h
  all_goals repeat' (split at h)
  all_goals first
    | (obtain rfl := Option.some.inj h; cases ha)
    | cases h

/-- `cancel` writes only that it cancelled. -/
theorem cancel_updates {x : Cancel} {m : Moved Cancel} {u : EntryUpdate}
    (h : x.step w = some m) (ha : m.access = .updateEntry i j u) : u = .cancelled := by
  obtain ⟨inst, uuid, isLocal, prev, pc⟩ := x
  cases pc
  case mark =>
    simp only [Cancel.step] at h
    repeat' (split at h)
    · obtain rfl := Option.some.inj h
      cases ha
    · obtain rfl := Option.some.inj h
      cases ha
    · obtain rfl := Option.some.inj h
      exact (Access.updateEntry.inj ha).2.2.symm
  all_goals simp only [Cancel.step] at h
  all_goals first
    | (obtain rfl := Option.some.inj h; cases ha)
    | cases h

theorem opens_of_running {t : Task} {m : Moved Task} {startedAt : Millis}
    (h : t.step w choice = some m) (ha : m.access = .updateEntry i j (.running startedAt)) :
    t.opens w = some (i, j) := by
  have hkind : m.access.kind = .updateEntry := by rw [ha]; rfl
  have hmay := task_mayAccess h
  rw [hkind] at hmay
  cases Task.step_moved h with
  | cancel hs => cases cancel_updates hs ha
  | dispatch hs => rcases dispatch_updates hs ha with ⟨_, _, hu⟩ | ⟨_, hu⟩ <;> cases hu
  | run hs =>
    obtain ⟨hpc, rfl, rfl, e, he, hopen⟩ := worker_running hs ha
    simp only [Task.opens, hpc, he, if_neg hopen]
  | _ => cases hmay

theorem opens_of_make {t : Task} {m : Moved Task} (h : t.step w choice = some m)
    (ha : m.access = .insertEntry i j e ∨ w.jobs i j = none ∧ m.access = .orInsertEntry i j e) :
    t.opens w = some (i, j) := by
  have hkind : m.access.kind = .makeEntry := by
    rcases ha with ha | ⟨-, ha⟩ <;> (rw [ha]; rfl)
  have hmay := task_mayAccess h
  rw [hkind] at hmay
  cases Task.step_moved h with
  | submit hs =>
    obtain ⟨job, cell, hpc, hinsert, -⟩ := submit_inserts hs hkind
    rcases ha with ha | ⟨-, ha⟩
    · obtain ⟨rfl, rfl, -⟩ := Access.insertEntry.inj (hinsert.symm.trans ha)
      simp only [Task.opens, hpc]
    · cases hinsert.symm.trans ha
  | dispatch hs =>
    obtain ⟨_, id, _, _, _, _, hpc, hadopt⟩ := dispatch_adopts hs hkind
    rcases ha with ha | ⟨hnone, ha⟩
    · cases hadopt.symm.trans ha
    · obtain ⟨rfl, rfl, -⟩ := Access.orInsertEntry.inj (hadopt.symm.trans ha)
      simp [Task.opens, hpc, hnone]
  | recover hs =>
    obtain ⟨job, _, hpc, hadopt⟩ := recover_adopts hs hkind
    rcases ha with ha | ⟨hnone, ha⟩
    · cases hadopt.symm.trans ha
    · obtain ⟨rfl, rfl, -⟩ := Access.orInsertEntry.inj (hadopt.symm.trans ha)
      simp [Task.opens, hpc, hnone]
  | _ => cases hmay

/-- Unless a step opens it, an ended entry is ended after the step, with the same cells. -/
theorem ended_entry {t : Task} {m : Moved Task} (h : t.step w choice = some m)
    (hopens : t.opens w ≠ some (i, j)) (he : (w.apply m.access).jobs i j = some e) :
    ∃ e₀, w.jobs i j = some e₀ ∧ e.notify = e₀.notify ∧
      (e₀.status.isTerminal = true → e.status.isTerminal = true) ∧
      (e₀.done = true → e.done = true) := by
  rcases apply_jobs he with hold | ⟨e₀, u, he₀, ha, rfl⟩ | ha | ⟨hnone, ha⟩
  · exact ⟨e, hold, rfl, id, id⟩
  · refine ⟨e₀, he₀, (u.sameOrigin e₀).notify, ?_⟩
    cases u with
    | running startedAt => exact absurd (opens_of_running h ha) hopens
    | push tokens => exact ⟨id, id⟩
    | lost => exact ⟨id, fun _ => rfl⟩
    | assigned provider => exact ⟨id, id⟩
    | _ => exact ⟨fun _ => rfl, fun _ => rfl⟩
  · exact absurd (opens_of_make h (.inl ha)) hopens
  · exact absurd (opens_of_make h (.inr ⟨hnone, ha⟩)) hopens

theorem World.Ended.step {t : Task} {m : Moved Task} {n : Cell} (hw : w.Ended i j n)
    (h : t.step w choice = some m) (hopens : t.opens w ≠ some (i, j)) :
    (w.apply m.access).Ended i j n := by
  intro e he
  obtain ⟨e₀, he₀, hnotify, hterminal, hdone⟩ := ended_entry h hopens he
  obtain ⟨hended, hfinished, hcell⟩ := hw e₀ he₀
  exact ⟨hterminal hended, hdone hfinished, hnotify.trans hcell⟩

end Opening

/-! ## Settling -/

section Settling
variable {c c' : Config} {choice : Choice} {i : InstanceId} {j : Uuid} {n : Cell} {t : Task}
  {m : Moved Task} {others tasks : List Task}

/-- Two entries with one cell are the same entry. -/
theorem World.Named.cell_unique {w : World} (hw : w.Named) {i' : InstanceId} {j' : Uuid}
    {e e' : JobEntry} (he : w.jobs i j = some e) (he' : w.jobs i' j' = some e')
    (hcell : e'.notify = e.notify) : e' = e := by
  have hname := (hw.entries i j e he).notify
  have hname' := (hw.entries i' j' e' he').notify
  rw [hcell] at hname'
  obtain rfl : i = i' := hname.inst.symm.trans hname'.inst
  obtain rfl : j = j' := hname.job.symm.trans hname'.job
  exact Option.some.inj (he'.symm.trans he)

/-- A step changes the readers that are about to poll by the task that moved. -/
theorem awaits_run (hreplaced : Replaced c.tasks t m.next (m.spawned.map Spawn.task) others tasks)
    (n : Cell) : weight (Task.awaits n) tasks + t.awaits n =
      weight (Task.awaits n) c.tasks + m.next.awaits n := by
  have hbefore := hreplaced.weight_before (Task.awaits n)
  have hafter := hreplaced.weight_after (Task.awaits n)
  have hspawned : weight (Task.awaits n) (m.spawned.map Spawn.task) = 0 := by
    refine (weight_eq_zero _).mpr fun u hu => ?_
    obtain ⟨s, -, rfl⟩ := List.mem_map.mp hu
    exact spawn_awaits s
  omega

/-- A step adds no reader to the cell of an entry that is done. -/
theorem awaits_le (hw : c.world.Named) {e : JobEntry} (he : c.world.jobs i j = some e)
    (hdone : e.done = true) (hm : t.step c.world choice = some m)
    (hreplaced : Replaced c.tasks t m.next (m.spawned.map Spawn.task) others tasks) :
    weight (Task.awaits e.notify) tasks + t.awaits e.notify ≤
      weight (Task.awaits e.notify) c.tasks := by
  have hrun := awaits_run hreplaced e.notify
  have hnext : m.next.awaits e.notify = 0 := by
    rcases awaits_step hm with hnext | ⟨i', j', e', he', hopen, hcell⟩
    · exact hnext
    · obtain rfl := hw.cell_unique he he' hcell
      rw [hdone] at hopen
      cases hopen
  omega

theorem Config.Woken.run (hw : c.world.Named) (ht : ∀ u ∈ c.tasks, u.Named c.world) {e : JobEntry}
    (he : c.world.jobs i j = some e) (hdone : e.done = true) (hwoken : c.Woken e.notify)
    (hm : t.step c.world choice = some m)
    (hreplaced : Replaced c.tasks t m.next (m.spawned.map Spawn.task) others tasks) :
    Config.Woken { world := c.world.apply m.access, tasks } e.notify := by
  have hle := awaits_le hw he hdone hm hreplaced
  have hpermitted := hwoken.permitted
  have hbefore := le_weight_of_mem (Task.awaits e.notify) hreplaced.task_mem
  refine ⟨?_, ?_⟩
  · show (c.world.apply m.access).waiting e.notify = []
    rcases apply_waiting c.world m.access e.notify with hsame | ⟨-, htail⟩ | ⟨reader, ha, hno, -⟩
    · rw [hsame, hwoken.parked]
    · rw [htail, hwoken.parked]
      rfl
    · -- who is about to wait finds a permit
      have hone := awaits_of_await hm ha
      rw [hno] at hpermitted
      simp only [Bool.toNat_false] at hpermitted
      omega
  · show weight (Task.awaits e.notify) tasks ≤
      ((c.world.apply m.access).permit e.notify).toNat
    cases hpermit : c.world.permit e.notify with
    | false =>
      rw [hpermit, Bool.toNat_false] at hpermitted
      omega
    | true =>
      rw [hpermit, Bool.toNat_true] at hpermitted
      rcases apply_permit c.world m.access e.notify hpermit with hkept | ha | ⟨reader, ha⟩
      · rw [hkept, Bool.toNat_true]
        omega
      · obtain ⟨v, rfl, hcell⟩ := taken_by_worker hm ha
        have hrole : v.cancelNotify.role ≠ .notify := ht _ hreplaced.task_mem
        rw [hcell] at hrole
        exact absurd (hw.entries i j e he).notify.role hrole
      · have hone := awaits_of_await hm ha
        omega

/-- A settled entry stays settled, unless the step opens it. -/
theorem Config.Settled.run (hw : c.world.Named) (ht : ∀ u ∈ c.tasks, u.Named c.world)
    (hsettled : c.Settled i j) (hm : t.step c.world choice = some m)
    (hopens : t.opens c.world ≠ some (i, j))
    (hreplaced : Replaced c.tasks t m.next (m.spawned.map Spawn.task) others tasks) :
    Config.Settled { world := c.world.apply m.access, tasks } i j := by
  intro e he
  obtain ⟨e₀, he₀, hnotify, hterminal, hdone⟩ := ended_entry hm hopens he
  obtain ⟨hended, hfinished, hwoken⟩ := hsettled e₀ he₀
  refine ⟨hterminal hended, hdone hfinished, ?_⟩
  rw [hnotify]
  exact hwoken.run hw ht he₀ hfinished hm hreplaced

/-- The notification of an ended entry settles it, if one reader is there. -/
theorem World.Ended.notified (hw : c.world.Named) (hended : c.world.Ended i j n)
    (hreaders : (c.world.jobs i j).isSome → c.readersAt n ≤ 1)
    (hm : t.step c.world choice = some m) (ha : m.access = .notifyOne n)
    (hreplaced : Replaced c.tasks t m.next (m.spawned.map Spawn.task) others tasks) :
    Config.Settled { world := c.world.apply m.access, tasks } i j := by
  intro e he
  have hjobs : (c.world.apply m.access).jobs = c.world.jobs := by rw [ha]; rfl
  have he₀ : c.world.jobs i j = some e := by rw [← hjobs]; exact he
  obtain ⟨hterminal, hdone, rfl⟩ := hended e he₀
  have hle := awaits_le hw he₀ hdone hm hreplaced
  have hone : (c.world.waiting e.notify).length + weight (Task.awaits e.notify) c.tasks ≤ 1 :=
    hreaders (by rw [he₀]; rfl)
  refine ⟨hterminal, hdone, ?_, ?_⟩
  · show (c.world.apply m.access).waiting e.notify = []
    rw [ha, waiting_notifyOne]
    refine List.eq_nil_of_length_eq_zero ?_
    rw [List.length_tail]
    omega
  · show weight (Task.awaits e.notify) tasks ≤
      ((c.world.apply m.access).permit e.notify).toNat
    cases hparked : c.world.waiting e.notify with
    | nil =>
      rw [ha, permit_notifyOne hparked, Bool.toNat_true]
      omega
    | cons reader rest =>
      rw [hparked, List.length_cons] at hone
      omega

/-- What the surroundings do to entries and readers: an instance that restarts loses its own. -/
theorem env_frame {a : Action} (h : ConfigMoved c a c') (ha : ∀ k choice, a ≠ .run k choice) :
    (∀ i j e, c'.world.jobs i j = some e → c.world.jobs i j = some e) ∧
      c'.world.waiting = c.world.waiting ∧ c'.world.permit = c.world.permit ∧
      ∀ n, weight (Task.awaits n) c'.tasks ≤ weight (Task.awaits n) c.tasks := by
  cases h with
  | @start s hcan =>
    refine ⟨fun _ _ _ he => he, rfl, rfl, fun n => ?_⟩
    have hzero : (c.started s).awaits n = 0 := by cases s <;> rfl
    show weight (Task.awaits n) (c.tasks ++ [c.started s]) ≤ weight (Task.awaits n) c.tasks
    rw [weight_append, weight_cons, weight_nil, hzero]
    omega
  | run ht hm hreplaced hothers => exact absurd rfl (ha _ _)
  | restart inst =>
    refine ⟨fun i j e he => ?_, rfl, rfl, fun n => weight_map_le _ fun t _ => ?_⟩
    · by_cases hi : i = inst
      · subst hi
        simp [Config.restarted] at he
      · simpa [Config.restarted, Function.update_of_ne hi] using he
    · split
      · exact Nat.zero_le _
      · exact le_rfl
  | _ => exact ⟨fun _ _ _ he => he, rfl, rfl, fun n => le_rfl⟩

theorem Config.Settled.env {a : Action} (hsettled : c.Settled i j) (h : ConfigMoved c a c')
    (ha : ∀ k choice, a ≠ .run k choice) : c'.Settled i j := by
  obtain ⟨hjobs, hwaiting, hpermit, hweight⟩ := env_frame h ha
  intro e he
  obtain ⟨hterminal, hdone, hwoken⟩ := hsettled e (hjobs i j e he)
  refine ⟨hterminal, hdone, by rw [hwaiting, hwoken.parked], ?_⟩
  rw [hpermit]
  exact (hweight e.notify).trans hwoken.permitted

theorem World.Ended.env {a : Action} (hended : c.world.Ended i j n) (h : ConfigMoved c a c')
    (ha : ∀ k choice, a ≠ .run k choice) : c'.world.Ended i j n :=
  fun e he => hended e ((env_frame h ha).1 i j e he)

end Settling

end Veronex
