import Veronex.Inference.Readers

/-! # Notifications and queues of readers

Who writes an entry notifies its readers next: `Task.notifying` is the cell, `Config.onTheWay`
counts the notifications that were not made yet. The queue of a cell holds the readers that parked
there (`Config.Queued`), every reader under its own identity, and a permit is stored for an empty
queue only.
-/
namespace Veronex
open Concurrency
set_option autoImplicit false

/-! ## Who notifies -/

/-- The cell of readers that the next step of a task notifies, after a write of their entry. -/
def Task.notifying : Task → Option Cell
  | .cancel x => match x.pc with
    | .notifyReader n _ => some n
    | _ => none
  | .dispatch d => match d.pc with
    | .failJob _ _ (.notify n) => some n
    | _ => none
  | .run v => match v.pc with
    | .notify n _ => some n
    | _ => none
  | _ => none

def Task.notifies (n : Cell) (t : Task) : ℕ := if t.notifying = some n then 1 else 0

/-- The notifications on their way to a cell. -/
def Config.onTheWay (c : Config) (n : Cell) : ℕ := weight (Task.notifies n) c.tasks

section Notifying
variable {w : World} {choice : Choice} {n : Cell} {t : Task} {m : Moved Task}

theorem notifies_le (t : Task) (n : Cell) : t.notifies n ≤ 1 := by
  unfold Task.notifies
  split <;> omega

theorem notifies_eq_zero (h : t.notifying ≠ some n) : t.notifies n = 0 := if_neg h

theorem access_of_notifying (h : t.step w choice = some m) (hn : t.notifying = some n) :
    m.access = .notifyOne n := by
  cases Task.step_moved h with
  | @cancel x _ hs =>
    obtain ⟨inst, uuid, isLocal, prev, pc⟩ := x
    cases pc with
    | notifyReader cell cancelNotify =>
      obtain rfl := Option.some.inj hs
      obtain rfl := Option.some.inj hn
      rfl
    | _ => cases hn
  | @dispatch d _ hs =>
    obtain ⟨inst, pc⟩ := d
    cases pc with
    | failJob c rest pc =>
      obtain rfl := Option.some.inj hs
      cases pc with
      | notify cell =>
        obtain rfl := Option.some.inj hn
        rfl
      | _ => cases hn
    | _ => cases hn
  | @run v _ hs =>
    obtain ⟨args, job, stop, apiKeyId, tpmMinute, startedAt, cancelNotify, ts, log, pc⟩ := v
    cases pc with
    | notify cell site =>
      obtain rfl := Option.some.inj hs
      obtain rfl := Option.some.inj hn
      rfl
    | _ => cases hn
  | _ => cases hn

/-- A task is about to notify the readers of an entry it found on its instance. -/
def NotifiesFound (w : World) (t : Task) (n : Cell) : Prop :=
  ∃ i j e, t.inst? = some i ∧ w.jobs i j = some e ∧ e.notify = n

theorem cancel_notifying {x : Cancel} {m : Moved Cancel} (h : x.step w = some m)
    (hn : (Task.cancel m.next).notifying = some n) : NotifiesFound w (.cancel m.next) n := by
  obtain ⟨inst, uuid, isLocal, prev, pc⟩ := x
  cases pc with
  | mark =>
    simp only [Cancel.step] at h
    split at h
    · obtain rfl := Option.some.inj h
      cases hn
    · next e he =>
      split at h
      · obtain rfl := Option.some.inj h
        cases isLocal <;> cases hn
      · obtain rfl := Option.some.inj h
        exact ⟨inst, uuid, e, rfl, he, Option.some.inj hn⟩
  | notifyWorker cell =>
    obtain rfl := Option.some.inj h
    simp only [Cancel.goto, Task.notifying] at hn
    split at hn
    · next heq => split at heq <;> cases heq
    · cases hn
  | dequeue model =>
    obtain rfl := Option.some.inj h
    cases isLocal <;> cases hn
  | returned => cases h
  | _ =>
    obtain rfl := Option.some.inj h
    cases hn

theorem dispatch_notifying {d : Dispatch} {m : Moved Dispatch} (h : d.step w choice = some m)
    (hn : (Task.dispatch m.next).notifying = some n) : NotifiesFound w (.dispatch m.next) n := by
  obtain ⟨inst, pc⟩ := d
  cases pc
  case failJob c rest pc =>
    cases pc with
    | entry =>
      simp only [Dispatch.step, Dispatch.failStep] at h
      split at h
      · obtain rfl := Option.some.inj h
        cases hn
      · next e he =>
        obtain rfl := Option.some.inj h
        exact ⟨inst, c.uuid, e, rfl, he, Option.some.inj hn⟩
    | _ =>
      obtain rfl := Option.some.inj h
      cases hn
  case load now todo scored =>
    obtain rfl := Option.some.inj h
    cases todo with
    | nil => cases scored <;> cases hn
    | cons entry todo =>
      simp only [Dispatch.loadStep] at hn
      split at hn <;> cases hn
  case attempt rest =>
    cases rest with
    | nil => obtain rfl := Option.some.inj h; cases hn
    | cons c rest =>
      simp only [Dispatch.step, Dispatch.attemptStep] at h
      split at h <;> first
        | (obtain rfl := Option.some.inj h; cases hn)
        | cases h
  case resetMisses c provider rest =>
    obtain rfl := Option.some.inj h
    cases provider <;> cases hn
  all_goals simp only [Dispatch.step] at h
  all_goals repeat' (split at h)
  all_goals first
    | (obtain rfl := Option.some.inj h; cases hn)
    | cases h

theorem persistStep_notifying (v : Worker) (site : PersistSite) (pc : PersistPc) :
    (Task.run (v.persistStep w site pc).next).notifying = none := by
  cases pc with
  | compareExchange flag =>
    simp only [Worker.persistStep]
    split
    · cases site <;> rfl
    · dsimp only
      split
      · cases site <;> rfl
      · rfl
  | get => rfl
  | put turns => cases site <;> rfl

theorem finalStep_notifying (v : Worker) (completedAt : Millis) (pc : FinalPc) :
    (Task.run (v.finalStep w completedAt pc).next).notifying = none := by
  cases pc
  all_goals simp only [Worker.finalStep]
  all_goals repeat' split
  all_goals rfl

theorem receiveStep_notifying (v : Worker) (result : Except String StreamToken)
    (hn : (Task.run (v.receiveStep w result).next).notifying = some n) :
    NotifiesFound w (.run (v.receiveStep w result).next) n := by
  unfold Worker.receiveStep at hn ⊢
  cases he : w.jobs v.inst v.uuid with
  | none =>
    rw [he] at hn
    cases hn
  | some e =>
    simp only [he] at hn ⊢
    by_cases hcancelled : e.status = .cancelled
    · rw [if_pos hcancelled] at hn
      cases hn
    · rw [if_neg hcancelled] at hn ⊢
      cases result with
      | error message => cases hn
      | ok token =>
        cases hconsume : Worker.consume v.ts token w.now v.startedAt with
        | none =>
          simp only [hconsume] at hn
          cases hn
        | some r =>
          simp only [hconsume] at hn ⊢
          split at hn
          · next hbudget =>
            rw [if_pos hbudget]
            exact ⟨v.inst, v.uuid, e, rfl, he, Option.some.inj hn⟩
          · next hbudget =>
            rw [if_neg hbudget]
            exact ⟨v.inst, v.uuid, e, rfl, he, Option.some.inj hn⟩

theorem worker_notifying {v : Worker} {m : Moved Worker} (h : v.step w choice = some m)
    (hn : (Task.run m.next).notifying = some n) : NotifiesFound w (.run m.next) n := by
  obtain ⟨args, job, stop, apiKeyId, tpmMinute, startedAt, cancelNotify, ts, log, pc⟩ := v
  cases pc
  case notify cell site =>
    obtain rfl := Option.some.inj h
    cases site <;> cases hn
  case persist site pc =>
    obtain rfl := Option.some.inj h
    rw [persistStep_notifying] at hn
    cases hn
  case final completedAt pc =>
    obtain rfl := Option.some.inj h
    rw [finalStep_notifying] at hn
    cases hn
  case block exit pc =>
    obtain rfl := Option.some.inj h
    cases pc <;> cases hn
  case boundary =>
    simp only [Worker.step] at h
    split at h <;> obtain rfl := Option.some.inj h
    · cases hn
    · next e he => exact ⟨args.inst, args.uuid, e, rfl, he, Option.some.inj hn⟩
  case lifecycleEntry message =>
    simp only [Worker.step] at h
    split at h <;> obtain rfl := Option.some.inj h
    · cases hn
    · next e he => exact ⟨args.inst, args.uuid, e, rfl, he, Option.some.inj hn⟩
  case errorEntry message =>
    simp only [Worker.step] at h
    split at h <;> obtain rfl := Option.some.inj h
    · cases hn
    · next e he => exact ⟨args.inst, args.uuid, e, rfl, he, Option.some.inj hn⟩
  case received result =>
    obtain rfl := Option.some.inj h
    exact receiveStep_notifying _ result hn
  case finalEntry =>
    simp only [Worker.step] at h
    split at h
    · obtain rfl := Option.some.inj h
      cases hn
    · next e he =>
      split at h <;> obtain rfl := Option.some.inj h
      · cases hn
      · exact ⟨args.inst, args.uuid, e, rfl, he, Option.some.inj hn⟩
  all_goals simp only [Worker.step] at h
  all_goals repeat' (split at h)
  all_goals first
    | (obtain rfl := Option.some.inj h; cases hn)
    | cases h

theorem task_notifying (h : t.step w choice = some m) (hn : m.next.notifying = some n) :
    NotifiesFound w m.next n := by
  cases Task.step_moved h with
  | cancel hs => exact cancel_notifying hs hn
  | dispatch hs => exact dispatch_notifying hs hn
  | run hs => exact worker_notifying hs hn
  | _ => cases hn

theorem spawn_notifying (s : Spawn) : s.task.notifying = none := by
  cases s <;> rfl

theorem started_notifying (c : Config) (s : Start) : (c.started s).notifying = none := by
  cases s <;> rfl

end Notifying

/-- Readers are notified on their own instance. -/
theorem notifying_at_home {ok : Config → Action → Prop} {d : Deployment} {c : Config}
    (h : Run Config.step ok (Config.init d) c) :
    ∀ t ∈ c.tasks, ∀ n, t.notifying = some n → t.inst? = some n.inst := by
  refine Run.invariant (I := fun c : Config =>
    ∀ t ∈ c.tasks, ∀ n, t.notifying = some n → t.inst? = some n.inst) h ?_ ?_
  · intro t ht
    cases ht
  intro c c' a hrun hhome _ hstep
  cases Config.step_moved hstep with
  | @start s _ =>
    intro t ht n hn
    rcases List.mem_append.mp ht with ht | ht
    · exact hhome t ht n hn
    · obtain rfl := List.mem_singleton.mp ht
      cases (started_notifying c s).symm.trans hn
  | run ht hm hreplaced _ =>
    have hnamed := (world_named hrun).1
    refine hreplaced.forall_mem (fun u hu => hhome u (hreplaced.other_mem_before hu))
      (fun n hn => ?_) fun u hu n hn => ?_
    · obtain ⟨i, j, e, hi, he, rfl⟩ := task_notifying hm hn
      rw [hi, (hnamed.entries i j e he).notify.inst]
    · obtain ⟨s, -, rfl⟩ := List.mem_map.mp hu
      cases (spawn_notifying s).symm.trans hn
  | restart inst =>
    intro t ht n hn
    obtain ⟨u, hu, rfl⟩ := List.mem_map.mp ht
    split at hn
    · cases hn
    · next hkeep =>
      rw [if_neg hkeep]
      exact hhome u hu n hn
  | _ => exact hhome

/-! ## The queues -/

def Task.isReader (r : ReaderId) : Task → ℕ
  | .stream s => if s.reader = r then 1 else 0
  | _ => 0

/-- The queues of the cells: every reader is in one at most, where it has parked, and nobody is
queued where there is a permit. -/
structure Config.Queued (c : Config) : Prop where
  unique : ∀ r, weight (Task.isReader r) c.tasks ≤ 1
  known : ∀ r, c.tasks.length ≤ r → weight (Task.isReader r) c.tasks = 0
  waiting : ∀ n, ∀ r ∈ c.world.waiting n, r < c.tasks.length
  parked : ∀ s n, .stream s ∈ c.tasks → s.reader ∈ c.world.waiting n → s.pc = .parked n
  permit : ∀ n, c.world.permit n = true → c.world.waiting n = []

section Queues
variable {w : World} {choice : Choice} {n : Cell} {t : Task} {m : Moved Task}

theorem stream_reader {s : Stream} {m : Moved Stream} (h : s.step w = some m) :
    m.next.reader = s.reader := by
  obtain ⟨reader, inst, uuid, yielded, pc⟩ := s
  cases pc with
  | database =>
    obtain rfl := Option.some.inj h
    simp only [Stream.fromDatabase]
    split
    · rfl
    · rfl
    · split <;> rfl
  | read =>
    simp only [Stream.step] at h
    split at h <;> (obtain rfl := Option.some.inj h; rfl)
  | parked cell =>
    simp only [Stream.step] at h
    split at h
    · cases h
    · obtain rfl := Option.some.inj h
      rfl
  | finished result => cases h
  | _ => obtain rfl := Option.some.inj h; rfl

theorem isReader_step (h : t.step w choice = some m) (r : ReaderId) :
    m.next.isReader r = t.isReader r := by
  cases Task.step_moved h with
  | stream hs => simp only [Moved.map, Task.isReader, stream_reader hs]
  | _ => rfl

theorem spawn_isReader (s : Spawn) (r : ReaderId) : s.task.isReader r = 0 := by
  cases s <;> rfl

/-- A permit is stored where nobody is queued. -/
theorem apply_permit_waiting (a : Access) (h : w.permit n = true → w.waiting n = [])
    (hpermit : (w.apply a).permit n = true) : (w.apply a).waiting n = [] := by
  cases a with
  | notifyOne cell =>
    by_cases hcell : n = cell
    · subst hcell
      rw [waiting_notifyOne]
      cases hqueue : w.waiting n with
      | nil => rfl
      | cons r rest =>
        simp only [World.apply, hqueue, reduceCtorEq, if_false] at hpermit
        rw [h hpermit] at hqueue
        cases hqueue
    · simp only [World.apply, Function.update_of_ne hcell] at hpermit ⊢
      split at hpermit
      · rw [Function.update_of_ne hcell] at hpermit
        exact h hpermit
      · exact h hpermit
  | takePermit cell =>
    by_cases hcell : n = cell
    · simp [World.apply, hcell] at hpermit
    · exact h (by simpa [World.apply, Function.update_of_ne hcell] using hpermit)
  | awaitNotify cell reader =>
    by_cases hcell : n = cell
    · simp [World.apply, hcell] at hpermit
    · have hbefore : w.permit n = true := by
        simpa [World.apply, Function.update_of_ne hcell] using hpermit
      simp only [World.apply]
      split
      · exact h hbefore
      · rw [Function.update_of_ne hcell]
        exact h hbefore
  | _ => exact h hpermit

/-- A reader is queued by its own poll only. -/
theorem queued_before {a : Access} {r : ReaderId} (hr : r ∈ (w.apply a).waiting n) :
    r ∈ w.waiting n ∨ a = .awaitNotify n r ∧ w.permit n = false := by
  rcases apply_waiting w a n with hsame | ⟨-, htail⟩ | ⟨reader, ha, hpermit, happend⟩
  · exact .inl (hsame ▸ hr)
  · exact .inl (List.mem_of_mem_tail (htail ▸ hr))
  · rw [happend] at hr
    rcases List.mem_append.mp hr with hr | hr
    · exact .inl hr
    · obtain rfl := List.mem_singleton.mp hr
      exact .inr ⟨ha, hpermit⟩

theorem stream_parks {s : Stream} {m : Moved Stream} (h : s.step w = some m)
    (hs : ∀ n, s.reader ∈ w.waiting n → s.pc = .parked n)
    (hn : s.reader ∈ (w.apply m.access).waiting n) : m.next.pc = .parked n := by
  have hmoved : (Task.stream s).step w .go = some (m.map .stream) := by
    simp only [Task.step, h, Option.map_some]
  rcases queued_before hn with hbefore | ⟨ha, hpermit⟩
  · obtain ⟨reader, inst, uuid, yielded, pc⟩ := s
    obtain rfl : pc = .parked n := hs n hbefore
    simp only [Stream.step, if_pos hbefore] at h
    cases h
  · obtain ⟨u, hu, -, hpc⟩ := reader_of_await hmoved ha
    obtain rfl := Task.stream.inj hu
    simp only [Stream.step, hpc] at h
    obtain rfl := Option.some.inj h
    simp [Stream.goto, hpermit]

end Queues

/-- Nobody polls for another reader. -/
theorem other_polls {c : Config} {choice : Choice} {t : Task} {m : Moved Task}
    {others tasks : List Task} {s : Stream} {n : Cell} (hq : c.Queued)
    (hm : t.step c.world choice = some m)
    (hreplaced : Replaced c.tasks t m.next (m.spawned.map Spawn.task) others tasks)
    (hs : .stream s ∈ others) : m.access ≠ .awaitNotify n s.reader := by
  intro ha
  obtain ⟨s₀, rfl, hreader, -⟩ := reader_of_await hm ha
  have honce := hq.unique s.reader
  rw [hreplaced.weight_before] at honce
  have hone := le_weight_of_mem (Task.isReader s.reader) hs
  have hself : (Task.stream s).isReader s.reader = 1 := if_pos rfl
  have hmoved : (Task.stream s₀).isReader s.reader = 1 := if_pos hreader
  omega

theorem Config.Queued.run {c : Config} {choice : Choice} {t : Task} {m : Moved Task}
    {others tasks : List Task} (hq : c.Queued) (hm : t.step c.world choice = some m)
    (hreplaced : Replaced c.tasks t m.next (m.spawned.map Spawn.task) others tasks) :
    Config.Queued { world := c.world.apply m.access, tasks } := by
  have hlength := hreplaced.length_le
  have hweight : ∀ r, weight (Task.isReader r) tasks = weight (Task.isReader r) c.tasks := by
    intro r
    have hspawned : weight (Task.isReader r) (m.spawned.map Spawn.task) = 0 := by
      refine (weight_eq_zero _).mpr fun u hu => ?_
      obtain ⟨s, -, rfl⟩ := List.mem_map.mp hu
      exact spawn_isReader s r
    rw [hreplaced.weight_after, hreplaced.weight_before, isReader_step hm, hspawned, Nat.add_zero]
  refine ⟨fun r => (hweight r).trans_le (hq.unique r), fun r hr => ?_, fun n r hr => ?_,
    fun s n hs hn => ?_, fun n => apply_permit_waiting m.access (hq.permit n)⟩
  · rw [hweight]
    exact hq.known r (hlength.trans hr)
  · rcases queued_before hr with hr | ⟨ha, -⟩
    · exact (hq.waiting n r hr).trans_le hlength
    · obtain ⟨s, rfl, rfl, -⟩ := reader_of_await hm ha
      have hone := le_weight_of_mem (Task.isReader s.reader) hreplaced.task_mem
      have hself : (Task.stream s).isReader s.reader = 1 := if_pos rfl
      refine lt_of_lt_of_le (not_le.mp fun hle => ?_) hlength
      have hzero := hq.known s.reader hle
      omega
  · rcases hreplaced.mem_after.mp hs with hs | hs | hs
    · cases Task.step_moved hm with
      | @stream s₀ _ hstep =>
        obtain rfl := Task.stream.inj hs
        have hn' : s₀.reader ∈ (c.world.apply _).waiting n := stream_reader hstep ▸ hn
        exact stream_parks hstep (fun n => hq.parked s₀ n hreplaced.task_mem) hn'
      | _ => cases hs
    · rcases queued_before hn with hn | ⟨ha, -⟩
      · exact hq.parked s n (hreplaced.other_mem_before hs) hn
      · exact absurd ha (other_polls hq hm hreplaced hs)
    · obtain ⟨spawn, -, hspawn⟩ := List.mem_map.mp hs
      cases spawn <;> cases hspawn

/-- A reader that is there after a restart was there before, on another instance or at its end. -/
theorem mem_of_restarted {c : Config} {inst : InstanceId} {s : Stream}
    (h : Task.stream s ∈ (c.restarted inst).tasks) : Task.stream s ∈ c.tasks ∧
      ¬ (s.inst = inst ∧ (Task.stream s).ended = false) := by
  obtain ⟨t, ht, heq⟩ := List.mem_map.mp h
  split at heq
  · cases heq
  · next hkeep =>
    obtain rfl : t = .stream s := heq
    exact ⟨ht, fun hkilled => hkeep ⟨congrArg some hkilled.1, hkilled.2⟩⟩

theorem queued_reachable {ok : Config → Action → Prop} {d : Deployment} {c : Config}
    (h : Run Config.step ok (Config.init d) c) : c.Queued := by
  refine Run.invariant h ⟨fun _ => Nat.zero_le _, fun _ _ => rfl, by rintro _ _ ⟨⟩,
    by rintro _ _ ⟨⟩, by rintro _ ⟨⟩⟩ ?_
  intro c c' a _ hq _ hstep
  cases Config.step_moved hstep with
  | @start s _ =>
    have hnew : ∀ r, r ≠ c.tasks.length → (c.started s).isReader r = 0 := by
      intro r hr
      cases s with
      | stream inst uuid => exact if_neg hr.symm
      | _ => rfl
    have hle : ∀ r, (c.started s).isReader r ≤ 1 := by
      intro r
      cases s with
      | stream inst uuid =>
        simp only [Config.started, Task.isReader]
        split <;> omega
      | _ => exact Nat.zero_le _
    refine ⟨fun r => ?_, fun r hr => ?_, fun n r hr => ?_, fun u n hu hn => ?_, hq.permit⟩
    · rw [weight_append, weight_cons, weight_nil, Nat.add_zero]
      by_cases hr : r = c.tasks.length
      · rw [hr, hq.known _ le_rfl, Nat.zero_add]
        exact hle _
      · rw [hnew r hr]
        exact hq.unique r
    · simp only [List.length_append, List.length_singleton] at hr
      rw [weight_append, weight_cons, weight_nil, hnew r (by omega), hq.known r (by omega),
        Nat.add_zero]
    · rw [List.length_append]
      exact (hq.waiting n r hr).trans_le (Nat.le_add_right ..)
    · rcases List.mem_append.mp hu with hu | hu
      · exact hq.parked u n hu hn
      · have hlt := hq.waiting n u.reader hn
        have heq := List.mem_singleton.mp hu
        cases s with
        | stream inst uuid =>
          obtain rfl := Task.stream.inj heq
          exact absurd hlt (lt_irrefl _)
        | _ => cases heq
  | run ht hm hreplaced _ => exact hq.run hm hreplaced
  | restart inst =>
    have hfewer : ∀ r, weight (Task.isReader r) (c.restarted inst).tasks ≤
        weight (Task.isReader r) c.tasks := by
      refine fun r => weight_map_le _ fun t _ => ?_
      split
      · exact Nat.zero_le _
      · exact le_rfl
    have hlength : (c.restarted inst).tasks.length = c.tasks.length := List.length_map _
    refine ⟨fun r => (hfewer r).trans (hq.unique r), fun r hr => ?_, fun n r hr => ?_,
      fun s n hs hn => hq.parked s n (mem_of_restarted hs).1 hn, hq.permit⟩
    · have hzero := hq.known r (hlength ▸ hr)
      have hle := hfewer r
      omega
    · rw [hlength]
      exact hq.waiting n r hr
  | _ => exact ⟨hq.unique, hq.known, hq.waiting, hq.parked, hq.permit⟩

end Veronex
