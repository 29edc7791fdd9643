import Veronex.Inference.ReaderQueues

/-! # Readers that wait

`stream` polls `notified()` after it has yielded what the entry had, and every write of an entry is
followed by one `notify_one`. The call wakes the first reader in the queue of the cell, or leaves a
permit for the next one to poll, so one call serves one reader: several readers of a job need as
many. `Config.servesReaders` says when a write has them; `waiting_readers_served` is the property of
all runs of such steps.
-/
namespace Veronex
open Concurrency
set_option autoImplicit false

/-! ## Readers and notifications -/

/-- The entry has tokens the reader has not yielded, or it is done. -/
def Stream.lacks (s : Stream) (e : JobEntry) : Bool :=
  decide (s.yielded.length < e.tokens.length) || e.done

/-- The entry the reader follows has something for it. -/
def Stream.unserved (w : World) (s : Stream) : Bool := (w.jobs s.inst s.uuid).any s.lacks

/-- The cell a reader waits at, in its queue or before the first poll. -/
def Stream.waitsAt (w : World) (s : Stream) : Option Cell :=
  match s.pc with
  | .await n => some n
  | .parked n => if s.reader ∈ w.waiting n then some n else none
  | _ => none

/-- The reader is blocked on `notified()`. -/
def Config.Blocked (c : Config) (s : Stream) (n : Cell) : Prop :=
  s.pc = .parked n ∧ s.reader ∈ c.world.waiting n

/-- A wake-up for a blocked reader is pending: fewer readers are queued before it than
notifications are on their way. -/
def Config.WakeUpPending (c : Config) (s : Stream) (n : Cell) : Prop :=
  ∃ before after, c.world.waiting n = before ++ s.reader :: after ∧ before.length < c.onTheWay n

/-! ## What a step must find -/

/-- An update of its entry brings a reader something it did not have. -/
def Access.brings (w : World) (a : Access) (s : Stream) : Bool :=
  match a with
  | .updateEntry i j u =>
    decide (i = s.inst ∧ j = s.uuid) && (w.jobs i j).any fun e => !s.lacks e && s.lacks (u.apply e)
  | _ => false

/-- One reader of the cell at most is before its first poll, and there is a notification for every
reader, the one this step is followed by included, or a permit. -/
def Config.reaches (c : Config) (m : Moved Task) (n : Cell) : Bool :=
  decide (weight (Task.awaits n) c.tasks ≤ 1) &&
    (decide (c.readersAt n ≤ c.onTheWay n + m.next.notifies n) || c.world.permit n)

/-- A step brings something only to readers it reaches, and lets no reader go before one that was
brought something. -/
def Config.servesReader (c : Config) (m : Moved Task) (s : Stream) : Bool :=
  (s.waitsAt c.world).all fun n =>
    (!m.access.brings c.world s || c.reaches m n) &&
      (decide (m.next.awaits n = 0 ∨ (Task.stream s).awaits n = 0) || !s.unserved c.world)

def Config.servesReaders (c : Config) : Action → Bool
  | .run k choice => (c.tasks[k]?).all fun t => (t.step c.world choice).all fun m =>
    c.tasks.all fun u => match u with
      | .stream s => c.servesReader m s
      | _ => true
  | _ => true

/-! ## Coverage -/

/-- A reader that waits while its entry has something for it is about to be woken: fewer readers
are queued before it than notifications are on their way. Before its first poll that is so if it is
the only one to poll, or there is a permit. -/
structure Config.Covered (c : Config) (s : Stream) : Prop where
  parked : ∀ n, s.pc = .parked n → s.unserved c.world = true → ∀ before after,
    c.world.waiting n = before ++ s.reader :: after → before.length < c.onTheWay n
  polling : ∀ n, s.pc = .await n → s.unserved c.world = true →
    weight (Task.awaits n) c.tasks ≤ 1 ∧
      ((c.world.waiting n).length < c.onTheWay n ∨ c.world.permit n = true)

section Coverage
variable {w : World} {c c' : Config} {choice : Choice} {n : Cell} {s : Stream} {t : Task}
  {m : Moved Task} {others tasks : List Task}

/-- Coverage is kept where nothing is brought, nobody is notified and nobody comes to wait. -/
theorem Config.Covered.mono (h : c.Covered s) (hwaiting : c'.world.waiting = c.world.waiting)
    (hpermit : c'.world.permit = c.world.permit)
    (hserved : s.unserved c'.world = true → s.unserved c.world = true)
    (hkept : ∀ n, s.waitsAt c.world = some n → c.onTheWay n ≤ c'.onTheWay n ∧
      weight (Task.awaits n) c'.tasks ≤ weight (Task.awaits n) c.tasks) : c'.Covered s where
  parked n hpc hunserved before after hqueue := by
    rw [hwaiting] at hqueue
    have hmem : s.reader ∈ c.world.waiting n := by simp [hqueue]
    have hless := h.parked n hpc (hserved hunserved) before after hqueue
    exact hless.trans_le (hkept n (by simp [Stream.waitsAt, hpc, hmem])).1
  polling n hpc hunserved := by
    obtain ⟨hone, hnotified⟩ := h.polling n hpc (hserved hunserved)
    obtain ⟨hway, hfewer⟩ := hkept n (by simp [Stream.waitsAt, hpc])
    rw [hwaiting, hpermit]
    exact ⟨hfewer.trans hone, hnotified.imp_left fun hless => hless.trans_le hway⟩

theorem awaits_self (hpc : s.pc = .await n) : (Task.stream s).awaits n = 1 := by
  simp [Task.awaits, hpc]

/-! ### What a step brings -/

/-- An entry has something new for a reader by an update only: a new entry is empty and open. -/
theorem unserved_before (h : t.step w choice = some m)
    (hunserved : s.unserved (w.apply m.access) = true) :
    s.unserved w = true ∨ m.access.brings w s = true := by
  obtain ⟨e, he, hlacks⟩ := (Option.any_eq_true _ _).mp hunserved
  have hmade : ∀ e' : JobEntry, e'.tokens = [] → e'.done = false → s.lacks e' = false := by
    intro e' htokens hdone
    simp [Stream.lacks, htokens, hdone]
  have hempty : m.access = .insertEntry s.inst s.uuid e ∨
      m.access = .orInsertEntry s.inst s.uuid e → s.lacks e = false := by
    intro ha
    rcases entry_made h ha with ⟨_, _, _, -, -, -, rfl⟩ | ⟨_, rfl⟩ | ⟨_, -, rfl⟩
    all_goals exact hmade _ rfl rfl
  rcases apply_jobs he with hold | ⟨e₀, u, he₀, ha, rfl⟩ | ha | ⟨-, ha⟩
  · left
    rw [Stream.unserved, hold]
    exact hlacks
  · cases hbefore : s.lacks e₀ with
    | true =>
      left
      rw [Stream.unserved, he₀]
      exact hbefore
    | false =>
      right
      simp [ha, Access.brings, he₀, hbefore, hlacks]
  · rw [hempty (.inl ha)] at hlacks
    cases hlacks
  · rw [hempty (.inr ha)] at hlacks
    cases hlacks

/-- What brings something is an update of the entry, which queues nobody. -/
theorem brings_update {a : Access} (h : a.brings w s = true) :
    (∃ i j u, a = .updateEntry i j u) ∧ (w.apply a).waiting = w.waiting ∧
      (w.apply a).permit = w.permit := by
  cases a with
  | updateEntry i j u => exact ⟨⟨i, j, u, rfl⟩, rfl, rfl⟩
  | _ => cases h

theorem next_awaits_of_update (h : t.step w choice = some m) (ha : m.access.brings w s = true) :
    m.next.awaits n = 0 := by
  obtain ⟨⟨i, j, u, hupdate⟩, -⟩ := brings_update ha
  have hmay := task_mayAccess h
  rw [hupdate] at hmay
  cases Task.step_moved h with
  | stream hs => cases hmay
  | _ => rfl

theorem servesReader_brings (h : c.servesReader m s = true) (hn : s.waitsAt c.world = some n)
    (hbrings : m.access.brings c.world s = true) : weight (Task.awaits n) c.tasks ≤ 1 ∧
      (c.readersAt n ≤ c.onTheWay n + m.next.notifies n ∨ c.world.permit n = true) := by
  simp only [Config.servesReader, hn, Option.all_some, hbrings, Bool.and_eq_true] at h
  simpa [Config.reaches] using h.1

theorem servesReader_next (h : c.servesReader m s = true) (hpc : s.pc = .await n)
    (hunserved : s.unserved c.world = true) : m.next.awaits n = 0 := by
  have hn : s.waitsAt c.world = some n := by simp [Stream.waitsAt, hpc]
  simp only [Config.servesReader, hn, Option.all_some, hunserved, Bool.and_eq_true,
    awaits_self hpc] at h
  simpa using h.2

/-! ### What a step changes -/

theorem onTheWay_run (hreplaced : Replaced c.tasks t m.next (m.spawned.map Spawn.task) others tasks)
    (n : Cell) : c.onTheWay n + m.next.notifies n ≤
      weight (Task.notifies n) tasks + t.notifies n := by
  have hbefore := hreplaced.weight_before (Task.notifies n)
  have hafter := hreplaced.weight_after (Task.notifies n)
  unfold Config.onTheWay
  omega

/-- Two readers that poll one cell. -/
theorem awaits_two (hreplaced : Replaced c.tasks t m.next (m.spawned.map Spawn.task) others tasks)
    (hs : .stream s ∈ others) (hpc : s.pc = .await n) (ht : t.awaits n = 1) :
    2 ≤ weight (Task.awaits n) c.tasks := by
  have hbefore := hreplaced.weight_before (Task.awaits n)
  have hother := le_weight_of_mem (Task.awaits n) hs
  have hself := awaits_self hpc
  omega

theorem notifies_of_access (hm : t.step w choice = some m) (ha : m.access ≠ .notifyOne n) :
    t.notifies n = 0 :=
  notifies_eq_zero fun hn => ha (access_of_notifying hm hn)

/-! ### The steps -/

/-- A reader that is queued stays covered while others move. -/
theorem parked_covered (hq : c.Queued) (hm : t.step c.world choice = some m)
    (hreplaced : Replaced c.tasks t m.next (m.spawned.map Spawn.task) others tasks)
    (hs : .stream s ∈ others) (hcovered : c.Covered s) (hserves : c.servesReader m s = true)
    (hpc : s.pc = .parked n) (hunserved : s.unserved (c.world.apply m.access) = true)
    {before after : List ReaderId}
    (hqueue : (c.world.apply m.access).waiting n = before ++ s.reader :: after) :
    before.length < weight (Task.notifies n) tasks := by
  have hway := onTheWay_run hreplaced n
  have hmem : s.reader ∈ c.world.waiting n := by
    have hafter : s.reader ∈ (c.world.apply m.access).waiting n := by simp [hqueue]
    exact (queued_before hafter).resolve_right fun ha => other_polls hq hm hreplaced hs ha.1
  have hwaits : s.waitsAt c.world = some n := by simp [Stream.waitsAt, hpc, hmem]
  rcases unserved_before hm hunserved with hunserved | hbrings
  · have hless := hcovered.parked n hpc hunserved
    by_cases hnotify : m.access = .notifyOne n
    · -- the first of the queue is woken
      have hone := notifies_le t n
      rw [hnotify, waiting_notifyOne] at hqueue
      obtain ⟨first, rest, hwaiting⟩ := List.exists_cons_of_ne_nil (List.ne_nil_of_mem hmem)
      rw [hwaiting, List.tail_cons] at hqueue
      have hlength := hless (first :: before) after (by rw [hwaiting, hqueue]; rfl)
      rw [List.length_cons] at hlength
      omega
    · have hzero := notifies_of_access hm hnotify
      rcases apply_waiting c.world m.access n with hsame | ⟨ha, -⟩ | ⟨reader, ha, -, happend⟩
      · have hlength := hless before after (hsame.symm.trans hqueue)
        omega
      · exact absurd ha hnotify
      · rw [happend] at hqueue
        rcases List.eq_nil_or_concat after with rfl | ⟨after, last, rfl⟩
        · obtain ⟨-, hlast⟩ := List.append_inj' hqueue rfl
          obtain rfl := List.singleton_inj.mp hlast
          exact absurd ha (other_polls hq hm hreplaced hs)
        · have hlength := hless before after (by
            have hsplit : c.world.waiting n ++ [reader] =
                (before ++ s.reader :: after) ++ [last] := by
              simp [hqueue]
            exact (List.append_inj' hsplit rfl).1)
          omega
  · obtain ⟨⟨i, j, u, ha⟩, hwaiting, -⟩ := brings_update hbrings
    have hzero : t.notifies n = 0 := notifies_of_access hm (by rw [ha]; rintro ⟨⟩)
    have hqueue' : c.world.waiting n = before ++ s.reader :: after := hwaiting ▸ hqueue
    obtain ⟨-, hreached | hpermit⟩ := servesReader_brings hserves hwaits hbrings
    · have hlength : (c.world.waiting n).length = before.length + (after.length + 1) := by
        simp [hqueue']
      unfold Config.readersAt at hreached
      omega
    · rw [hq.permit n hpermit] at hmem
      cases hmem

/-- A reader before its first poll stays covered while others move. -/
theorem polling_covered (hq : c.Queued) (htasks : ∀ u ∈ c.tasks, u.Named c.world)
    (hm : t.step c.world choice = some m)
    (hreplaced : Replaced c.tasks t m.next (m.spawned.map Spawn.task) others tasks)
    (hs : .stream s ∈ others) (hcovered : c.Covered s) (hserves : c.servesReader m s = true)
    (hpc : s.pc = .await n) (hunserved : s.unserved (c.world.apply m.access) = true) :
    weight (Task.awaits n) tasks ≤ 1 ∧
      (((c.world.apply m.access).waiting n).length < weight (Task.notifies n) tasks ∨
        (c.world.apply m.access).permit n = true) := by
  have hway := onTheWay_run hreplaced n
  have hpolls := awaits_run hreplaced n
  have hself := awaits_self hpc
  have hone := le_weight_of_mem (Task.awaits n) (hreplaced.other_mem_before hs)
  have hwaits : s.waitsAt c.world = some n := by simp [Stream.waitsAt, hpc]
  rcases unserved_before hm hunserved with hunserved | hbrings
  · obtain ⟨honce, hnotified⟩ := hcovered.polling n hpc hunserved
    have hnext := servesReader_next hserves hpc hunserved
    refine ⟨by omega, ?_⟩
    by_cases hnotify : m.access = .notifyOne n
    · have hle := notifies_le t n
      rw [hnotify]
      cases hwaiting : c.world.waiting n with
      | nil => exact .inr (permit_notifyOne hwaiting)
      | cons first rest =>
        left
        rcases hnotified with hless | hpermit
        · rw [waiting_notifyOne, hwaiting, List.tail_cons]
          rw [hwaiting, List.length_cons] at hless
          omega
        · rw [hq.permit n hpermit] at hwaiting
          cases hwaiting
    · have hzero := notifies_of_access hm hnotify
      -- a second reader would be polling
      have hpoll : ∀ reader, m.access ≠ .awaitNotify n reader := by
        intro reader ha
        have htwo := awaits_two hreplaced hs hpc (awaits_of_await hm ha)
        omega
      rcases hnotified with hless | hpermit
      · left
        rcases apply_waiting c.world m.access n with hsame | ⟨ha, -⟩ | ⟨reader, ha, -⟩
        · rw [hsame]
          omega
        · exact absurd ha hnotify
        · exact absurd ha (hpoll reader)
      · right
        rcases apply_permit c.world m.access n hpermit with hkept | ha | ⟨reader, ha⟩
        · exact hkept
        · obtain ⟨v, rfl, hcell⟩ := taken_by_worker hm ha
          have hmade := htasks _ (hreplaced.other_mem_before hs)
          simp only [Task.Named, hpc] at hmade
          have hrole : v.cancelNotify.role ≠ .notify := htasks _ hreplaced.task_mem
          rw [hcell] at hrole
          exact absurd hmade.role hrole
        · exact absurd ha (hpoll reader)
  · obtain ⟨⟨i, j, u, ha⟩, hwaiting, hpermit⟩ := brings_update hbrings
    have hzero : t.notifies n = 0 := notifies_of_access hm (by rw [ha]; rintro ⟨⟩)
    have hnext := next_awaits_of_update (n := n) hm hbrings
    obtain ⟨honce, hreached⟩ := servesReader_brings hserves hwaits hbrings
    rw [hwaiting, hpermit]
    refine ⟨by omega, hreached.imp_left fun hreached => ?_⟩
    unfold Config.readersAt at hreached
    omega

/-- A reader waits with nothing left to read. -/
theorem stream_to_await {s : Stream} {m : Moved Stream} (h : s.step w = some m)
    (hpc : m.next.pc = .await n) : m.next.unserved (w.apply m.access) = false := by
  obtain ⟨reader, inst, uuid, yielded, pc⟩ := s
  cases pc with
  | lookup =>
    obtain rfl := Option.some.inj h
    simp only [Stream.goto] at hpc
    split at hpc <;> cases hpc
  | database =>
    obtain rfl := Option.some.inj h
    simp only [Stream.fromDatabase] at hpc
    split at hpc
    · cases hpc
    · cases hpc
    · split at hpc <;> cases hpc
  | read =>
    simp only [Stream.step] at h
    split at h
    · obtain rfl := Option.some.inj h
      cases hpc
    · next e he =>
      obtain rfl := Option.some.inj h
      cases hdone : e.done with
      | true => simp [hdone] at hpc
      | false =>
        have hread : e.tokens.length ≤ yielded.length + (e.tokens.length - yielded.length) := by
          omega
        simp [Stream.unserved, Stream.lacks, World.apply, he, hdone, hread]
  | await cell =>
    obtain rfl := Option.some.inj h
    simp only [Stream.goto] at hpc
    split at hpc <;> cases hpc
  | parked cell =>
    simp only [Stream.step] at h
    split at h
    · cases h
    · obtain rfl := Option.some.inj h
      cases hpc
  | finished result => cases h

/-- A reader parks when its first poll finds no permit. -/
theorem stream_to_parked {s : Stream} {m : Moved Stream} (h : s.step w = some m)
    (hpc : m.next.pc = .parked n) : s.pc = .await n ∧ w.permit n = false ∧
      (w.apply m.access).waiting n = w.waiting n ++ [s.reader] ∧
      m.next = { s with pc := .parked n } ∧ (w.apply m.access).jobs = w.jobs := by
  obtain ⟨reader, inst, uuid, yielded, pc⟩ := s
  cases pc with
  | lookup =>
    obtain rfl := Option.some.inj h
    simp only [Stream.goto] at hpc
    split at hpc <;> cases hpc
  | database =>
    obtain rfl := Option.some.inj h
    simp only [Stream.fromDatabase] at hpc
    split at hpc
    · cases hpc
    · cases hpc
    · split at hpc <;> cases hpc
  | read =>
    simp only [Stream.step] at h
    split at h
    · obtain rfl := Option.some.inj h
      cases hpc
    · next e he =>
      obtain rfl := Option.some.inj h
      simp only at hpc
      split at hpc <;> cases hpc
  | await cell =>
    obtain rfl := Option.some.inj h
    cases hpermit : w.permit cell with
    | true => simp [Stream.goto, hpermit] at hpc
    | false =>
      have hcell : cell = n := by simpa [Stream.goto, hpermit] using hpc
      subst hcell
      refine ⟨rfl, hpermit, ?_, ?_, rfl⟩
      · simp [World.apply, hpermit]
      · simp [Stream.goto]
  | parked cell =>
    simp only [Stream.step] at h
    split at h
    · cases h
    · obtain rfl := Option.some.inj h
      cases hpc
  | finished result => cases h

theorem Config.Covered.moved {m : Moved Stream} (hm : s.step c.world = some m)
    (hreplaced : Replaced c.tasks (.stream s) (.stream m.next) (m.spawned.map Spawn.task) others
      tasks)
    (hcovered : c.Covered s) :
    Config.Covered { world := c.world.apply m.access, tasks } m.next where
  polling n hpc hunserved := by
    rw [stream_to_await hm hpc] at hunserved
    cases hunserved
  parked n hpc hunserved before after hqueue := by
    obtain ⟨hawait, hpermit, hwaiting, hnext, hjobs⟩ := stream_to_parked hm hpc
    have hbefore : s.unserved c.world = true := by
      rw [hnext, Stream.unserved, hjobs] at hunserved
      exact hunserved
    obtain ⟨-, hless | hstored⟩ := hcovered.polling n hawait hbefore
    · have hway := onTheWay_run (m := m.map .stream) hreplaced n
      have hlength : (before ++ m.next.reader :: after).length =
          (c.world.waiting n ++ [s.reader]).length := by
        rw [← hwaiting, ← hqueue]
      simp only [List.length_append, List.length_cons, List.length_nil] at hlength
      have hzero : (Task.stream s).notifies n = 0 := rfl
      show before.length < weight (Task.notifies n) tasks
      omega
    · rw [hpermit] at hstored
      cases hstored

end Coverage

/-! ## Runs -/

section Runs
variable {d : Deployment} {c : Config}

/-- A reader waits at a cell of its instance. -/
theorem waits_at_home {w : World} {s : Stream} {n : Cell} (hs : (Task.stream s).Named w)
    (hn : s.waitsAt w = some n) : n.inst = s.inst ∧ (Task.stream s).ended = false := by
  unfold Stream.waitsAt at hn
  split at hn
  · next hpc =>
    obtain rfl := Option.some.inj hn
    simp only [Task.Named, hpc] at hs
    exact ⟨hs.inst, by simp [Task.ended, hpc]⟩
  · next hpc =>
    split at hn
    · obtain rfl := Option.some.inj hn
      simp only [Task.Named, hpc] at hs
      exact ⟨hs.inst, by simp [Task.ended, hpc]⟩
    · cases hn
  · cases hn

theorem covered_reachable
    (h : Run Config.step (fun c a => c.servesReaders a = true) (Config.init d) c) :
    ∀ s, .stream s ∈ c.tasks → c.Covered s := by
  refine Run.invariant (I := fun c : Config => ∀ s, .stream s ∈ c.tasks → c.Covered s) h ?_ ?_
  · intro s hs
    cases hs
  intro c c' a hrun hcovered hok hstep
  have hq := queued_reachable hrun
  obtain ⟨hnamed, htasks⟩ := world_named hrun
  cases Config.step_moved hstep with
  | @start start _ =>
    intro s hs
    have hway : ∀ n, Config.onTheWay { c with tasks := c.tasks ++ [c.started start] } n =
        c.onTheWay n := by
      intro n
      have hzero : (c.started start).notifies n = 0 := by
        rw [Task.notifies, started_notifying]
        rfl
      simp only [Config.onTheWay, weight_append, weight_cons, weight_nil, hzero, Nat.add_zero]
    have hpolls : ∀ n, weight (Task.awaits n) (c.tasks ++ [c.started start]) =
        weight (Task.awaits n) c.tasks := by
      intro n
      have hzero : (c.started start).awaits n = 0 := by cases start <;> rfl
      rw [weight_append, weight_cons, weight_nil, hzero, Nat.add_zero, Nat.add_zero]
    rcases List.mem_append.mp hs with hs | hs
    · exact (hcovered s hs).mono rfl rfl id fun n _ => ⟨(hway n).ge, (hpolls n).le⟩
    · have hnew := List.mem_singleton.mp hs
      cases start with
      | stream inst uuid =>
        obtain rfl := Task.stream.inj hnew
        exact ⟨by rintro _ ⟨⟩, by rintro _ ⟨⟩⟩
      | _ => cases hnew
  | @run k choice t m others tasks ht hm hreplaced _ =>
    have hserves : ∀ s, .stream s ∈ c.tasks → c.servesReader m s = true := by
      intro s hs
      simp only [Config.servesReaders, ht, hm, Option.all_some, List.all_eq_true] at hok
      exact hok _ hs
    intro s hs
    rcases hreplaced.mem_after.mp hs with hs | hs | hs
    · cases Task.step_moved hm with
      | stream hmoved =>
        obtain rfl := Task.stream.inj hs
        exact (hcovered _ hreplaced.task_mem).moved hmoved hreplaced
      | _ => cases hs
    · have hbefore := hreplaced.other_mem_before hs
      refine ⟨fun n hpc hunserved before after hqueue => ?_, fun n hpc hunserved => ?_⟩
      · exact parked_covered hq hm hreplaced hs (hcovered s hbefore) (hserves s hbefore) hpc
          hunserved hqueue
      · exact polling_covered hq htasks hm hreplaced hs (hcovered s hbefore) (hserves s hbefore)
          hpc hunserved
    · obtain ⟨spawn, -, hspawn⟩ := List.mem_map.mp hs
      cases spawn <;> cases hspawn
  | restart inst =>
    intro s hs
    have hhome := notifying_at_home hrun
    obtain ⟨hbefore, hkept⟩ := mem_of_restarted hs
    have hpolls : ∀ n, weight (Task.awaits n) (c.restarted inst).tasks ≤
        weight (Task.awaits n) c.tasks := (env_frame (.restart inst) fun _ _ h => by cases h).2.2.2
    have hserved : s.unserved (c.restarted inst).world = true → s.unserved c.world = true := by
      intro hunserved
      obtain ⟨e, he, hlacks⟩ := (Option.any_eq_true _ _).mp hunserved
      have hentry := (env_frame (.restart inst) fun _ _ h => by cases h).1 s.inst s.uuid e he
      rw [Stream.unserved, hentry]
      exact hlacks
    refine (hcovered s hbefore).mono rfl rfl hserved fun n hwaits => ⟨?_, hpolls n⟩
    obtain ⟨hinst, hended⟩ := waits_at_home (htasks _ hbefore) hwaits
    -- who notifies this reader is on its instance
    have hsame : ∀ t ∈ c.tasks, t.notifies n =
        Task.notifies n (if t.inst? = some inst ∧ t.ended = false then .killed else t) := by
      intro t ht
      split
      · next hkilled =>
        refine notifies_eq_zero fun hnotifying => ?_
        have hcell := (hhome t ht n hnotifying).symm.trans hkilled.1
        exact hkept ⟨hinst.symm.trans (Option.some.inj hcell), hended⟩
      · rfl
    have hway : c.onTheWay n = (c.restarted inst).onTheWay n := by
      simp only [Config.onTheWay, Config.restarted, weight, List.map_map]
      rw [List.map_congr_left hsame]
      rfl
    exact hway.le
  | _ => exact fun s hs => (hcovered s hs).mono rfl rfl id fun n _ => ⟨le_rfl, le_rfl⟩

/-- Where every write has a notification for every reader of its entry, a blocked reader has read
all tokens of an entry that is not done, or it is about to be woken. -/
theorem waiting_readers_served
    (h : Run Config.step (fun c a => c.servesReaders a = true) (Config.init d) c) {s : Stream}
    (hs : .stream s ∈ c.tasks) {n : Cell} (hblocked : c.Blocked s n) :
    (∀ e, c.world.jobs s.inst s.uuid = some e →
      e.tokens.length ≤ s.yielded.length ∧ e.done = false) ∨ c.WakeUpPending s n := by
  obtain ⟨hpc, hmem⟩ := hblocked
  cases hunserved : s.unserved c.world with
  | true =>
    right
    obtain ⟨before, after, hqueue⟩ := List.append_of_mem hmem
    have hcovered := covered_reachable h s hs
    exact ⟨before, after, hqueue, hcovered.parked n hpc hunserved before after hqueue⟩
  | false =>
    left
    intro e he
    rw [Stream.unserved, he] at hunserved
    simpa [Stream.lacks] using hunserved

end Runs

/-! ### A cancel with one reader, and with two -/

/-- Whether some blocked reader passes a test. -/
def Config.anyBlocked (c : Config) (p : Stream → Cell → Bool) : Bool :=
  c.tasks.any fun t => match t with
    | .stream s => match s.pc with
      | .parked n => decide (s.reader ∈ c.world.waiting n) && p s n
      | _ => false
    | _ => false

theorem blocked_of_anyBlocked {c : Config} {p : Stream → Cell → Bool}
    (h : c.anyBlocked p = true) :
    ∃ s n, .stream s ∈ c.tasks ∧ c.Blocked s n ∧ p s n = true := by
  obtain ⟨t, ht, htest⟩ := List.any_eq_true.mp h
  cases t with
  | stream s =>
    cases hpc : s.pc with
    | parked n =>
      simp only [hpc, Bool.and_eq_true, decide_eq_true_eq] at htest
      exact ⟨s, n, ht, ⟨hpc, htest.1⟩, htest.2⟩
    | _ => simp [hpc] at htest
  | _ => cases htest

/-- A submission, a reader that parks, and a cancel up to its write of the entry. -/
def cancelOneReader : List Action :=
  Action.start (.submit 0 (plainRequest "hi")) :: List.replicate 6 (Action.run 0 .go) ++
    Action.start (.stream 0 0) :: List.replicate 3 (Action.run 1 .go) ++
    Action.start (.cancel 0 0) :: List.replicate 2 (Action.run 2 .go)

/-- The reader of the cancelled job is about to be woken. -/
theorem cancelled_reader_served : ∃ (c : Config) (s : Stream) (n : Cell), .stream s ∈ c.tasks ∧
    c.Blocked s n ∧ (c.world.jobs s.inst s.uuid).any JobEntry.done = true ∧
    c.WakeUpPending s n := by
  have hexec : (exec Config.step Config.servesReaders (Config.init twoInstances)
      cancelOneReader).any (fun c => c.anyBlocked fun s _ =>
        (c.world.jobs s.inst s.uuid).any JobEntry.done) = true := by
    decide +kernel
  obtain ⟨c, hrun, htest⟩ := Run.exists_of_exec (fun _ _ h => h) hexec
  obtain ⟨s, n, hs, hblocked, hdone⟩ := blocked_of_anyBlocked htest
  refine ⟨c, s, n, hs, hblocked, hdone, ?_⟩
  rcases waiting_readers_served hrun hs hblocked with hread | hpending
  · obtain ⟨e, he, hended⟩ := (Option.any_eq_true _ _).mp hdone
    cases (hread e he).2.symm.trans hended
  · exact hpending

/-- A submission, two readers that park, and a cancel. -/
def cancelTwoReaders : List Action :=
  Action.start (.submit 0 (plainRequest "hi")) :: List.replicate 6 (Action.run 0 .go) ++
    Action.start (.stream 0 0) :: List.replicate 3 (Action.run 1 .go) ++
    Action.start (.stream 0 0) :: List.replicate 3 (Action.run 2 .go) ++
    Action.start (.cancel 0 0) :: List.replicate 9 (Action.run 3 .go)

/-- The second reader of the cancelled job waits for good: the one notification woke the first. -/
theorem second_reader_left_waiting :
    ¬ ∀ (d : Deployment) (c : Config), Run Config.step (fun _ _ => True) (Config.init d) c →
      ∀ (s : Stream) (n : Cell), .stream s ∈ c.tasks → c.Blocked s n →
        (∀ e, c.world.jobs s.inst s.uuid = some e →
          e.tokens.length ≤ s.yielded.length ∧ e.done = false) ∨ c.WakeUpPending s n := by
  intro hall
  have hexec : (exec Config.step (fun _ _ => true) (Config.init twoInstances)
      cancelTwoReaders).any (fun c => c.anyBlocked fun s n =>
        (c.world.jobs s.inst s.uuid).any JobEntry.done && decide (c.onTheWay n = 0)) = true := by
    decide +kernel
  obtain ⟨c, hrun, htest⟩ := Run.exists_of_exec (fun _ _ _ => trivial) hexec
  obtain ⟨s, n, hs, hblocked, htest⟩ := blocked_of_anyBlocked htest
  simp only [Bool.and_eq_true, Option.any_eq_true, decide_eq_true_eq] at htest
  obtain ⟨⟨e, he, hdone⟩, hnone⟩ := htest
  rcases hall twoInstances c hrun s n hs hblocked with hread | ⟨before, after, -, hless⟩
  · cases (hread e he).2.symm.trans hdone
  · rw [hnone] at hless
    cases hless

end Veronex
