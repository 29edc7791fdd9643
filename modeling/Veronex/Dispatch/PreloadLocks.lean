import Veronex.Dispatch.Planner
import Veronex.Foundation.Pool
import Veronex.Foundation.TtlLocks
import Veronex.Foundation.Transition

/-! # The locks of preloads

`try_acquire_lock` and what `planner_tick` and its preload tasks do to the lock keys in Valkey, for
any number of replicas. Each command is a step, and those of different replicas interleave. Which
preloads a tick asks for is left open: any model on any provider, at any time.

`preload_lock_exclusive`: what the locks give as long as no `SET` meets a value and no `DEL` meets
a value after the own lock has run out.
-/
namespace Veronex
set_option autoImplicit false
open Concurrency

def PRELOAD_LOCK_TTL_SECS : ℕ := 180
def SCALEOUT_DECISION_TTL_SECS : ℕ := 30

abbrev PlannerLease := Concurrency.Lease LockKey ℕ

inductive PlannerPc
  /-- `planner_tick`, between the preloads it asks for. -/
  | choosing
  | getDecision (model : String) (id : ProviderId)
  | setDecision (model : String) (id : ProviderId)
  /-- Step ① comes with its decision lock, Step ② without one. -/
  | getPreload (model : String) (id : ProviderId) (decision : Option PlannerLease)
  | setPreload (model : String) (id : ProviderId) (decision : Option PlannerLease)
  | rollback (decision : PlannerLease)
  /-- A spawned task, in `preload_model`. -/
  | loading (preload : PlannerLease) (decision : Option PlannerLease)
  | delPreload (preload : PlannerLease) (decision : Option PlannerLease)
  | delDecision (decision : PlannerLease)
  | finished
  deriving DecidableEq

/-- The locks that are held, in the eyes of the thread. -/
def PlannerPc.leases : PlannerPc → List PlannerLease
  | .getPreload _ _ decision | .setPreload _ _ decision => decision.toList
  | .rollback decision | .delDecision decision => [decision]
  | .loading preload decision | .delPreload preload decision => preload :: decision.toList
  | .choosing | .getDecision _ _ | .setDecision _ _ | .finished => []

/-- The planner loop of a replica, or a preload task of it. -/
structure PlannerThread where
  replica : ℕ
  instanceId : String
  pc : PlannerPc
  deriving DecidableEq

structure KvEntry where
  value : String
  expiresAt : Millis
  deriving DecidableEq

inductive LockCommand
  | get (key : LockKey)
  | set (key : LockKey) (value : String) (ttlSecs : ℕ)
  | del (lease : PlannerLease)
  deriving DecidableEq

/-- How a command ends. One that fails may have been executed all the same. -/
inductive KvOutcome
  | ok
  | error (executed : Bool)
  deriving DecidableEq

def KvOutcome.executed : KvOutcome → Bool
  | .ok => true
  | .error executed => executed

structure LockWorld where
  now : Millis
  kv : LockKey → Option KvEntry
  replicas : ℕ
  threads : List PlannerThread

inductive LockAction
  | start (instanceId : String)
  | tick (ms : Millis)
  | scaleOut (k : ℕ) (model : String) (id : ProviderId)
  | preload (k : ℕ) (model : String) (id : ProviderId)
  /-- `preload_model` returns. -/
  | loaded (k : ℕ)
  | run (k : ℕ) (outcome : KvOutcome)
  deriving DecidableEq

namespace PlannerThread
variable (t : PlannerThread)

def command : Option LockCommand :=
  match t.pc with
  | .getDecision model _ => some (.get (.scaleoutDecision model))
  | .setDecision model _ =>
    some (.set (.scaleoutDecision model) t.instanceId SCALEOUT_DECISION_TTL_SECS)
  | .getPreload model id _ => some (.get (.preloadLock model id))
  | .setPreload model id _ => some (.set (.preloadLock model id) "1" PRELOAD_LOCK_TTL_SECS)
  | .rollback decision | .delDecision decision => some (.del decision)
  | .delPreload preload _ => some (.del preload)
  | .choosing | .loading _ _ | .finished => none

/-- The lock of a `SET` that lands now. -/
def lease (now : Millis) (key : LockKey) (ttlSecs : ℕ) : PlannerLease :=
  ⟨t.replica, key, now + ttlSecs * 1000⟩

/-- The preload lock is not to be had. -/
def giveUp : Option PlannerLease → PlannerPc
  | none => .choosing
  | some decision => .rollback decision

/-- After a command, told `true` when a `GET` has found a value or a `SET` has succeeded: where the
thread is then, and the task it spawns. -/
def next (now : Millis) (answer : Bool) : PlannerPc × List PlannerPc :=
  match t.pc with
  | .getDecision model id => (if answer then .choosing else .setDecision model id, [])
  | .setDecision model id =>
    if answer then
      (.getPreload model id
        (some (t.lease now (.scaleoutDecision model) SCALEOUT_DECISION_TTL_SECS)), [])
    else (.choosing, [])
  | .getPreload model id decision =>
    (if answer then giveUp decision else .setPreload model id decision, [])
  | .setPreload model id decision =>
    if answer then
      (.choosing, [.loading (t.lease now (.preloadLock model id) PRELOAD_LOCK_TTL_SECS) decision])
    else (giveUp decision, [])
  | .rollback _ => (.choosing, [])
  | .delPreload _ (some decision) => (.delDecision decision, [])
  | .delPreload _ none | .delDecision _ => (.finished, [])
  | pc => (pc, [])

/-- The locks of a thread and of the tasks it has spawned, after a command. -/
def nextLeases (now : Millis) (answer : Bool) : List PlannerLease :=
  (t.next now answer).1.leases ++ (t.next now answer).2.flatMap PlannerPc.leases

/-- What a command does to the locks `before` of a thread. -/
def Moves (now : Millis) (answer : Bool) (before after : List PlannerLease) : LockCommand → Prop
  | .get _ => after = before
  | .set key _ ttlSecs => after = if answer then t.lease now key ttlSecs :: before else before
  | .del e => before = e :: after

theorem next_moves {t : PlannerThread} {c : LockCommand} (hc : t.command = some c) (now : Millis)
    (answer : Bool) : t.Moves now answer t.pc.leases (t.nextLeases now answer) c := by
  obtain ⟨replica, instanceId, pc⟩ := t
  cases pc with
  | choosing | loading preload decision | finished => simp [command] at hc
  | getDecision model id =>
    obtain rfl : _ = c := Option.some.inj hc
    cases answer <;> rfl
  | setDecision model id =>
    obtain rfl : _ = c := Option.some.inj hc
    cases answer <;> rfl
  | getPreload model id decision =>
    obtain rfl : _ = c := Option.some.inj hc
    cases answer <;> cases decision <;> rfl
  | setPreload model id decision =>
    obtain rfl : _ = c := Option.some.inj hc
    cases answer <;> cases decision <;> rfl
  | rollback decision | delDecision decision =>
    obtain rfl : _ = c := Option.some.inj hc
    rfl
  | delPreload preload decision =>
    obtain rfl : _ = c := Option.some.inj hc
    cases decision <;> rfl

end PlannerThread

namespace LockWorld

def init : LockWorld := { now := 0, kv := fun _ => none, replicas := 0, threads := [] }

section Steps
variable (w : LockWorld)

/-- Valkey has a value for the key. -/
def present (key : LockKey) : Bool := (w.kv key).any fun e => decide (w.now < e.expiresAt)

def answer : LockCommand → KvOutcome → Bool
  | .get key, .ok => w.present key
  | .set .., .ok => true
  | _, _ => false

def execute : LockCommand → LockKey → Option KvEntry
  | .get _ => w.kv
  | .set key value ttlSecs =>
    Function.update w.kv key (some ⟨value, w.now + ttlSecs * 1000⟩)
  | .del lease => Function.update w.kv lease.key none

def setPc (k : ℕ) (t : PlannerThread) (pc : PlannerPc) (new : List PlannerPc) : LockWorld :=
  { w with threads := advance w.threads k { t with pc } (new.map fun pc => { t with pc }) }

def step (w : LockWorld) : LockAction → Option LockWorld
  | .start instanceId =>
    let loop : PlannerThread := ⟨w.replicas, instanceId, .choosing⟩
    some { w with replicas := w.replicas + 1, threads := w.threads ++ [loop] }
  | .tick ms => some { w with now := w.now + ms }
  | .scaleOut k model id =>
    w.threads[k]?.bind fun t =>
      if t.pc = .choosing then some (w.setPc k t (.getDecision model id) []) else none
  | .preload k model id =>
    w.threads[k]?.bind fun t =>
      if t.pc = .choosing then some (w.setPc k t (.getPreload model id none) []) else none
  | .loaded k =>
    w.threads[k]?.bind fun t =>
      match t.pc with
      | .loading preload decision => some (w.setPc k t (.delPreload preload decision) [])
      | _ => none
  | .run k outcome =>
    w.threads[k]?.bind fun t => t.command.map fun c =>
      let (pc, new) := t.next w.now (w.answer c outcome)
      { w.setPc k t pc new with kv := if outcome.executed then w.execute c else w.kv }

end Steps

/-! ## Who holds a lock -/

variable {w w' : LockWorld} {a : LockAction} {key : LockKey} {i j k : ℕ}

def leases (w : LockWorld) : List PlannerLease := w.threads.flatMap fun t => t.pc.leases

/-- The replica was given the lock, has not given it up, and its TTL has not run out. -/
def Holds (w : LockWorld) (i : ℕ) (key : LockKey) : Prop :=
  ∃ e ∈ w.leases, e.owner = i ∧ e.RunsOn w.now key

instance : Decidable (w.Holds i key) := inferInstanceAs (Decidable (∃ e ∈ w.leases, _ ∧ _))

/-- A `SET` finds no value. A `DEL` finds none either, or the TTL of the own lock still runs. -/
def Meets (w : LockWorld) : LockCommand → Prop
  | .get _ => True
  | .set key _ _ => w.present key = false
  | .del lease => w.now < lease.expiresAt ∨ w.present lease.key = false

instance : (c : LockCommand) → Decidable (w.Meets c)
  | .get _ => isTrue trivial
  | .set key _ _ => inferInstanceAs (Decidable (w.present key = false))
  | .del _ => inferInstanceAs (Decidable (_ ∨ _))

def Undisturbed (w : LockWorld) : LockAction → Prop
  | .run k _ => ∀ c ∈ w.threads[k]?.bind PlannerThread.command, w.Meets c
  | _ => True

instance : (a : LockAction) → Decidable (w.Undisturbed a)
  | .run k _ =>
    inferInstanceAs (Decidable (∀ c ∈ w.threads[k]?.bind PlannerThread.command, w.Meets c))
  | .start _ | .tick _ | .scaleOut .. | .preload .. | .loaded _ => isTrue trivial

def expiry (w : LockWorld) (key : LockKey) : Option ℕ := (w.kv key).map KvEntry.expiresAt

/-! ## Undisturbed runs -/

/-- The locks the threads take to be theirs are exclusive, and each thread's are its replica's. -/
structure Guarded (w : LockWorld) : Prop where
  exclusive : Exclusive w.now w.expiry w.leases
  owned : ∀ t ∈ w.threads, ∀ e ∈ t.pc.leases, e.owner = t.replica

theorem absent_iff : Absent w.now w.expiry key ↔ w.present key = false := by
  cases hkv : w.kv key <;> simp [Absent, expiry, present, hkv]

theorem expiry_update (w : LockWorld) (key : LockKey) (value : Option KvEntry) :
    (fun key' => ((Function.update w.kv key value) key').map KvEntry.expiresAt)
      = Function.update w.expiry key (value.map KvEntry.expiresAt) := by
  funext key'
  by_cases hkey : key' = key
  · subst hkey
    simp
  · simp [Function.update_of_ne hkey, expiry]

theorem init_guarded : init.Guarded where
  exclusive := Exclusive.nil
  owned := List.forall_mem_nil _

theorem leases_setPc {t : PlannerThread} (ht : w.threads[k]? = some t) (pc : PlannerPc)
    (new : List PlannerPc) :
    ∃ others, w.leases.Perm (t.pc.leases ++ others) ∧
      (w.setPc k t pc new).leases.Perm (pc.leases ++ new.flatMap PlannerPc.leases ++ others) := by
  obtain ⟨others, ⟨hbefore, hafter⟩, -⟩ :=
    advance_replaced ht { t with pc } (new.map fun pc => { t with pc })
  refine ⟨others.flatMap fun t => t.pc.leases, ?_, ?_⟩
  · simpa [leases] using hbefore.flatMap_right fun t => t.pc.leases
  · refine (hafter.flatMap_right fun t => t.pc.leases).trans ?_
    rw [List.flatMap_cons, List.flatMap_append, List.flatMap_map, List.append_assoc]
    exact List.perm_append_comm.append_left _

theorem owned_setPc (h : w.Guarded) {t : PlannerThread} (ht : w.threads[k]? = some t)
    {pc : PlannerPc} {new : List PlannerPc}
    (hall : ∀ e ∈ pc.leases ++ new.flatMap PlannerPc.leases, e.owner = t.replica) :
    ∀ u ∈ (w.setPc k t pc new).threads, ∀ e ∈ u.pc.leases, e.owner = u.replica := by
  obtain ⟨others, hrep, -⟩ :=
    advance_replaced ht { t with pc } (new.map fun pc => { t with pc })
  refine hrep.forall_mem (fun u hu => h.owned u (hrep.other_mem_before hu)) ?_ ?_
  · exact fun e he => hall e (List.mem_append_left _ he)
  · intro u hu e he
    obtain ⟨pc', hpc', rfl⟩ := List.mem_map.mp hu
    exact hall e (List.mem_append_right _ (List.mem_flatMap.mpr ⟨pc', hpc', he⟩))

/-- A thread goes on with the locks it has. -/
theorem Guarded.setPc (h : w.Guarded) {t : PlannerThread} (ht : w.threads[k]? = some t)
    {pc : PlannerPc} (hpc : pc.leases = t.pc.leases) : (w.setPc k t pc []).Guarded where
  exclusive := by
    obtain ⟨others, hbefore, hafter⟩ := leases_setPc ht pc []
    rw [List.flatMap_nil, List.append_nil, hpc] at hafter
    exact h.exclusive.perm (hbefore.trans hafter.symm)
  owned := by
    refine owned_setPc h ht ?_
    rw [List.flatMap_nil, List.append_nil, hpc]
    exact h.owned t (List.mem_of_getElem? ht)

/-- A command that meets the condition keeps the locks exclusive, `before` and `after` being the
ones of the thread and `others` the ones of the other threads. -/
theorem execute_exclusive {t : PlannerThread} {c : LockCommand} {outcome : KvOutcome}
    {before after others : List PlannerLease}
    (hnext : t.Moves w.now (w.answer c outcome) before after c) (hok : w.Meets c)
    (h : Exclusive w.now w.expiry (before ++ others)) :
    Exclusive w.now
      (fun key => ((if outcome.executed then w.execute c else w.kv) key).map KvEntry.expiresAt)
      (after ++ others) := by
  cases c with
  | get key =>
    obtain rfl : after = before := hnext
    have hkv : (if outcome.executed then w.execute (.get key) else w.kv) = w.kv := ite_self _
    rw [hkv]
    exact h
  | set key value ttlSecs =>
    have habsent := absent_iff.mpr hok
    have hstored := expiry_update w key (some ⟨value, w.now + ttlSecs * 1000⟩)
    rcases outcome with _ | _ | _
    · obtain rfl : after = t.lease w.now key ttlSecs :: before := hnext
      exact hstored ▸ h.grant habsent
    · obtain rfl : after = before := hnext
      exact h
    · obtain rfl : after = before := hnext
      exact hstored ▸ h.set habsent _
  | del e =>
    obtain rfl : before = e :: after := hnext
    cases hexec : outcome.executed with
    | false => exact h.drop
    | true =>
      have hstored := expiry_update w e.key none
      exact hstored ▸ h.release (hok.imp_right absent_iff.mpr)

/-- No command gives a thread a lock of another replica. -/
theorem next_owned {t : PlannerThread} {c : LockCommand} (hc : t.command = some c) (answer : Bool)
    (hmine : ∀ e ∈ t.pc.leases, e.owner = t.replica) :
    ∀ e ∈ t.nextLeases w.now answer, e.owner = t.replica := by
  have hnext := PlannerThread.next_moves hc w.now answer
  cases c with
  | get key =>
    rw [show t.nextLeases w.now answer = t.pc.leases from hnext]
    exact hmine
  | set key value ttlSecs =>
    have hafter : t.nextLeases w.now answer = _ := hnext
    rw [hafter]
    cases answer with
    | true => exact List.forall_mem_cons.mpr ⟨rfl, hmine⟩
    | false => exact hmine
  | del e =>
    have hbefore : t.pc.leases = e :: t.nextLeases w.now answer := hnext
    rw [hbefore] at hmine
    exact fun e' he' => hmine e' (List.mem_cons_of_mem _ he')

theorem step_guarded (h : w.Guarded) (hok : w.Undisturbed a) (hs : w.step a = some w') :
    w'.Guarded := by
  cases a with
  | start instanceId =>
    obtain rfl : _ = w' := Option.some.inj hs
    refine ⟨h.exclusive.perm (.of_eq ?_), List.forall_mem_append.mpr ⟨h.owned, ?_⟩⟩
    · rw [leases, leases, List.flatMap_append]
      exact (List.append_nil _).symm
    · intro t ht e he
      rw [List.mem_singleton.mp ht] at he
      exact absurd he List.not_mem_nil
  | tick ms =>
    obtain rfl : _ = w' := Option.some.inj hs
    exact ⟨h.exclusive.later (Nat.le_add_right ..), h.owned⟩
  | scaleOut k model id | preload k model id =>
    obtain ⟨t, ht, hs⟩ := Option.bind_eq_some_iff.mp hs
    obtain ⟨hpc, hw⟩ := Option.ite_none_right_eq_some.mp hs
    obtain rfl : _ = w' := Option.some.inj hw
    exact h.setPc ht (by rw [hpc]; rfl)
  | loaded k =>
    obtain ⟨t, ht, hs⟩ := Option.bind_eq_some_iff.mp hs
    cases hpc : t.pc with
    | loading preload decision =>
      rw [hpc] at hs
      obtain rfl : _ = w' := Option.some.inj hs
      exact h.setPc ht (by rw [hpc]; rfl)
    | _ => simp [hpc] at hs
  | run k outcome =>
    obtain ⟨t, ht, hs⟩ := Option.bind_eq_some_iff.mp hs
    obtain ⟨c, hc, rfl⟩ := Option.map_eq_some_iff.mp hs
    have hcond : w.Meets c := hok c (by rw [ht]; exact hc)
    have hmine := next_owned (w := w) hc (w.answer c outcome)
      (h.owned t (List.mem_of_getElem? ht))
    obtain ⟨others, hbefore, hafter⟩ := leases_setPc ht
      (t.next w.now (w.answer c outcome)).1 (t.next w.now (w.answer c outcome)).2
    have hexcl := execute_exclusive (PlannerThread.next_moves hc w.now (w.answer c outcome))
      hcond (h.exclusive.perm hbefore)
    exact ⟨hexcl.perm hafter.symm, owned_setPc h ht hmine⟩

theorem run_guarded (h : Run step Undisturbed init w) : w.Guarded :=
  h.invariant init_guarded fun _ _ _ _ hg hok hs => step_guarded hg hok hs

theorem Guarded.eq_of_holds (h : w.Guarded) (hi : w.Holds i key) (hj : w.Holds j key) : i = j := by
  obtain ⟨e, he, rfl, hrun⟩ := hi
  obtain ⟨e', he', rfl, hrun'⟩ := hj
  rw [h.exclusive.eq_of_runsOn he he' hrun hrun']

theorem Guarded.eq_of_deletes (h : w.Guarded) {t : PlannerThread} {e : PlannerLease}
    (ht : w.threads[k]? = some t) (hc : t.command = some (.del e)) (hok : w.Meets (.del e))
    (hj : w.Holds j e.key) : j = t.replica := by
  have hmem : e ∈ t.pc.leases := by
    have hbefore : t.pc.leases = e :: t.nextLeases w.now false :=
      PlannerThread.next_moves hc w.now false
    rw [hbefore]
    exact List.mem_cons_self ..
  have hthread := List.mem_of_getElem? ht
  have hmine : e ∈ w.leases := List.mem_flatMap.mpr ⟨t, hthread, hmem⟩
  rcases hok with hrun | habsent
  · rw [← h.owned t hthread e hmem]
    exact (h.eq_of_holds ⟨e, hmine, rfl, rfl, hrun⟩ hj).symm
  · obtain ⟨e', he', -, hrun'⟩ := hj
    exact absurd hrun' (h.exclusive.not_runsOn_of_absent (absent_iff.mpr habsent) he')

/-- As long as every `SET` finds no value and every `DEL` the own one or none, a lock has one
holder, and nobody deletes the lock of another. -/
theorem preload_lock_exclusive (h : Run step Undisturbed init w) :
    (∀ key i j, w.Holds i key → w.Holds j key → i = j) ∧
      ∀ k outcome (t : PlannerThread) (e : PlannerLease), w.threads[k]? = some t →
        t.command = some (.del e) → w.Undisturbed (.run k outcome) →
        ∀ j, w.Holds j e.key → j = t.replica := by
  have hg := run_guarded h
  refine ⟨fun key i j => hg.eq_of_holds, fun k outcome t e ht hc hok j hj => ?_⟩
  exact hg.eq_of_deletes ht hc (hok _ (by rw [ht]; exact hc)) hj

/-- One replica preloads, finishes and deletes its lock, and then another one takes it. -/
def inTurn : List LockAction :=
  .flatten [[.start "a", .start "b", .preload 0 "m" 7], .replicate 2 (.run 0 .ok),
    [.loaded 2, .preload 1 "m" 7, .run 1 .ok, .run 2 .ok, .preload 1 "m" 7],
    .replicate 2 (.run 1 .ok)]

theorem preload_lock_in_turn :
    ∃ w, Run step Undisturbed init w ∧ w.Holds 1 (.preloadLock "m" 7) ∧
      ∀ j, w.Holds j (.preloadLock "m" 7) → j = 1 := by
  have hexec : (exec step (fun w a => decide (w.Undisturbed a)) init inTurn).any
      (fun w => decide (w.Holds 1 (.preloadLock "m" 7))) = true := by decide
  obtain ⟨w, hrun, hholds⟩ := Run.exists_of_exec (fun _ _ h => of_decide_eq_true h) hexec
  have hheld := of_decide_eq_true hholds
  exact ⟨w, hrun, hheld, fun j hj => (preload_lock_exclusive hrun).1 _ j 1 hj hheld⟩

/-- Two replicas read that there is no lock, and then both set it. -/
def bothSet : List LockAction :=
  [.start "a", .start "b", .preload 0 "m" 7, .preload 1 "m" 7, .run 0 .ok, .run 1 .ok, .run 0 .ok,
    .run 1 .ok]

/-- The lock of a replica runs out during its preload, and another one takes it. -/
def outlived : List LockAction :=
  .flatten [[.start "a", .start "b", .preload 0 "m" 7], .replicate 2 (.run 0 .ok),
    [.tick 180000, .preload 1 "m" 7], .replicate 2 (.run 1 .ok), [.loaded 2]]

/-- Two replicas hold one lock, and a replica is about to delete the lock of another. -/
theorem preload_lock_shared :
    (∃ w, Run step (fun _ _ => True) init w ∧
      w.Holds 0 (.preloadLock "m" 7) ∧ w.Holds 1 (.preloadLock "m" 7)) ∧
    ∃ (w : LockWorld) (k : ℕ) (t : PlannerThread) (e : PlannerLease),
      Run step (fun _ _ => True) init w ∧ w.threads[k]? = some t ∧ t.command = some (.del e) ∧
        t.replica = 0 ∧ w.Holds 1 e.key := by
  have hboth : (exec step (fun _ _ => true) init bothSet).any (fun w => decide
      (w.Holds 0 (.preloadLock "m" 7) ∧ w.Holds 1 (.preloadLock "m" 7))) = true := by decide
  have houtlived : (exec step (fun _ _ => true) init outlived).any (fun w => decide
      (w.Holds 1 (.preloadLock "m" 7) ∧ w.threads[2]? = some ⟨0, "a",
        .delPreload ⟨0, .preloadLock "m" 7, 180000⟩ none⟩)) = true := by decide
  obtain ⟨w, hrun, hw⟩ := Run.exists_of_exec (fun _ _ _ => trivial) hboth
  obtain ⟨w', hrun', hw'⟩ := Run.exists_of_exec (fun _ _ _ => trivial) houtlived
  obtain ⟨hholds, ht⟩ := of_decide_eq_true hw'
  exact ⟨⟨w, hrun, of_decide_eq_true hw⟩, w', 2, _, _, hrun', ht, rfl, rfl, hholds⟩

end LockWorld
end Veronex
