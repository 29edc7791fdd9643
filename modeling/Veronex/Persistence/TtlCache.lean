import Veronex.Foundation.Pool
import Veronex.Foundation.Transition
import Mathlib.Logic.Function.Basic

/-! # A TTL cache in front of a table

`TtlCache` of `infrastructure/outbound/persistence/ttl_cache.rs` under `get_or_insert`, with mutations
of the table that end with `invalidate_all` or leave the cache alone. The write lock is held while
`get_or_insert` fetches; what is done under the read lock is one step. Time is in ms.

The states of the table are numbered. `returned` is the last one that a mutation which has returned
has made, and a read remembers what it was at its start. `reads_current`: which runs give every read a
value the table had then or later.
-/
namespace Veronex
set_option autoImplicit false
open Concurrency

/-- The table behind a cache. -/
structure CachedTable where
  Key : Type
  Value : Type
  Table : Type
  Mutation : Type
  [decEq : DecidableEq Key]
  ttl : ℕ
  fetch : Table → Key → Value
  apply : Table → Mutation → Table
  /-- Whether the mutation ends with `invalidate_all`. -/
  invalidates : Mutation → Bool

attribute [instance] CachedTable.decEq

variable (T : CachedTable)

inductive CacheOp
  /-- `get_or_insert`: under the read lock, before the write lock, and with it. -/
  | fast (key : T.Key) (since : ℕ)
  | slow (key : T.Key) (since : ℕ)
  | fetch (key : T.Key) (since : ℕ)
  /-- The table has answered. -/
  | insert (key : T.Key) (since : ℕ) (value : T.Value)
  | got (key : T.Key) (since : ℕ) (value : T.Value)
  /-- A mutation, and what it does once the table has made this state of it. -/
  | execute (m : T.Mutation)
  | invalidateAll (commit : ℕ)
  | reply (commit : ℕ)
  | finished

variable {T} in
/-- The operation holds the write lock. -/
def CacheOp.holds : CacheOp T → Bool
  | .fetch .. | .insert .. => true
  | _ => false

structure CacheWorld where
  now : ℕ
  states : ℕ → T.Table
  version : ℕ
  entries : T.Key → Option (T.Value × ℕ)
  ops : List (CacheOp T)
  returned : ℕ

inductive CacheStep
  | get (key : T.Key)
  | mutate (m : T.Mutation)
  /-- A write of the table that is none of the mutations. -/
  | write (m : T.Mutation)
  | tick (ms : ℕ)
  /-- The next command of an operation; where it fails the table has not changed. -/
  | run (k : ℕ) (ok : Bool)
  /-- The operation is given up where it awaits. -/
  | drop (k : ℕ)

variable {T}

namespace CacheWorld

def init (table : T.Table) : CacheWorld T :=
  { now := 0, states := fun _ => table, version := 0, entries := fun _ => none, ops := []
    returned := 0 }

section Steps
variable (w : CacheWorld T)

def locked : Bool := w.ops.any CacheOp.holds

/-- A value that is there and fresh. -/
def cached (key : T.Key) : Option T.Value :=
  (w.entries key).bind fun (value, ts) => if w.now < ts + T.ttl then some value else none

def setOp (k : ℕ) (op : CacheOp T) : CacheWorld T := { w with ops := w.ops.set k op }

def commit (m : T.Mutation) : CacheWorld T :=
  { w with
    states := Function.update w.states (w.version + 1) (T.apply (w.states w.version) m)
    version := w.version + 1 }

/-- What a mutation does once the table has answered. -/
def afterCommit (m : T.Mutation) (commit : ℕ) : CacheOp T :=
  if T.invalidates m then .invalidateAll commit else .reply commit

def runOp (k : ℕ) (ok : Bool) : CacheOp T → Option (CacheWorld T)
  | .fast key since =>
    if w.locked then none
    else some (w.setOp k ((w.cached key).elim (.slow key since) (.got key since)))
  | .slow key since =>
    if w.locked then none
    else some (w.setOp k ((w.cached key).elim (.fetch key since) (.got key since)))
  | .fetch key since =>
    some (w.setOp k (if ok then .insert key since (T.fetch (w.states w.version) key) else .finished))
  | .insert key since value =>
    if ok then
      some { w.setOp k (.got key since value) with
        entries := Function.update w.entries key (some (value, w.now)) }
    else some (w.setOp k .finished)
  | .execute m =>
    if ok then some ((w.commit m).setOp k (afterCommit m (w.version + 1)))
    else some (w.setOp k (afterCommit m 0))
  | .invalidateAll commit =>
    if w.locked then none
    else some { w.setOp k .finished with
      entries := fun _ => none, returned := max w.returned commit }
  | .reply commit => some { w.setOp k .finished with returned := max w.returned commit }
  | .got .. | .finished => none

def step (w : CacheWorld T) : CacheStep T → Option (CacheWorld T)
  | .get key => some { w with ops := w.ops ++ [.fast key w.returned] }
  | .mutate m => some { w with ops := w.ops ++ [.execute m] }
  | .write m => some (w.commit m)
  | .tick ms => some { w with now := w.now + ms }
  | .run k ok => w.ops[k]?.bind (w.runOp k ok)
  | .drop k => w.ops[k]?.bind fun
    | .got .. | .finished => none
    | _ => some (w.setOp k .finished)

end Steps

/-- The table had this value in some state from `since` on. -/
def Had (w : CacheWorld T) (since : ℕ) (key : T.Key) (value : T.Value) : Prop :=
  ∃ v, since ≤ v ∧ v ≤ w.version ∧ T.fetch (w.states v) key = value

/-- Whatever is cached or about to be, the table had it from `since` on. -/
structure AllHad (w : CacheWorld T) (since : ℕ) : Prop where
  cached : ∀ key value, w.cached key = some value → w.Had since key value
  fetched : ∀ key s value, .insert key s value ∈ w.ops → w.Had since key value

/-- A mutation that leaves the cache alone returns only where nothing from before it is cached. -/
def Covered (w : CacheWorld T) : CacheStep T → Prop
  | .run k _ => ∀ commit, w.ops[k]? = some (.reply commit) → w.AllHad (max w.returned commit)
  | _ => True

/-! ## What is kept -/

variable {w w' : CacheWorld T} {a : CacheStep T} {k : ℕ} {ok : Bool} {op : CacheOp T}

/-- The states so far stay. -/
def Extends (w w' : CacheWorld T) : Prop :=
  w.version ≤ w'.version ∧ ∀ v ≤ w.version, w'.states v = w.states v

theorem Had.mono {since since' : ℕ} {key : T.Key} {value : T.Value} (h : w.Had since key value)
    (hsince : since' ≤ since) (hext : w.Extends w') : w'.Had since' key value := by
  obtain ⟨v, hv, hversion, hvalue⟩ := h
  exact ⟨v, hsince.trans hv, hversion.trans hext.1, hext.2 v hversion ▸ hvalue⟩

theorem commit_extends (w : CacheWorld T) (m : T.Mutation) : w.Extends (w.commit m) := by
  refine ⟨Nat.le_succ _, fun v hv => ?_⟩
  have hne : v ≠ w.version + 1 := by omega
  exact Function.update_of_ne hne ..

theorem extends_refl (h : w'.version = w.version) (hstates : w'.states = w.states) :
    w.Extends w' :=
  ⟨h.ge, fun v _ => by rw [hstates]⟩

def OpSound (w : CacheWorld T) : CacheOp T → Prop
  | .fast _ since | .slow _ since | .fetch _ since => since ≤ w.returned
  | .insert key since value => since ≤ w.returned ∧ w.Had w.returned key value
  | .got key since value => w.Had since key value
  | .invalidateAll commit | .reply commit => commit ≤ w.version
  | .execute _ | .finished => True

structure Sound (w : CacheWorld T) : Prop where
  bound : w.returned ≤ w.version
  cached : ∀ key value, w.cached key = some value → w.Had w.returned key value
  ops : ∀ op ∈ w.ops, w.OpSound op

theorem OpSound.mono (h : w.OpSound op) (hext : w.Extends w') (hreturned : w.returned = w'.returned) :
    w'.OpSound op := by
  cases op with
  | fast | slow | fetch => exact h.trans_eq hreturned
  | insert key since value => exact ⟨h.1.trans_eq hreturned, h.2.mono hreturned.ge hext⟩
  | got key since value => exact h.mono le_rfl hext
  | invalidateAll | reply => exact h.trans hext.1
  | execute | finished => trivial

/-- One operation goes on, and neither the cache nor `returned` changes. -/
theorem Sound.quiet (h : w.Sound) (hk : w.ops[k]? = some op) {op' : CacheOp T}
    (hops : w'.ops = w.ops.set k op') (hext : w.Extends w') (hreturned : w.returned = w'.returned)
    (hcached : ∀ key value, w'.cached key = some value → w.cached key = some value)
    (hop : w'.OpSound op') : w'.Sound := by
  obtain ⟨others, hrep⟩ := set_replaced hk op'
  rw [← hops] at hrep
  refine ⟨?_, fun key value hc => ?_, ?_⟩
  · rw [← hreturned]
    exact h.bound.trans hext.1
  · exact (h.cached key value (hcached key value hc)).mono hreturned.ge hext
  · exact hrep.forall_mem (fun d hd => (h.ops d (hrep.other_mem_before hd)).mono hext hreturned) hop
      (by rintro _ ⟨⟩)

/-- A read looks in the cache. -/
theorem Sound.lookup (h : w.Sound) {key : T.Key} {since : ℕ} (hk : w.ops[k]? = some op)
    (hsince : since ≤ w.returned) {miss : CacheOp T} (hmiss : w.OpSound miss)
    (hw' : w' = w.setOp k ((w.cached key).elim miss (.got key since))) : w'.Sound := by
  subst hw'
  have hext : ∀ op', w.Extends (w.setOp k op') := fun _ => extends_refl rfl rfl
  have hfound : w.OpSound ((w.cached key).elim miss (.got key since)) := by
    cases hcached : w.cached key with
    | none => exact hmiss
    | some value => exact (h.cached key value hcached).mono hsince (extends_refl rfl rfl)
  exact h.quiet hk rfl (hext _) rfl (fun _ _ hc => hc) (hfound.mono (hext _) rfl)

theorem afterCommit_sound (m : T.Mutation) {commit : ℕ} (h : commit ≤ w.version) :
    w.OpSound (afterCommit m commit) := by
  unfold afterCommit
  split
  · exact h
  · exact h

/-- `returned` grows: what is about to be cached has to keep up. -/
theorem OpSound.raise (h : w.OpSound op) (hext : w.Extends w') (hreturned : w.returned ≤ w'.returned)
    (hinsert : ∀ key since value, op = .insert key since value → w'.Had w'.returned key value) :
    w'.OpSound op := by
  cases op with
  | fast | slow | fetch => exact h.trans hreturned
  | insert key since value => exact ⟨h.1.trans hreturned, hinsert key since value rfl⟩
  | got => exact Had.mono h le_rfl hext
  | invalidateAll | reply => exact h.trans hext.1
  | execute | finished => trivial

theorem Sound.runOp (h : w.Sound) (hk : w.ops[k]? = some op) (hcovered : w.Covered (.run k ok))
    (hs : w.runOp k ok op = some w') : w'.Sound := by
  have hop := h.ops op (List.mem_of_getElem? hk)
  have hsame : ∀ op', w.Extends (w.setOp k op') := fun _ => extends_refl rfl rfl
  cases op with
  | fast key since =>
    obtain ⟨-, hs⟩ := Option.ite_none_left_eq_some.mp hs
    have hmiss : w.OpSound (.slow key since) := hop
    exact h.lookup hk hop hmiss (Option.some.inj hs).symm
  | slow key since =>
    obtain ⟨-, hs⟩ := Option.ite_none_left_eq_some.mp hs
    have hmiss : w.OpSound (.fetch key since) := hop
    exact h.lookup hk hop hmiss (Option.some.inj hs).symm
  | fetch key since =>
    obtain rfl : _ = w' := Option.some.inj hs
    refine h.quiet hk rfl (hsame _) rfl (fun _ _ hc => hc) ?_
    cases ok with
    | true => exact ⟨hop, w.version, h.bound, le_rfl, rfl⟩
    | false => trivial
  | insert key since value =>
    obtain ⟨hsince, hhad⟩ := hop
    simp only [CacheWorld.runOp] at hs
    cases ok with
    | false =>
      obtain rfl : _ = w' := Option.some.inj hs
      exact h.quiet hk rfl (hsame _) rfl (fun _ _ hc => hc) trivial
    | true =>
      obtain rfl : _ = w' := Option.some.inj hs
      obtain ⟨others, hrep⟩ := set_replaced hk (.got key since value)
      refine ⟨h.bound, fun key' value' hc => ?_, ?_⟩
      · by_cases hkey : key' = key
        · subst hkey
          have hvalue : value = value' := by
            simp only [CacheWorld.cached, Function.update_self, Option.bind_some] at hc
            split at hc
            · exact Option.some.inj hc
            · cases hc
          exact hvalue ▸ hhad.mono le_rfl (extends_refl rfl rfl)
        · have hold : w.cached key' = some value' := by
            rw [← hc]
            unfold CacheWorld.cached
            dsimp only
            rw [Function.update_of_ne hkey]
            rfl
          exact (h.cached key' value' hold).mono le_rfl (extends_refl rfl rfl)
      · refine hrep.forall_mem (fun d hd => ?_) ?_ (by rintro _ ⟨⟩)
        · exact (h.ops d (hrep.other_mem_before hd)).mono (extends_refl rfl rfl) rfl
        · exact hhad.mono hsince (extends_refl rfl rfl)
  | execute m =>
    simp only [CacheWorld.runOp] at hs
    cases ok with
    | true =>
      obtain rfl : _ = w' := Option.some.inj hs
      exact h.quiet hk rfl (commit_extends w m) rfl (fun _ _ hc => hc) (afterCommit_sound m le_rfl)
    | false =>
      obtain rfl : _ = w' := Option.some.inj hs
      have hnone := afterCommit_sound (w := w) m (Nat.zero_le _)
      exact h.quiet hk rfl (hsame _) rfl (fun _ _ hc => hc) (hnone.mono (hsame _) rfl)
  | invalidateAll commit =>
    obtain ⟨hunlocked, hs⟩ := Option.ite_none_left_eq_some.mp hs
    obtain rfl : _ = w' := Option.some.inj hs
    obtain ⟨others, hrep⟩ := set_replaced hk .finished
    refine ⟨max_le h.bound hop, (fun key value hc => by cases hc), ?_⟩
    refine hrep.forall_mem (fun d hd => ?_) trivial (by rintro _ ⟨⟩)
    have hd := hrep.other_mem_before hd
    refine (h.ops d hd).raise (extends_refl rfl rfl) (le_max_left ..) fun key since value hinsert => ?_
    -- it would hold the lock
    exact absurd (List.any_eq_true.mpr ⟨d, hd, hinsert ▸ rfl⟩) hunlocked
  | reply commit =>
    obtain rfl : _ = w' := Option.some.inj hs
    obtain ⟨others, hrep⟩ := set_replaced hk .finished
    have hall := hcovered commit hk
    refine ⟨max_le h.bound hop, fun key value hc => hall.cached key value hc, ?_⟩
    refine hrep.forall_mem (fun d hd => ?_) trivial (by rintro _ ⟨⟩)
    have hd := hrep.other_mem_before hd
    refine (h.ops d hd).raise (extends_refl rfl rfl) (le_max_left ..) fun key since value hinsert => ?_
    exact hall.fetched key since value (hinsert ▸ hd)
  | got => cases hs
  | finished => cases hs

/-- A new operation. -/
theorem Sound.spawn (h : w.Sound) (hop : w.OpSound op) :
    Sound { w with ops := w.ops ++ [op] } := by
  refine ⟨h.bound, h.cached, fun d hd => ?_⟩
  rcases List.mem_append.mp hd with hd | hd
  · exact h.ops d hd
  · rw [List.mem_singleton.mp hd]
    exact hop

theorem Sound.step (h : w.Sound) (hcovered : w.Covered a) (hs : w.step a = some w') : w'.Sound := by
  cases a with
  | get key =>
    obtain rfl : _ = w' := Option.some.inj hs
    exact h.spawn le_rfl
  | mutate m =>
    obtain rfl : _ = w' := Option.some.inj hs
    exact h.spawn trivial
  | write m =>
    obtain rfl : _ = w' := Option.some.inj hs
    have hext := commit_extends w m
    refine ⟨h.bound.trans hext.1, fun key value hc => ?_, fun d hd => ?_⟩
    · exact (h.cached key value hc).mono le_rfl hext
    · exact (h.ops d hd).mono hext rfl
  | tick ms =>
    obtain rfl : _ = w' := Option.some.inj hs
    refine ⟨h.bound, fun key value hc => h.cached key value ?_, h.ops⟩
    unfold CacheWorld.cached at hc ⊢
    obtain ⟨⟨v, ts⟩, hentry, hfresh⟩ := Option.bind_eq_some_iff.mp hc
    obtain ⟨hfresh, hvalue⟩ := Option.ite_none_right_eq_some.mp hfresh
    have hbefore : w.now < ts + T.ttl := (Nat.le_add_right w.now ms).trans_lt hfresh
    have hentry' : w.entries key = some (v, ts) := hentry
    rw [hentry', Option.bind_some]
    dsimp only
    rw [if_pos hbefore]
    exact hvalue
  | run k ok =>
    obtain ⟨op, hk, hs⟩ := Option.bind_eq_some_iff.mp hs
    exact h.runOp hk hcovered hs
  | drop k =>
    obtain ⟨op, hk, hs⟩ := Option.bind_eq_some_iff.mp hs
    have hset : w' = w.setOp k .finished := by
      cases op with
      | got => cases hs
      | finished => cases hs
      | _ => exact (Option.some.inj hs).symm
    subst hset
    exact h.quiet hk rfl (extends_refl rfl rfl) rfl (fun _ _ hc => hc) trivial

theorem Sound.init (table : T.Table) : (init table).Sound :=
  ⟨le_rfl, by rintro _ _ ⟨⟩, by rintro _ ⟨⟩⟩

/-- While every mutation that leaves the cache alone returns covered, every read gives a value the
table had when the mutations that had returned at its start were made, or later. -/
theorem reads_current {table : T.Table} (h : Run step Covered (init table) w) {key : T.Key}
    {since : ℕ} {value : T.Value} (hgot : .got key since value ∈ w.ops) : w.Had since key value := by
  have hsound : w.Sound :=
    h.invariant (Sound.init table) fun _ _ _ _ hi hcovered hs => hi.step hcovered hs
  exact hsound.ops _ hgot

/-! ## Uncovered replies -/

/-- What a read sees is the same. -/
structure SameCache (w w' : CacheWorld T) : Prop where
  now : w'.now = w.now
  states : w'.states = w.states
  version : w'.version = w.version
  entries : w'.entries = w.entries
  returned : w'.returned = w.returned

theorem SameCache.trans {v : CacheWorld T} (h : w.SameCache w') (h' : w'.SameCache v) :
    w.SameCache v :=
  ⟨h'.now.trans h.now, h'.states.trans h.states, h'.version.trans h.version,
    h'.entries.trans h.entries, h'.returned.trans h.returned⟩

theorem SameCache.had (h : w.SameCache w') {since : ℕ} {key : T.Key} {value : T.Value} :
    w'.Had since key value ↔ w.Had since key value := by
  unfold Had
  rw [h.states, h.version]

theorem SameCache.cached (h : w.SameCache w') (key : T.Key) : w'.cached key = w.cached key := by
  unfold CacheWorld.cached
  rw [h.entries, h.now]

/-- Those who hold the write lock may be given up. -/
theorem run_unlocked (w : CacheWorld T) :
    ∃ v, Run step (fun _ _ => True) w v ∧ v.locked = false ∧ w.SameCache v := by
  generalize hcount : w.ops.countP CacheOp.holds = n
  induction n generalizing w with
  | zero =>
    refine ⟨w, .refl w, ?_, rfl, rfl, rfl, rfl, rfl⟩
    rw [locked, List.any_eq_false]
    exact fun op hop => List.countP_eq_zero.mp hcount op hop
  | succ n ih =>
    obtain ⟨op, hop, hholds⟩ := List.countP_pos_iff.mp (by omega : 0 < w.ops.countP CacheOp.holds)
    obtain ⟨k, hk⟩ := List.mem_iff_getElem?.mp hop
    have hdrop : w.step (.drop k) = some (w.setOp k .finished) := by
      rw [step, hk, Option.bind_some]
      cases op with
      | fetch | insert => rfl
      | _ => cases hholds
    obtain ⟨others, hrep⟩ := set_replaced hk .finished
    have hbefore := hrep.countP_before CacheOp.holds
    have hafter := hrep.countP_after CacheOp.holds
    rw [if_pos hholds] at hbefore
    rw [if_neg (by simp [CacheOp.holds])] at hafter
    have hless : (w.setOp k .finished).ops.countP CacheOp.holds = n := by
      dsimp only [setOp]
      omega
    obtain ⟨v, hrun, hunlocked, hsame⟩ := ih (w.setOp k .finished) hless
    have hset : w.SameCache (w.setOp k .finished) := ⟨rfl, rfl, rfl, rfl, rfl⟩
    exact ⟨v, (Run.single trivial hdrop).trans hrun, hunlocked, hset.trans hsame⟩

/-- A read gives what the table has not had since. -/
def ReadsStale (w : CacheWorld T) : Prop :=
  ∃ v, Run step (fun _ _ => True) w v ∧ ∃ key since value, .got key since value ∈ v.ops ∧
    ¬ v.Had since key value

theorem readsStale_of_cached {key : T.Key} {value : T.Value} (hcached : w.cached key = some value)
    (hhad : ¬ w.Had w.returned key value) : w.ReadsStale := by
  obtain ⟨v, hrun, hunlocked, hsame⟩ := run_unlocked w
  let started : CacheWorld T := { v with ops := v.ops ++ [.fast key v.returned] }
  have hget : v.step (.get key) = some started := rfl
  have hunlocked' : started.locked = false := by
    simp only [locked, started, List.any_append, List.any_cons, List.any_nil] at hunlocked ⊢
    rw [hunlocked]
    rfl
  have hfound : started.cached key = some value := (hsame.cached key).trans hcached
  have hlast : started.ops[v.ops.length]? = some (.fast key v.returned) := by
    simp [started]
  have hread : started.step (.run v.ops.length true) =
      some (started.setOp v.ops.length (.got key v.returned value)) := by
    rw [step, hlast, Option.bind_some, runOp, hunlocked', hfound]
    rfl
  refine ⟨_, (hrun.trans (Run.single trivial hget)).trans (Run.single trivial hread), key,
    v.returned, value, ?_, ?_⟩
  · obtain ⟨others, hrep⟩ := set_replaced hlast (.got key v.returned value)
    exact hrep.successor_mem
  · rw [hsame.returned]
    exact fun h => hhad (hsame.had.mp h)

/-- After a mutation has returned uncovered, a read can give what was there before. -/
theorem uncovered_stale (httl : 0 < T.ttl) (hs : w.step (.run k ok) = some w')
    (hnot : ¬ w.Covered (.run k ok)) : w'.ReadsStale := by
  simp only [Covered, not_forall] at hnot
  obtain ⟨commit, hk, hnot⟩ := hnot
  rw [step, hk, Option.bind_some] at hs
  obtain rfl : _ = w' := Option.some.inj hs
  have hsame : ∀ since key value,
      Had { w.setOp k .finished with returned := max w.returned commit } since key value →
        w.Had since key value := fun _ _ _ h => h
  by_cases hcached : ∀ key value, w.cached key = some value →
      w.Had (max w.returned commit) key value
  · have hfetched : ¬ ∀ key s value, .insert key s value ∈ w.ops →
        w.Had (max w.returned commit) key value := fun h => hnot ⟨hcached, h⟩
    simp only [not_forall] at hfetched
    obtain ⟨key, since, value, hmem, hstale⟩ := hfetched
    -- the fetch that is in progress puts the old value into the cache
    obtain ⟨others, hrep⟩ := set_replaced hk .finished
    have hother : CacheOp.insert key since value ∈ others := by
      rcases hrep.mem_before.mp hmem with heq | hmem
      · cases heq
      · exact hmem
    obtain ⟨j, hj⟩ := List.mem_iff_getElem?.mp (hrep.other_mem hother)
    let replied : CacheWorld T :=
      { w.setOp k .finished with returned := max w.returned commit }
    have hj' : replied.ops[j]? = some (.insert key since value) := hj
    let filled : CacheWorld T := { replied.setOp j (.got key since value) with
      entries := Function.update replied.entries key (some (value, replied.now)) }
    have hinsert : replied.step (.run j true) = some filled := by
      rw [step, hj', Option.bind_some]
      rfl
    have hfresh : filled.cached key = some value := by
      have hnow : filled.now < replied.now + T.ttl := Nat.lt_add_of_pos_right httl
      simp only [CacheWorld.cached, filled, Function.update_self, Option.bind_some]
      rw [if_pos hnow]
    obtain ⟨v, hrun, hstale'⟩ := readsStale_of_cached hfresh fun h => hstale (hsame _ _ _ h)
    exact ⟨v, (Run.single trivial hinsert).trans hrun, hstale'⟩
  · simp only [not_forall] at hcached
    obtain ⟨key, value, hfound, hstale⟩ := hcached
    exact readsStale_of_cached hfound fun h => hstale (hsame _ key value h)

end CacheWorld
end Veronex
