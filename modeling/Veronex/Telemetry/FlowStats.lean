import Mathlib.Data.BitVec
import Veronex.Foundation.RotatingBuckets
import Veronex.Foundation.Transition

/-! # The statistics ticker

`spawn_background_tasks` (`bootstrap/background.rs`) starts two tasks that share two arrays of 60
counters and the number of the current bucket: one counts the job events it receives, the other one
empties the next bucket every second, sums the arrays and broadcasts a `FlowStats`.

A step is what a task does between two points where the other one may run: the counter reads the
number of the bucket before it takes the lock, the ticker stores the number of the new bucket before
it empties it. A log, which no task reads, has every event that was added.
-/
namespace Veronex.FlowStats
set_option autoImplicit false
open Concurrency Rotating

/-- The length of the arrays. -/
def BUCKETS : ℕ := 60

structure FlowStats where
  incoming : BitVec 32
  incoming60s : BitVec 32
  queued : BitVec 32
  running : BitVec 32
  completed : BitVec 32
  deriving DecidableEq, Repr

/-- The two arrays. -/
inductive Kind
  | incoming
  | completed
  deriving DecidableEq, Repr

/-- The array an event is counted in, by its status; the other statuses are not counted. -/
def kindOf (status : String) : Option Kind :=
  if status = "pending" then some Kind.incoming
  else if status = "completed" ∨ status = "failed" ∨ status = "cancelled" then some Kind.completed
  else none

/-! ## Pending and running jobs -/

/-- What Valkey and the database answer in one tick. -/
structure Answers where
  pending : Option ℤ
  running : Option ℤ
  /-- The rows of the count by status; `none`: the query failed. -/
  rows : Option (List (String × ℤ))
  deriving DecidableEq, Repr

/-- The last row of a status counts. -/
def rowOf (rows : List (String × ℤ)) (status : String) : ℤ :=
  rows.foldl (fun n row => if row.1 = status then row.2 else n) 0

/-- `n.max(0) as u32`. -/
def clampU32 (n : ℤ) : BitVec 32 := BitVec.ofInt 32 (max n 0)

/-- What is broadcast as queued and running, and what is written back to the two Valkey counters. -/
structure Depths where
  queued : BitVec 32
  running : BitVec 32
  setPending : Option ℤ
  setRunning : Option ℤ
  deriving DecidableEq, Repr

/-- With Valkey: the counters, every 60 ticks replaced by the counts of the database. -/
def valkeyDepths (tickCount : ℕ) (a : Answers) : Depths :=
  let p := a.pending.getD 0
  let r := a.running.getD 0
  if tickCount % 60 = 0 then
    let rows := a.rows.getD []
    let dbP := rowOf rows "pending"
    let dbR := rowOf rows "running"
    { queued := clampU32 dbP, running := clampU32 dbR,
      setPending := if dbP ≠ p then some dbP else none,
      setRunning := if dbR ≠ r then some dbR else none }
  else { queued := clampU32 p, running := clampU32 r, setPending := none, setRunning := none }

/-- Without Valkey: the counts of the database, asked for every 10 ticks and kept in between. -/
def databaseDepths (tickCount : ℕ) (a : Answers) (cached : BitVec 32 × BitVec 32) :
    BitVec 32 × BitVec 32 :=
  if tickCount % 10 = 1 then
    let rows := a.rows.getD []
    (BitVec.ofInt 32 (rowOf rows "pending"), BitVec.ofInt 32 (rowOf rows "running"))
  else cached

/-- A failed query counts as a database without jobs: the counters are set to 0. -/
theorem valkeyDepths_of_failed {tickCount : ℕ} {a : Answers} (h : tickCount % 60 = 0)
    (hfailed : a.rows = none) :
    valkeyDepths tickCount a =
      { queued := 0, running := 0,
        setPending := if a.pending.getD 0 ≠ 0 then some 0 else none,
        setRunning := if a.running.getD 0 ≠ 0 then some 0 else none } := by
  simp only [valkeyDepths, h, hfailed, if_true, Option.getD_none, rowOf, List.foldl_nil, clampU32,
    max_self, ne_comm]
  rfl

/-! ## The two tasks -/

/-- Where the ticker is within a tick. -/
inductive Phase
  | sleeping
  | rotated
  | clearedIncoming
  | cleared
  | summedIncoming (incoming incoming60s : BitVec 32)
  | summed (incoming incoming60s completed : BitVec 32)
  deriving DecidableEq, Repr

/-- An event that was added: its array, its bucket, the number of the last clear of the array before
it, and the tick it was added in. -/
structure Added extends Entry where
  kind : Kind
  tick : ℕ
  deriving DecidableEq, Repr

/-- A broadcast, with the tick it was made in. -/
structure Sent where
  tick : ℕ
  stats : FlowStats
  deriving DecidableEq, Repr

structure State where
  tickCount : ℕ
  bucketIdx : ℕ
  incoming : ℕ → BitVec 32
  completed : ℕ → BitVec 32
  phase : Phase
  /-- The bucket and the array of an event that was received and is not added yet. -/
  received : Option (ℕ × Kind)
  cached : BitVec 32 × BitVec 32
  log : List Added
  sent : List Sent

def start : State where
  tickCount := 0
  bucketIdx := 0
  incoming := fun _ => 0
  completed := fun _ => 0
  phase := Phase.sleeping
  received := none
  cached := (0, 0)
  log := []
  sent := []

inductive Act
  | receive (status : String)
  | add
  | tick
  | clearIncoming
  | clearCompleted
  | sumIncoming
  | sumCompleted
  /-- `valkey`: a pool is configured. -/
  | send (valkey : Bool) (answers : Answers)
  deriving DecidableEq, Repr

/-- The number of the last clear of an array: the ticker empties the arrays one after the other. -/
def clears (s : State) : Kind → ℕ
  | Kind.incoming => if s.phase = Phase.rotated then s.tickCount - 1 else s.tickCount
  | Kind.completed =>
    if s.phase = Phase.rotated ∨ s.phase = Phase.clearedIncoming then s.tickCount - 1
    else s.tickCount

/-- The sum of the 10 buckets before the current one. -/
def sumTen (newIdx : ℕ) (b : ℕ → BitVec 32) : BitVec 32 :=
  ∑ i ∈ Finset.range BUCKETS,
    if 0 < (newIdx + BUCKETS - i) % BUCKETS ∧ (newIdx + BUCKETS - i) % BUCKETS ≤ 10 then b i else 0

/-- The sum of all buckets. -/
def sumAll (b : ℕ → BitVec 32) : BitVec 32 := ∑ i ∈ Finset.range BUCKETS, b i

/-- `b[i] += 1` in the array of the kind. -/
def bump (s : State) (k : Kind) (i : ℕ) : State :=
  match k with
  | Kind.incoming => { s with incoming := Function.update s.incoming i (s.incoming i + 1) }
  | Kind.completed => { s with completed := Function.update s.completed i (s.completed i + 1) }

def step (s : State) : Act → Option State
  | Act.receive status =>
    if s.received = none then
      some { s with received := (kindOf status).map fun k => (s.bucketIdx % BUCKETS, k) }
    else none
  | Act.add =>
    match s.received with
    | none => none
    | some (i, k) =>
      some { bump s k i with
        received := none
        log := s.log ++ [{ slot := i, cleared := clears s k, kind := k, tick := s.tickCount }] }
  | Act.tick =>
    if s.phase = Phase.sleeping then
      some { s with
        tickCount := s.tickCount + 1
        bucketIdx := (s.tickCount + 1) % BUCKETS
        phase := Phase.rotated }
    else none
  | Act.clearIncoming =>
    if s.phase = Phase.rotated then
      some { s with
        incoming := Function.update s.incoming s.bucketIdx 0
        phase := Phase.clearedIncoming }
    else none
  | Act.clearCompleted =>
    if s.phase = Phase.clearedIncoming then
      some { s with
        completed := Function.update s.completed s.bucketIdx 0
        phase := Phase.cleared }
    else none
  | Act.sumIncoming =>
    if s.phase = Phase.cleared then
      some { s with
        phase := Phase.summedIncoming (sumTen s.bucketIdx s.incoming) (sumAll s.incoming) }
    else none
  | Act.sumCompleted =>
    match s.phase with
    | Phase.summedIncoming i i60 => some { s with phase := Phase.summed i i60 (sumAll s.completed) }
    | _ => none
  | Act.send valkey answers =>
    match s.phase with
    | Phase.summed i i60 c =>
      let cached := if valkey then s.cached else databaseDepths s.tickCount answers s.cached
      let depths := valkeyDepths s.tickCount answers
      let stats : FlowStats :=
        { incoming := i
          incoming60s := i60
          queued := if valkey then depths.queued else cached.1
          running := if valkey then depths.running else cached.2
          completed := c }
      some { s with
        phase := Phase.sleeping
        cached := cached
        sent := s.sent ++ [⟨s.tickCount, stats⟩] }
    | _ => none

/-! ## Windows -/

/-- The number of events of a kind that were added in the ticks from `first` to `last`. -/
def addedIn (log : List Added) (k : Kind) (first last : ℕ) : ℕ :=
  log.countP fun a => a.kind = k ∧ first ≤ a.tick ∧ a.tick ≤ last

/-- No broadcast counts an event that is older than its window or counts one twice. -/
structure Sent.AtMost (x : Sent) (log : List Added) : Prop where
  incoming : x.stats.incoming.toNat ≤ addedIn log Kind.incoming (x.tick - 10) x.tick
  incoming60s : x.stats.incoming60s.toNat ≤ addedIn log Kind.incoming (x.tick - 59) x.tick
  completed : x.stats.completed.toNat ≤ addedIn log Kind.completed (x.tick - 59) x.tick

/-- A broadcast counts the 10 ticks before its own, and of the last minute the 59 ticks before its
own and what its own tick has added so far. -/
structure Sent.Exact (x : Sent) (log : List Added) : Prop where
  incoming : x.stats.incoming =
    BitVec.ofNat 32 (addedIn log Kind.incoming (x.tick - 10) (x.tick - 1))
  incoming60s : ∃ n ≤ addedIn log Kind.incoming x.tick x.tick,
    x.stats.incoming60s =
      BitVec.ofNat 32 (addedIn log Kind.incoming (x.tick - 59) (x.tick - 1) + n)
  completed : ∃ n ≤ addedIn log Kind.completed x.tick x.tick,
    x.stats.completed =
      BitVec.ofNat 32 (addedIn log Kind.completed (x.tick - 59) (x.tick - 1) + n)

/-- No event is added between the store of a new bucket number and the clear of that bucket, and none
waits over a tick. -/
def Undisturbed (s : State) : Act → Prop
  | Act.add => ∀ i k, s.received = some (i, k) → i = s.tickCount % BUCKETS ∧ clears s k = s.tickCount
  | _ => True

/-! ## What the buckets hold -/

def slots (s : State) : Kind → ℕ → BitVec 32
  | Kind.incoming => s.incoming
  | Kind.completed => s.completed

/-- The events of one array, as its buckets know them. -/
def entries (log : List Added) (k : Kind) : List Entry :=
  (log.filter fun a => a.kind = k).map Added.toEntry

theorem entries_append (log new : List Added) (k : Kind) :
    entries (log ++ new) k = entries log k ++ entries new k := by
  simp [entries]

theorem countP_entries (log : List Added) (k : Kind) (p : Entry → Prop) [DecidablePred p] :
    (entries log k).countP (fun e => p e) = log.countP fun a => a.kind = k ∧ p a.toEntry := by
  rw [entries, List.countP_map, List.countP_filter]
  refine List.countP_congr fun a _ => ?_
  simp [and_comm]

theorem addedIn_append (log new : List Added) (k : Kind) (first last : ℕ) :
    addedIn (log ++ new) k first last = addedIn log k first last + addedIn new k first last :=
  List.countP_append

/-- What the two tasks keep in every interleaving. -/
structure Inv (s : State) : Prop where
  bucketIdx : s.bucketIdx = s.tickCount % BUCKETS
  ticked : s.phase ≠ Phase.sleeping → 0 < s.tickCount
  received : ∀ i k, s.received = some (i, k) → i < BUCKETS
  counted : ∀ k, Counted BUCKETS (clears s k) (slots s k) (entries s.log k)
  logged : ∀ a ∈ s.log, a.cleared ≤ a.tick ∧ a.tick ≤ s.tickCount

theorem inv_start : Inv start where
  bucketIdx := rfl
  ticked h := absurd rfl h
  received i k h := nomatch h
  counted k := by
    cases k with
    | incoming => exact Counted.start BUCKETS
    | completed => exact Counted.start BUCKETS
  logged a ha := by simp [start] at ha

theorem clears_le (s : State) (k : Kind) : clears s k ≤ s.tickCount := by
  cases k with
  | incoming =>
    simp only [clears]
    split
    · exact Nat.sub_le _ _
    · exact le_refl _
  | completed =>
    simp only [clears]
    split
    · exact Nat.sub_le _ _
    · exact le_refl _

/-- A step that leaves the arrays and the log alone and moves neither ticker. -/
theorem Inv.of_same {s t : State} (h : Inv s) (hidx : t.bucketIdx = s.bucketIdx)
    (htick : t.tickCount = s.tickCount) (hphase : t.phase ≠ Phase.sleeping → s.phase ≠ Phase.sleeping)
    (hreceived : ∀ i k, t.received = some (i, k) → i < BUCKETS)
    (hslots : slots t = slots s) (hclears : clears t = clears s) (hlog : t.log = s.log) : Inv t where
  bucketIdx := by rw [hidx, htick, h.bucketIdx]
  ticked hp := by rw [htick]; exact h.ticked (hphase hp)
  received := hreceived
  counted k := by rw [hslots, hclears, hlog]; exact h.counted k
  logged a ha := by rw [htick]; rw [hlog] at ha; exact h.logged a ha

theorem slots_bump (s : State) (k j : Kind) (i : ℕ) :
    slots (bump s k i) j =
      if j = k then Function.update (slots s j) i (slots s j i + 1) else slots s j := by
  cases k with
  | incoming => cases j <;> rfl
  | completed => cases j <;> rfl

/-- Steps of one task never undo what the other one relies on. -/
theorem Inv.step {s t : State} {a : Act} (h : Inv s) (hs : step s a = some t) : Inv t := by
  cases a with
  | receive status =>
    simp only [FlowStats.step] at hs
    split at hs
    · cases hs
      refine h.of_same rfl rfl id (fun i k hk => ?_) rfl rfl rfl
      cases hkind : kindOf status with
      | none => simp [hkind] at hk
      | some k' =>
        simp only [hkind, Option.map_some, Option.some.injEq, Prod.mk.injEq] at hk
        rw [← hk.1]
        exact Nat.mod_lt _ (by decide)
    · cases hs
  | add =>
    simp only [FlowStats.step] at hs
    split at hs
    · cases hs
    · next i k hreceived =>
      cases hs
      have hi := h.received i k hreceived
      have hphase : (bump s k i).phase = s.phase := by cases k <;> rfl
      have htick : (bump s k i).tickCount = s.tickCount := by cases k <;> rfl
      have hidx : (bump s k i).bucketIdx = s.bucketIdx := by cases k <;> rfl
      refine ⟨?_, ?_, ?_, ?_, ?_⟩
      · show (bump s k i).bucketIdx = (bump s k i).tickCount % BUCKETS
        rw [hidx, htick, h.bucketIdx]
      · show (bump s k i).phase ≠ Phase.sleeping → 0 < (bump s k i).tickCount
        rw [hphase, htick]
        exact h.ticked
      · intro i' k' hnone
        exact absurd hnone (by simp)
      · intro j
        have hclears : clears { bump s k i with
            received := none
            log := s.log ++ [{ slot := i, cleared := clears s k, kind := k, tick := s.tickCount }] } j =
            clears s j := by
          cases j <;> simp only [clears, hphase, htick]
        have hslots : slots { bump s k i with
            received := none
            log := s.log ++ [{ slot := i, cleared := clears s k, kind := k, tick := s.tickCount }] } j =
            slots (bump s k i) j := by
          cases j <;> rfl
        rw [hclears, hslots, slots_bump, entries_append]
        by_cases hj : j = k
        · subst hj
          rw [if_pos rfl]
          have hnew := (h.counted j).add hi
          simpa [entries] using hnew
        · have hkj : k ≠ j := fun heq => hj heq.symm
          rw [if_neg hj]
          simpa [entries, hkj] using h.counted j
      · intro b hb
        rw [List.mem_append, List.mem_singleton] at hb
        show b.cleared ≤ b.tick ∧ b.tick ≤ (bump s k i).tickCount
        rw [htick]
        rcases hb with hb | rfl
        · exact h.logged b hb
        · exact ⟨clears_le s k, le_refl _⟩
  | tick =>
    simp only [FlowStats.step] at hs
    split at hs
    · next hphase =>
      cases hs
      refine ⟨rfl, fun _ => Nat.succ_pos _, h.received, fun k => ?_, fun b hb => ?_⟩
      · have hcounted := h.counted k
        cases k with
        | incoming => simpa [clears, slots, hphase] using hcounted
        | completed => simpa [clears, slots, hphase] using hcounted
      · have hlogged := h.logged b hb
        exact ⟨hlogged.1, by show b.tick ≤ s.tickCount + 1; omega⟩
    · cases hs
  | clearIncoming =>
    simp only [FlowStats.step] at hs
    split at hs
    · next hphase =>
      cases hs
      have hpos : 0 < s.tickCount := h.ticked (by simp [hphase])
      refine ⟨h.bucketIdx, fun _ => hpos, h.received, fun k => ?_, h.logged⟩
      have hcounted := h.counted k
      cases k with
      | incoming =>
        have hlast : clears s Kind.incoming + 1 = s.tickCount := by
          simp only [clears, hphase, if_true]
          omega
        have hclear := hcounted.clear (by decide)
        rw [hlast, ← h.bucketIdx] at hclear
        simpa [clears, slots] using hclear
      | completed => simpa [clears, slots, hphase] using hcounted
    · cases hs
  | clearCompleted =>
    simp only [FlowStats.step] at hs
    split at hs
    · next hphase =>
      cases hs
      have hpos : 0 < s.tickCount := h.ticked (by simp [hphase])
      refine ⟨h.bucketIdx, fun _ => hpos, h.received, fun k => ?_, h.logged⟩
      have hcounted := h.counted k
      cases k with
      | incoming => simpa [clears, slots, hphase] using hcounted
      | completed =>
        have hlast : clears s Kind.completed + 1 = s.tickCount := by
          simp only [clears, hphase, or_true, if_true]
          omega
        have hclear := hcounted.clear (by decide)
        rw [hlast, ← h.bucketIdx] at hclear
        simpa [clears, slots] using hclear
    · cases hs
  | sumIncoming =>
    simp only [FlowStats.step] at hs
    split at hs
    · next hphase =>
      cases hs
      refine h.of_same rfl rfl (fun _ => by simp [hphase]) h.received rfl (funext fun k => ?_) rfl
      cases k <;> simp [clears, hphase]
    · cases hs
  | sumCompleted =>
    simp only [FlowStats.step] at hs
    split at hs
    · next i i60 hphase =>
      cases hs
      refine h.of_same rfl rfl (fun _ => by simp [hphase]) h.received rfl (funext fun k => ?_) rfl
      cases k <;> simp [clears, hphase]
    · cases hs
  | send valkey answers =>
    simp only [FlowStats.step] at hs
    split at hs
    · next i i60 c hphase =>
      cases hs
      refine h.of_same rfl rfl (fun hp => absurd rfl hp) h.received rfl (funext fun k => ?_) rfl
      cases k <;> simp [clears, hphase]
    · cases hs

section Sums
variable {s : State}

/-- The sum of the last ten buckets is the number of their events that are left. -/
theorem Inv.sumTen (h : Inv s) (hclears : clears s Kind.incoming = s.tickCount) :
    FlowStats.sumTen s.bucketIdx s.incoming =
      BitVec.ofNat 32 (s.log.countP fun a => a.kind = Kind.incoming ∧
        (0 < age BUCKETS s.tickCount a.slot ∧ age BUCKETS s.tickCount a.slot ≤ 10) ∧
          Live BUCKETS s.tickCount a.toEntry) := by
  have hcounted := h.counted Kind.incoming
  rw [hclears] at hcounted
  have hsum := hcounted.sum fun g => 0 < g ∧ g ≤ 10
  rw [countP_entries s.log Kind.incoming fun e =>
    (0 < age BUCKETS s.tickCount e.slot ∧ age BUCKETS s.tickCount e.slot ≤ 10) ∧
      Live BUCKETS s.tickCount e] at hsum
  rw [FlowStats.sumTen, h.bucketIdx]
  exact hsum

theorem Inv.sumAll (h : Inv s) (k : Kind) (hclears : clears s k = s.tickCount) :
    FlowStats.sumAll (slots s k) =
      BitVec.ofNat 32 (s.log.countP fun a => a.kind = k ∧ Live BUCKETS s.tickCount a.toEntry) := by
  have hcounted := h.counted k
  rw [hclears] at hcounted
  have hsum := hcounted.sum fun _ => True
  simp only [if_true, true_and] at hsum
  rw [countP_entries s.log k fun e => Live BUCKETS s.tickCount e] at hsum
  exact hsum

end Sums

/-! ## From the sums to the broadcasts -/

/-- What holds of the sums a tick has taken so far. -/
def Phase.Holds (P : BitVec 32 → BitVec 32 → Prop) (Q : BitVec 32 → Prop) : Phase → Prop
  | Phase.summedIncoming i i60 => P i i60
  | Phase.summed i i60 c => P i i60 ∧ Q c
  | _ => True

/-- What holds of every sum when it is taken, and of a sum of the past when events are added, holds of
every broadcast of a run. -/
theorem sent_of_sums {ok : State → Act → Prop}
    {P : List Added → ℕ → BitVec 32 → BitVec 32 → Prop} {Q : List Added → ℕ → BitVec 32 → Prop}
    (hP : ∀ log a n i i60, 0 < n → n ≤ a.tick → P log n i i60 → P (log ++ [a]) n i i60)
    (hQ : ∀ log a n c, 0 < n → n ≤ a.tick → Q log n c → Q (log ++ [a]) n c)
    (hsumP : ∀ s, Run step ok start s → s.phase = Phase.cleared →
      P s.log s.tickCount (sumTen s.bucketIdx s.incoming) (sumAll s.incoming))
    (hsumQ : ∀ s i i60, Run step ok start s → s.phase = Phase.summedIncoming i i60 →
      Q s.log s.tickCount (sumAll s.completed)) {s : State} (h : Run step ok start s) :
    ∀ x ∈ s.sent, P s.log x.tick x.stats.incoming x.stats.incoming60s ∧
      Q s.log x.tick x.stats.completed := by
  have hinv : ∀ s, Run step ok start s → Inv s := fun s h =>
    h.invariant inv_start fun _ _ _ _ hi _ hs => hi.step hs
  have hall : s.phase.Holds (P s.log s.tickCount) (Q s.log s.tickCount) ∧
      ∀ x ∈ s.sent, (0 < x.tick ∧ x.tick ≤ s.tickCount) ∧
        P s.log x.tick x.stats.incoming x.stats.incoming60s ∧ Q s.log x.tick x.stats.completed := by
    refine h.invariant (I := fun s => s.phase.Holds (P s.log s.tickCount) (Q s.log s.tickCount) ∧
      ∀ x ∈ s.sent, (0 < x.tick ∧ x.tick ≤ s.tickCount) ∧
        P s.log x.tick x.stats.incoming x.stats.incoming60s ∧ Q s.log x.tick x.stats.completed)
      ⟨trivial, fun x hx => by simp [start] at hx⟩ fun t u a hrun hi _ hs => ?_
    obtain ⟨hphase, hsent⟩ := hi
    have hticked := (hinv t hrun).ticked
    cases a with
    | receive status =>
      simp only [step] at hs
      split at hs
      · cases hs
        exact ⟨hphase, hsent⟩
      · cases hs
    | add =>
      simp only [step] at hs
      split at hs
      · cases hs
      · next i k _ =>
        cases hs
        have hp : (bump t k i).phase = t.phase := by cases k <;> rfl
        have hn : (bump t k i).tickCount = t.tickCount := by cases k <;> rfl
        have hx : (bump t k i).sent = t.sent := by cases k <;> rfl
        refine ⟨?_, fun x hmem => ?_⟩
        · simp only [hp, hn]
          cases hcase : t.phase with
          | summedIncoming j j60 =>
            rw [hcase] at hphase
            exact hP _ _ _ _ _ (hticked (by simp [hcase])) (le_refl _) hphase
          | summed j j60 c =>
            rw [hcase] at hphase
            have hpos := hticked (by simp [hcase])
            exact ⟨hP _ _ _ _ _ hpos (le_refl _) hphase.1, hQ _ _ _ _ hpos (le_refl _) hphase.2⟩
          | _ => trivial
        · simp only [hx] at hmem
          obtain ⟨⟨hpos, hle⟩, hxP, hxQ⟩ := hsent x hmem
          simp only [hn]
          exact ⟨⟨hpos, hle⟩, hP _ _ _ _ _ hpos hle hxP, hQ _ _ _ _ hpos hle hxQ⟩
    | tick =>
      simp only [step] at hs
      split at hs
      · cases hs
        refine ⟨trivial, fun x hx => ?_⟩
        obtain ⟨⟨hpos, hle⟩, hrest⟩ := hsent x hx
        exact ⟨⟨hpos, Nat.le_succ_of_le hle⟩, hrest⟩
      · cases hs
    | clearIncoming =>
      simp only [step] at hs
      split at hs
      · cases hs
        exact ⟨trivial, hsent⟩
      · cases hs
    | clearCompleted =>
      simp only [step] at hs
      split at hs
      · cases hs
        exact ⟨trivial, hsent⟩
      · cases hs
    | sumIncoming =>
      simp only [step] at hs
      split at hs
      · next hcleared =>
        cases hs
        exact ⟨hsumP t hrun hcleared, hsent⟩
      · cases hs
    | sumCompleted =>
      simp only [step] at hs
      split at hs
      · next i i60 hsummed =>
        cases hs
        rw [hsummed] at hphase
        exact ⟨⟨hphase, hsumQ t i i60 hrun hsummed⟩, hsent⟩
      · cases hs
    | send valkey answers =>
      simp only [step] at hs
      split at hs
      · next i i60 c hsummed =>
        cases hs
        rw [hsummed] at hphase
        refine ⟨trivial, fun x hx => ?_⟩
        rw [List.mem_append, List.mem_singleton] at hx
        rcases hx with hx | rfl
        · exact hsent x hx
        · exact ⟨⟨hticked (by simp [hsummed]), le_refl _⟩, hphase⟩
      · cases hs
  exact fun x hx => (hall.2 x hx).2

/-- In every interleaving of the counter and the ticker. -/
theorem sent_atMost {s : State} (h : Run step (fun _ _ => True) start s) :
    ∀ x ∈ s.sent, x.AtMost s.log := by
  have hinv : ∀ s, Run step (fun _ _ => True) start s → Inv s := fun s h =>
    h.invariant inv_start fun _ _ _ _ hi _ hs => hi.step hs
  have hgrow : ∀ (log : List Added) a k first n,
      addedIn log k first n ≤ addedIn (log ++ [a]) k first n := by
    intro log a k first n
    rw [addedIn_append]
    exact Nat.le_add_right _ _
  -- a sum of 60 buckets finds nothing older than its window
  have hrecent : ∀ s, Inv s → ∀ k, (s.log.countP fun a => a.kind = k ∧
      Live BUCKETS s.tickCount a.toEntry) ≤ addedIn s.log k (s.tickCount - 59) s.tickCount := by
    intro s hi k
    refine List.countP_mono_left fun a ha hlive => ?_
    simp only [decide_eq_true_eq] at hlive ⊢
    have hlogged := hi.logged a ha
    have hlt : s.tickCount < a.cleared + BUCKETS := hlive.2.recent (by decide)
    unfold BUCKETS at hlt
    exact ⟨hlive.1, by omega, hlogged.2⟩
  have hsent := sent_of_sums
    (P := fun log n i i60 => i.toNat ≤ addedIn log Kind.incoming (n - 10) n ∧
      i60.toNat ≤ addedIn log Kind.incoming (n - 59) n)
    (Q := fun log n c => c.toNat ≤ addedIn log Kind.completed (n - 59) n)
    (fun log a n i i60 _ _ hp => ⟨hp.1.trans (hgrow ..), hp.2.trans (hgrow ..)⟩)
    (fun log a n c _ _ hq => hq.trans (hgrow ..))
    (fun s hrun hphase => by
      have hi := hinv s hrun
      have hclears : clears s Kind.incoming = s.tickCount := by simp [clears, hphase]
      refine ⟨?_, ?_⟩
      · rw [hi.sumTen hclears, BitVec.toNat_ofNat]
        refine (Nat.mod_le _ _).trans (List.countP_mono_left fun a ha hlive => ?_)
        simp only [decide_eq_true_eq] at hlive ⊢
        obtain ⟨hkind, ⟨-, hage⟩, hle⟩ := hlive
        have hlogged := hi.logged a ha
        unfold Live at hle
        exact ⟨hkind, by omega, hlogged.2⟩
      · have hsum := hi.sumAll Kind.incoming hclears
        simp only [slots] at hsum
        rw [hsum, BitVec.toNat_ofNat]
        exact (Nat.mod_le _ _).trans (hrecent s hi Kind.incoming))
    (fun s i i60 hrun hphase => by
      have hi := hinv s hrun
      have hclears : clears s Kind.completed = s.tickCount := by simp [clears, hphase]
      have hsum := hi.sumAll Kind.completed hclears
      simp only [slots] at hsum
      rw [hsum, BitVec.toNat_ofNat]
      exact (Nat.mod_le _ _).trans (hrecent s hi Kind.completed)) h
  intro x hx
  obtain ⟨⟨hten, hminute⟩, hdone⟩ := hsent x hx
  exact ⟨hten, hminute, hdone⟩

/-! ## Undisturbed ticks -/

/-- The event was added to the bucket of its tick, after the clear of that bucket. -/
def Added.Regular (a : Added) : Prop := a.slot = a.tick % BUCKETS ∧ a.cleared = a.tick

theorem regular_of_undisturbed {s : State} (h : Run step Undisturbed start s) :
    ∀ a ∈ s.log, a.Regular := by
  refine h.invariant (I := fun s => ∀ a ∈ s.log, a.Regular) (fun a ha => by simp [start] at ha)
    fun t u a _ hi hok hs => ?_
  cases a with
  | add =>
    simp only [step] at hs
    split at hs
    · cases hs
    · next i k hreceived =>
      cases hs
      intro b hb
      rw [List.mem_append, List.mem_singleton] at hb
      rcases hb with hb | rfl
      · exact hi b hb
      · exact hok i k hreceived
  | _ =>
    simp only [step] at hs
    split at hs
    · cases hs
      exact hi
    · cases hs

section Regular
variable {a : Added} {n : ℕ}

/-- A regular event is left for 60 ticks; its age is the number of ticks since. -/
theorem Added.Regular.live_iff (h : a.Regular) (hle : a.tick ≤ n) :
    Live BUCKETS n a.toEntry ↔ n < a.tick + BUCKETS := by
  constructor
  · intro hlive
    have hlt : n < a.cleared + BUCKETS := hlive.recent (by decide)
    rwa [h.2] at hlt
  · intro hlt
    have hage : age BUCKETS n (a.tick % BUCKETS) = n - a.tick := age_of_le (by decide) hle hlt
    unfold Live
    rw [h.1, h.2, hage]
    omega

theorem Added.Regular.age_eq (h : a.Regular) (hle : a.tick ≤ n) (hlt : n < a.tick + BUCKETS) :
    age BUCKETS n a.slot = n - a.tick := by
  rw [h.1]
  exact age_of_le (by decide) hle hlt

end Regular

theorem addedIn_split (log : List Added) (k : Kind) (n : ℕ) (hn : 0 < n) :
    addedIn log k (n - 59) n = addedIn log k (n - 59) (n - 1) + addedIn log k n n := by
  unfold addedIn
  induction log with
  | nil => rfl
  | cons a log ih =>
    simp only [List.countP_cons, ih, decide_eq_true_eq]
    by_cases hkind : a.kind = k
    · simp only [hkind, true_and]
      split <;> split <;> split <;> omega
    · simp [hkind]

/-- If no event is added while its bucket is being rotated, every broadcast counts exactly its
windows. -/
theorem sent_exact {s : State} (h : Run step Undisturbed start s) : ∀ x ∈ s.sent, x.Exact s.log := by
  have hinv : ∀ s, Run step Undisturbed start s → Inv s := fun s h =>
    h.invariant inv_start fun _ _ _ _ hi _ hs => hi.step hs
  have hpast : ∀ (log : List Added) (a : Added) k first n, 0 < n → n ≤ a.tick →
      addedIn (log ++ [a]) k first (n - 1) = addedIn log k first (n - 1) := by
    intro log a k first n hpos hle
    have hnone : addedIn [a] k first (n - 1) = 0 := by
      refine List.countP_eq_zero.mpr fun b hb => ?_
      rw [List.mem_singleton] at hb
      simp only [hb, decide_eq_true_eq]
      omega
    rw [addedIn_append, hnone, Nat.add_zero]
  have hgrow : ∀ (log : List Added) a k n, addedIn log k n n ≤ addedIn (log ++ [a]) k n n := by
    intro log a k n
    rw [addedIn_append]
    exact Nat.le_add_right _ _
  have hminute : ∀ s, Run step Undisturbed start s → 0 < s.tickCount → ∀ k,
      clears s k = s.tickCount → ∃ n ≤ addedIn s.log k s.tickCount s.tickCount,
        sumAll (slots s k) =
          BitVec.ofNat 32 (addedIn s.log k (s.tickCount - 59) (s.tickCount - 1) + n) := by
    intro s hrun hpos k hclears
    refine ⟨_, le_refl _, ?_⟩
    rw [(hinv s hrun).sumAll k hclears, ← addedIn_split s.log k s.tickCount hpos]
    congr 1
    refine List.countP_congr fun a ha => ?_
    have hregular := regular_of_undisturbed hrun a ha
    have hle := ((hinv s hrun).logged a ha).2
    simp only [decide_eq_true_eq, hregular.live_iff hle]
    unfold BUCKETS
    constructor
    · rintro ⟨hkind, hlt⟩
      exact ⟨hkind, by omega, hle⟩
    · rintro ⟨hkind, hge, -⟩
      exact ⟨hkind, by omega⟩
  have hsent := sent_of_sums
    (P := fun log n i i60 =>
      i = BitVec.ofNat 32 (addedIn log Kind.incoming (n - 10) (n - 1)) ∧
      ∃ m ≤ addedIn log Kind.incoming n n,
        i60 = BitVec.ofNat 32 (addedIn log Kind.incoming (n - 59) (n - 1) + m))
    (Q := fun log n c => ∃ m ≤ addedIn log Kind.completed n n,
      c = BitVec.ofNat 32 (addedIn log Kind.completed (n - 59) (n - 1) + m))
    (fun log a n i i60 hpos hle hp => by
      obtain ⟨hten, m, hm, hall⟩ := hp
      simp only [hpast log a _ _ n hpos hle]
      exact ⟨hten, m, hm.trans (hgrow ..), hall⟩)
    (fun log a n c hpos hle hq => by
      obtain ⟨m, hm, hall⟩ := hq
      simp only [hpast log a _ _ n hpos hle]
      exact ⟨m, hm.trans (hgrow ..), hall⟩)
    (fun s hrun hphase => by
      have hi := hinv s hrun
      have hpos : 0 < s.tickCount := hi.ticked (by simp [hphase])
      have hclears : clears s Kind.incoming = s.tickCount := by simp [clears, hphase]
      refine ⟨?_, hminute s hrun hpos Kind.incoming hclears⟩
      rw [hi.sumTen hclears]
      congr 1
      refine List.countP_congr fun a ha => ?_
      have hregular := regular_of_undisturbed hrun a ha
      have hle := (hi.logged a ha).2
      simp only [decide_eq_true_eq, hregular.live_iff hle]
      constructor
      · rintro ⟨hkind, ⟨hage, hten⟩, hlt⟩
        rw [hregular.age_eq hle hlt] at hage hten
        exact ⟨hkind, by omega, by omega⟩
      · rintro ⟨hkind, hge, hbefore⟩
        have hlt : s.tickCount < a.tick + BUCKETS := by
          unfold BUCKETS
          omega
        rw [hregular.age_eq hle hlt]
        exact ⟨hkind, by omega, hlt⟩)
    (fun s i i60 hrun hphase => by
      have hi := hinv s hrun
      have hpos : 0 < s.tickCount := hi.ticked (by simp [hphase])
      have hclears : clears s Kind.completed = s.tickCount := by simp [clears, hphase]
      exact hminute s hrun hpos Kind.completed hclears) h
  intro x hx
  obtain ⟨⟨hten, hall⟩, hdone⟩ := hsent x hx
  exact ⟨hten, hall, hdone⟩

/-- In every interleaving no broadcast counts too much; without an event between the store of a bucket
number and its clear every broadcast counts exactly its windows. -/
theorem broadcasts_count_windows :
    (∀ s, Run step (fun _ _ => True) start s → ∀ x ∈ s.sent, x.AtMost s.log) ∧
      ∀ s, Run step Undisturbed start s → ∀ x ∈ s.sent, x.Exact s.log :=
  ⟨fun _ h => sent_atMost h, fun _ h => sent_exact h⟩

/-- The steps of one tick. -/
def tickActs : List Act :=
  [Act.tick, Act.clearIncoming, Act.clearCompleted, Act.sumIncoming, Act.sumCompleted,
    Act.send true ⟨some 1, some 0, none⟩]

/-- Two jobs are submitted, one of them is completed in the next tick. -/
def undisturbedActs : List Act :=
  [Act.receive "pending", Act.add, Act.receive "pending", Act.add] ++ tickActs ++
    [Act.receive "completed", Act.add] ++ tickActs

instance (s : State) (a : Act) : Decidable (Undisturbed s a) :=
  match a, h : s.received with
  | Act.add, some (i, k) =>
    decidable_of_iff (i = s.tickCount % BUCKETS ∧ clears s k = s.tickCount)
      ⟨fun hik j l hjl => by
        rw [h] at hjl
        cases hjl
        exact hik, fun hadd => hadd i k h⟩
  | Act.add, none => isTrue fun i k hik => by rw [h] at hik; cases hik
  | Act.receive _, _ => isTrue trivial
  | Act.tick, _ => isTrue trivial
  | Act.clearIncoming, _ => isTrue trivial
  | Act.clearCompleted, _ => isTrue trivial
  | Act.sumIncoming, _ => isTrue trivial
  | Act.sumCompleted, _ => isTrue trivial
  | Act.send _ _, _ => isTrue trivial

theorem two_ticks_counted :
    ∃ s, Run step Undisturbed start s ∧ (s.sent.map fun x => x.stats.incoming60s) = [2, 2] ∧
      (∀ x ∈ s.sent, x.AtMost s.log) ∧ ∀ x ∈ s.sent, x.Exact s.log := by
  have hexec : ((exec step (fun s a => decide (Undisturbed s a)) start undisturbedActs).any fun s =>
      decide ((s.sent.map fun x => x.stats.incoming60s) = [2, 2])) = true := by
    decide +kernel
  obtain ⟨s, hrun, hs⟩ := Run.exists_of_exec (fun _ _ h => of_decide_eq_true h) hexec
  have hall : Run step (fun _ _ => True) start s := hrun.mono fun _ _ _ => trivial
  exact ⟨s, hrun, of_decide_eq_true hs, broadcasts_count_windows.1 s hall,
    broadcasts_count_windows.2 s hrun⟩

end Veronex.FlowStats
