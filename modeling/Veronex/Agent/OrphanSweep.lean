import Veronex.Agent.Shard
import Veronex.Domain.Values
import Veronex.Foundation.Pool
import Veronex.Foundation.Transition
import Mathlib.Logic.Function.Basic

/-! # Sweeps for gateways that are gone

`sweep_once` and the keys of `cleanup_instance` of `veronex-agent/src/orphan_sweeper.rs`. Each
command is a step of its agent, and those of different agents interleave. A command may fail to
reach Valkey, or its reply to reach the agent. The leader sweep works on the database only.

`seen`, `lapsed` and `reaps` are kept for the statements: when a sweep last asked for a heartbeat
that was there, whether one ever asked for a heartbeat that was not, and what was reaped.
-/
namespace Veronex.Agent
set_option autoImplicit false
open Concurrency

def SUSPECT_TTL_SECS : ℕ := 180

def SUSPECT_CONFIRM_THRESHOLD : ℕ := 60

def REAPED_TTL_SECS : ℕ := 86400

def INSTANCE_HEARTBEAT_TTL_SECS : ℕ := 30

/-- The grace period. -/
def GRACE_MS : Millis := (SUSPECT_TTL_SECS - SUSPECT_CONFIRM_THRESHOLD) * 1000

inductive SweepPc
  | idle
  | heartbeat (id : String) (todo : List String)
  /-- `DEL` of the marker of an instance that is alive. -/
  | clear (id : String) (todo : List String)
  /-- `TTL` of the marker. -/
  | suspect (id : String) (todo : List String)
  | mark (id : String) (todo : List String)
  | claim (id : String) (todo : List String)
  /-- The last two commands of `cleanup_instance`. -/
  | remove (id : String) (todo : List String)
  | unmark (id : String) (todo : List String)
  deriving DecidableEq

namespace SweepPc

/-- The loop goes on with the next instance. -/
def next : List String → SweepPc
  | [] => .idle
  | id :: todo => .heartbeat id todo

def clears (id : String) : SweepPc → Bool
  | .clear id' _ => decide (id' = id)
  | _ => false

def claims (id : String) : SweepPc → Bool
  | .claim id' _ => decide (id' = id)
  | _ => false

/-- The sweep takes the heartbeat of the instance for missing. -/
def misses (id : String) : SweepPc → Bool
  | .suspect id' _ | .mark id' _ | .claim id' _ => decide (id' = id)
  | _ => false

end SweepPc

structure SweepAgent where
  ordinal : ℕ
  replicas : ℕ
  pc : SweepPc

/-- An instance was reaped at `time`. -/
structure Reap where
  id : String
  time : Millis
  seen : Option Millis
  lapsed : Bool
  deriving DecidableEq

structure SweepWorld where
  now : Millis
  /-- `veronex:instances`. -/
  instances : List String
  /-- When the keys of an instance expire. -/
  heartbeat : String → Option Millis
  suspect : String → Option Millis
  reaped : String → Option Millis
  agents : List SweepAgent
  seen : String → Option Millis
  lapsed : String → Bool
  reaps : List Reap

inductive SweepAction
  | start (ordinal replicas : ℕ)
  | crash (k : ℕ)
  /-- `SMEMBERS`. -/
  | sweep (k : ℕ)
  /-- The next command of an agent. -/
  | run (k : ℕ) (done replied : Bool)
  /-- The commands of `refresh_heartbeat`, and of a gateway that shuts down. -/
  | beat (id : String)
  | register (id : String)
  | deregister (id : String)
  | stopBeat (id : String)
  | tick (ms : Millis)

namespace SweepWorld

def init : SweepWorld :=
  { now := 0, instances := [], heartbeat := fun _ => none, suspect := fun _ => none
    reaped := fun _ => none, agents := [], seen := fun _ => none, lapsed := fun _ => false
    reaps := [] }

section Steps
variable (hasher : String → ℕ) (w : SweepWorld)

/-- `EXISTS` of a key that expires. -/
def there (expiry : Option Millis) : Bool := expiry.any fun e => decide (w.now < e)

def beats (id : String) : Bool := w.there (w.heartbeat id)

def marked (id : String) : Bool := w.there (w.suspect id)

/-- What the marker has left. -/
def left (id : String) : Millis := (w.suspect id).elim 0 fun e => e - w.now

/-- `TTL` rounds to the nearest second. -/
def ttl (id : String) : ℤ := if w.marked id then ((w.left id + 500) / 1000 : ℕ) else -2

/-- When a key that is set now for some seconds expires. -/
def expiry (secs : ℕ) : Option Millis := some (w.now + secs * 1000)

def sweepStep (done replied : Bool) : SweepPc → Option (SweepWorld × SweepPc)
  | .idle => none
  | .heartbeat id todo =>
    let alive := w.beats id
    some ({ w with seen := if alive then Function.update w.seen id (some w.now) else w.seen
                   lapsed := if alive then w.lapsed else Function.update w.lapsed id true },
      if done && replied && alive then .clear id todo else .suspect id todo)
  | .clear id todo =>
    some ({ w with suspect := if done then Function.update w.suspect id none else w.suspect },
      .next todo)
  | .suspect id todo =>
    let ttl := if done && replied then w.ttl id else -2
    some (w, if ttl = -2 then .mark id todo
             else if ttl > SUSPECT_CONFIRM_THRESHOLD then .next todo else .claim id todo)
  | .mark id todo =>
    some ({ w with suspect := if done then Function.update w.suspect id (w.expiry SUSPECT_TTL_SECS)
                     else w.suspect },
      .next todo)
  | .claim id todo =>
    if done && !w.there (w.reaped id) then
      some ({ w with reaped := Function.update w.reaped id (w.expiry REAPED_TTL_SECS)
                     reaps := ⟨id, w.now, w.seen id, w.lapsed id⟩ :: w.reaps },
        if replied then .remove id todo else .next todo)
    else some (w, .next todo)
  | .remove id todo =>
    some ({ w with instances := if done then w.instances.erase id else w.instances },
      .unmark id todo)
  | .unmark id todo =>
    some ({ w with suspect := if done then Function.update w.suspect id none else w.suspect },
      .next todo)

def step : SweepAction → Option SweepWorld
  | .start ordinal replicas => some { w with agents := w.agents ++ [⟨ordinal, replicas, .idle⟩] }
  | .crash k => do
    let a ← w.agents[k]?
    return { w with agents := w.agents.set k { a with pc := .idle } }
  | .sweep k => do
    let a ← w.agents[k]?
    match a.pc with
    | .idle =>
      let todo := w.instances.filter fun id => owns hasher id a.ordinal a.replicas
      some { w with agents := w.agents.set k { a with pc := .next todo } }
    | _ => none
  | .run k done replied => do
    let a ← w.agents[k]?
    let (w', pc) ← w.sweepStep done replied a.pc
    return { w' with agents := w.agents.set k { a with pc } }
  | .beat id =>
    some { w with
      heartbeat := Function.update w.heartbeat id (w.expiry INSTANCE_HEARTBEAT_TTL_SECS) }
  | .register id =>
    some { w with instances := if id ∈ w.instances then w.instances else w.instances ++ [id] }
  | .deregister id => some { w with instances := w.instances.erase id }
  | .stopBeat id => some { w with heartbeat := Function.update w.heartbeat id none }
  | .tick ms => some { w with now := w.now + ms }

end Steps

/-- No `EXISTS` fails for a heartbeat that is there, and a sweep that finds one also deletes the
marker, if there is one. Where several agents own the instance, none finds the heartbeat while
another is about to claim, or takes the time to be up while another is about to delete the marker.
And none asks for the time in the half second in which Valkey rounds it down to the threshold. -/
def Calm (w : SweepWorld) : SweepAction → Prop
  | .crash k =>
    match w.agents[k]?.map SweepAgent.pc with
    | some (.clear id _) => w.marked id = false
    | _ => True
  | .run k done replied =>
    match w.agents[k]?.map SweepAgent.pc with
    | some (.heartbeat id _) =>
      w.beats id = true → (done && replied) = true ∧ ∀ a ∈ w.agents, a.pc.claims id = false
    | some (.clear id _) => w.marked id = true → done = true
    | some (.suspect id _) =>
      (done && replied) = true → w.marked id = true → w.ttl id ≤ SUSPECT_CONFIRM_THRESHOLD →
        w.left id ≤ SUSPECT_CONFIRM_THRESHOLD * 1000 ∧ ∀ a ∈ w.agents, a.pc.clears id = false
    | _ => True
  | _ => True

instance (w : SweepWorld) (a : SweepAction) : Decidable (w.Calm a) := by
  unfold Calm
  split
  · split <;> exact inferInstance
  · split <;> exact inferInstance
  · exact inferInstance

end SweepWorld

/-- The heartbeat was missing, and no sweep had found it for the grace period. -/
structure Reap.Right (r : Reap) : Prop where
  lapsed : r.lapsed = true
  seen : ∀ s, r.seen = some s → s + GRACE_MS ≤ r.time

/-! ## What the marker says -/

namespace SweepWorld

/-- A marker is at least as new as the last sweep that found the heartbeat, unless that sweep is
about to delete it. -/
structure Sound (w : SweepWorld) : Prop where
  past : ∀ id s, w.seen id = some s → s ≤ w.now
  marker : ∀ id s e, w.seen id = some s → w.suspect id = some e → w.now < e →
    s + SUSPECT_TTL_SECS * 1000 ≤ e ∨ ∃ a ∈ w.agents, a.pc.clears id = true
  claiming : ∀ a ∈ w.agents, ∀ id, a.pc.claims id = true →
    ∀ s, w.seen id = some s → s + GRACE_MS ≤ w.now
  missed : ∀ a ∈ w.agents, ∀ id, a.pc.misses id = true → w.lapsed id = true
  reaps : ∀ r ∈ w.reaps, r.Right

variable {hasher : String → ℕ} {w w' : SweepWorld} {a a' : SweepAgent} {others : List SweepAgent}
  {k : ℕ} {done replied : Bool}

@[simp] theorem next_clears (id : String) (todo : List String) :
    (SweepPc.next todo).clears id = false := by cases todo <;> rfl

@[simp] theorem next_claims (id : String) (todo : List String) :
    (SweepPc.next todo).claims id = false := by cases todo <;> rfl

@[simp] theorem next_misses (id : String) (todo : List String) :
    (SweepPc.next todo).misses id = false := by cases todo <;> rfl

theorem marked_iff {id : String} : w.marked id = true ↔ ∃ e, w.suspect id = some e ∧ w.now < e := by
  simp [marked, there, Option.any_eq_true]

/-- What an agent does to the keys and to what it is at. -/
theorem Sound.moved (h : Sound w) (hrep : Replaced w.agents a a' [] others w'.agents)
    (hnow : w'.now = w.now) (hlapsed : ∀ id, w.lapsed id = true → w'.lapsed id = true)
    (hseen : ∀ id s, w'.seen id = some s → w.seen id = some s ∨
      s = w.now ∧ a'.pc.clears id = true ∧ ∀ b ∈ w.agents, b.pc.claims id = false)
    (hsuspect : ∀ id e, w'.suspect id = some e → w.now < e →
      w.suspect id = some e ∧ a.pc.clears id = false ∨ w.now + SUSPECT_TTL_SECS * 1000 ≤ e)
    (hclaims : ∀ id s, a'.pc.claims id = true → w'.seen id = some s → s + GRACE_MS ≤ w.now)
    (hmisses : ∀ id, a'.pc.misses id = true → w'.lapsed id = true)
    (hreaps : ∀ r ∈ w'.reaps, r.Right) : Sound w' := by
  refine ⟨fun id s hs => ?_, fun id s e hs he hlate => ?_, fun b hb id hclaim s hs => ?_,
    fun b hb id hmiss => ?_, hreaps⟩
  · rw [hnow]
    rcases hseen id s hs with hold | ⟨hs', -, -⟩
    · exact h.past id s hold
    · exact hs'.le
  · rw [hnow] at hlate
    rcases hseen id s hs with hold | ⟨-, hclear, -⟩
    · rcases hsuspect id e he hlate with ⟨he', hnot⟩ | hnew
      · rcases h.marker id s e hold he' hlate with hle | ⟨b, hb, hclear⟩
        · exact .inl hle
        · rcases hrep.mem_before.mp hb with rfl | hother
          · rw [hnot] at hclear
            cases hclear
          · exact .inr ⟨b, hrep.other_mem hother, hclear⟩
      · have hpast := h.past id s hold
        exact .inl ((Nat.add_le_add_right hpast _).trans hnew)
    · exact .inr ⟨a', hrep.successor_mem, hclear⟩
  · rw [hnow]
    rcases hrep.mem_after.mp hb with rfl | hother | hnone
    · exact hclaims id s hclaim hs
    · have hb' := hrep.other_mem_before hother
      rcases hseen id s hs with hold | ⟨-, -, hfree⟩
      · exact h.claiming b hb' id hclaim s hold
      · rw [hfree b hb'] at hclaim
        cases hclaim
    · cases hnone
  · rcases hrep.mem_after.mp hb with rfl | hother | hnone
    · exact hmisses id hmiss
    · exact hlapsed id (h.missed b (hrep.other_mem_before hother) id hmiss)
    · cases hnone

/-- An agent goes on to the next instance, or begins, and leaves a marker only where it was not
about to delete it. -/
theorem Sound.onward (h : Sound w) {todo : List String}
    (hrep : Replaced w.agents a a' [] others w'.agents) (hpc : a'.pc = .next todo)
    (hnow : w'.now = w.now) (hlapsed : w'.lapsed = w.lapsed)
    (hseen : w'.seen = w.seen)
    (hsuspect : ∀ id e, w'.suspect id = some e → w.now < e →
      w.suspect id = some e ∧ a.pc.clears id = false ∨ w.now + SUSPECT_TTL_SECS * 1000 ≤ e)
    (hreaps : w'.reaps = w.reaps) : Sound w' := by
  refine h.moved hrep hnow (fun id hid => ?_) (fun id s hs => ?_) hsuspect (fun id s hclaim => ?_)
    (fun id hmiss => ?_) ?_
  · rw [hlapsed]
    exact hid
  · rw [hseen] at hs
    exact .inl hs
  · simp [hpc] at hclaim
  · simp [hpc] at hmiss
  · rw [hreaps]
    exact h.reaps

/-- `EXISTS` of the heartbeat. -/
theorem Sound.heartbeatRun {id : String} {todo : List String} {w₁ : SweepWorld} {pc : SweepPc}
    (h : Sound w) (hk : w.agents[k]? = some a) (hpc : a.pc = .heartbeat id todo)
    (hcalm : w.Calm (.run k done replied))
    (hstep : w.sweepStep done replied (.heartbeat id todo) = some (w₁, pc)) :
    Sound { w₁ with agents := w.agents.set k { a with pc } } := by
  obtain ⟨others, hrep⟩ := set_replaced hk { a with pc := pc }
  simp only [Calm, hk, Option.map_some, hpc] at hcalm
  have hclears : ∀ id', a.pc.clears id' = false := fun id' => by simp [hpc, SweepPc.clears]
  cases halive : w.beats id with
  | true =>
    obtain ⟨hok, hfree⟩ := hcalm halive
    simp only [sweepStep, halive, hok, Bool.and_true, if_true] at hstep
    cases hstep
    refine h.moved hrep rfl (fun _ hid => hid) (fun id' s hs => ?_)
      (fun id' e he _ => .inl ⟨he, hclears id'⟩) (by rintro _ _ ⟨⟩) (by rintro _ ⟨⟩) h.reaps
    by_cases hid : id' = id
    · subst hid
      right
      simp only [Function.update_self, Option.some.injEq] at hs
      exact ⟨hs.symm, by simp [SweepPc.clears], hfree⟩
    · left
      simpa [hid] using hs
  | false =>
    simp only [sweepStep, halive, Bool.and_false, Bool.false_eq_true, if_false] at hstep
    cases hstep
    refine h.moved hrep rfl (fun id' hid => ?_) (fun _ _ hs => .inl hs)
      (fun id' e he _ => .inl ⟨he, hclears id'⟩) (by rintro _ _ ⟨⟩) (fun id' hmiss => ?_) h.reaps
    · by_cases heq : id' = id
      · simp [heq]
      · simpa [heq] using hid
    · have heq : id = id' := by simpa [SweepPc.misses] using hmiss
      simp [heq]

/-- `TTL` of the marker. At the threshold the marker is as old as the grace period. -/
theorem Sound.suspectRun {id : String} {todo : List String} {w₁ : SweepWorld} {pc : SweepPc}
    (h : Sound w) (hk : w.agents[k]? = some a) (hpc : a.pc = .suspect id todo)
    (hcalm : w.Calm (.run k done replied))
    (hstep : w.sweepStep done replied (.suspect id todo) = some (w₁, pc)) :
    Sound { w₁ with agents := w.agents.set k { a with pc } } := by
  obtain ⟨others, hrep⟩ := set_replaced hk { a with pc := pc }
  simp only [Calm, hk, Option.map_some, hpc] at hcalm
  have hclears : ∀ id', a.pc.clears id' = false := fun id' => by simp [hpc, SweepPc.clears]
  have hlapsed : w.lapsed id = true :=
    h.missed a (List.mem_of_getElem? hk) id (by simp [hpc, SweepPc.misses])
  obtain ⟨answer, hanswer⟩ : ∃ t : ℤ, (if done && replied then w.ttl id else -2) = t := ⟨_, rfl⟩
  simp only [sweepStep, hanswer, Option.some.injEq, Prod.mk.injEq] at hstep
  obtain ⟨rfl, hpc'⟩ := hstep
  have hmoved : (∀ id' s, pc.claims id' = true → w.seen id' = some s → s + GRACE_MS ≤ w.now) →
      (∀ id', pc.misses id' = true → w.lapsed id' = true) →
      Sound { w with agents := w.agents.set k { a with pc } } := fun hclaims hmisses =>
    h.moved hrep rfl (fun _ hid => hid) (fun _ _ hs => .inl hs)
      (fun id' e he _ => .inl ⟨he, hclears id'⟩) hclaims hmisses h.reaps
  split at hpc'
  · subst hpc'
    refine hmoved (by rintro _ _ ⟨⟩) fun id' hmiss => ?_
    have heq : id = id' := by simpa [SweepPc.misses] using hmiss
    rwa [← heq]
  · next hsome =>
    split at hpc'
    · subst hpc'
      exact hmoved (fun id' s hclaim => by simp at hclaim) fun id' hmiss => by simp at hmiss
    · next htime =>
      subst hpc'
      refine hmoved (fun id' s hclaim hs => ?_) fun id' hmiss => ?_
      · obtain rfl : id = id' := by simpa [SweepPc.claims] using hclaim
        have hok : (done && replied) = true := by
          by_contra hfailed
          rw [if_neg hfailed] at hanswer
          exact hsome hanswer.symm
        rw [if_pos hok] at hanswer
        have hmarked : w.marked id = true := by
          by_contra hnone
          rw [ttl, if_neg hnone] at hanswer
          exact hsome hanswer.symm
        obtain ⟨hleft, hfree⟩ := hcalm hok hmarked (by rw [hanswer]; exact not_lt.mp htime)
        obtain ⟨e, he, hlate⟩ := marked_iff.mp hmarked
        rcases h.marker id s e hs he hlate with hle | ⟨b, hb, hclear⟩
        · simp only [left, he, Option.elim_some] at hleft
          refine Nat.le_of_add_le_add_right (b := SUSPECT_CONFIRM_THRESHOLD * 1000) ?_
          calc s + GRACE_MS + SUSPECT_CONFIRM_THRESHOLD * 1000
              = s + SUSPECT_TTL_SECS * 1000 := Nat.add_assoc _ _ _
            _ ≤ e := hle
            _ ≤ w.now + SUSPECT_CONFIRM_THRESHOLD * 1000 := Nat.sub_le_iff_le_add'.mp hleft
        · rw [hfree b hb] at hclear
          cases hclear
      · have heq : id = id' := by simpa [SweepPc.misses] using hmiss
        rwa [← heq]

/-- The claim of an instance that is to be cleaned up. -/
theorem Sound.claimRun {id : String} {todo : List String} {w₁ : SweepWorld} {pc : SweepPc}
    (h : Sound w) (hk : w.agents[k]? = some a) (hpc : a.pc = .claim id todo)
    (hstep : w.sweepStep done replied (.claim id todo) = some (w₁, pc)) :
    Sound { w₁ with agents := w.agents.set k { a with pc } } := by
  obtain ⟨others, hrep⟩ := set_replaced hk { a with pc := pc }
  have hmem := List.mem_of_getElem? hk
  have hclears : ∀ id', a.pc.clears id' = false := fun id' => by simp [hpc, SweepPc.clears]
  have hright : Reap.Right ⟨id, w.now, w.seen id, w.lapsed id⟩ :=
    ⟨h.missed a hmem id (by simp [hpc, SweepPc.misses]),
      h.claiming a hmem id (by simp [hpc, SweepPc.claims])⟩
  simp only [sweepStep] at hstep
  split at hstep
  · cases hstep
    refine h.moved hrep rfl (fun _ hid => hid) (fun _ _ hs => .inl hs)
      (fun id' e he _ => .inl ⟨he, hclears id'⟩) (fun id' s hclaim => ?_) (fun id' hmiss => ?_)
      fun r hr => ?_
    · dsimp only at hclaim
      split at hclaim
      · cases hclaim
      · simp at hclaim
    · dsimp only at hmiss
      split at hmiss
      · cases hmiss
      · simp at hmiss
    · rcases List.mem_cons.mp hr with rfl | hold
      · exact hright
      · exact h.reaps r hold
  · cases hstep
    exact h.onward hrep rfl rfl rfl rfl (fun id' e he _ => .inl ⟨he, hclears id'⟩) rfl

/-- A marker that is deleted, or that was not there. -/
theorem suspect_of_deleted {id id' : String} {e : Millis} (hdone : w.marked id = true → done = true)
    (he : (if done then Function.update w.suspect id none else w.suspect) id' = some e)
    (hlate : w.now < e) : w.suspect id' = some e ∧ id ≠ id' := by
  by_cases heq : id = id'
  · subst heq
    cases done with
    | true => simp at he
    | false =>
      have hmarked : w.marked id = true := marked_iff.mpr ⟨e, by simpa using he, hlate⟩
      cases hdone hmarked
  · refine ⟨?_, heq⟩
    split at he
    · simpa [Ne.symm heq] using he
    · exact he

theorem Sound.run {w₁ : SweepWorld} {pc : SweepPc} (h : Sound w) (hk : w.agents[k]? = some a)
    (hcalm : w.Calm (.run k done replied))
    (hstep : w.sweepStep done replied a.pc = some (w₁, pc)) :
    Sound { w₁ with agents := w.agents.set k { a with pc } } := by
  obtain ⟨others, hrep⟩ := set_replaced hk { a with pc := pc }
  cases hpc : a.pc with
  | idle =>
    rw [hpc] at hstep
    cases hstep
  | heartbeat id todo => exact h.heartbeatRun hk hpc hcalm (hpc ▸ hstep)
  | suspect id todo => exact h.suspectRun hk hpc hcalm (hpc ▸ hstep)
  | claim id todo => exact h.claimRun hk hpc (hpc ▸ hstep)
  | clear id todo =>
    rw [hpc] at hstep
    simp only [Calm, hk, Option.map_some, hpc] at hcalm
    cases hstep
    refine h.onward hrep rfl rfl rfl rfl (fun id' e he hlate => ?_) rfl
    obtain ⟨hold, hne⟩ := suspect_of_deleted hcalm he hlate
    exact .inl ⟨hold, by simp [hpc, SweepPc.clears, hne]⟩
  | mark id todo =>
    rw [hpc] at hstep
    cases hstep
    refine h.onward hrep rfl rfl rfl rfl (fun id' e he _ => ?_) rfl
    have hclears : a.pc.clears id' = false := by simp [hpc, SweepPc.clears]
    dsimp only at he
    split at he
    · by_cases heq : id' = id
      · subst heq
        simp only [Function.update_self, expiry, Option.some.injEq] at he
        exact .inr he.le
      · exact .inl ⟨by simpa [heq] using he, hclears⟩
    · exact .inl ⟨he, hclears⟩
  | remove id todo =>
    rw [hpc] at hstep
    cases hstep
    exact h.moved hrep rfl (fun _ hid => hid) (fun _ _ hs => .inl hs)
      (fun id' e he _ => .inl ⟨he, by simp [hpc, SweepPc.clears]⟩) (by rintro _ _ ⟨⟩)
        (by rintro _ ⟨⟩) h.reaps
  | unmark id todo =>
    rw [hpc] at hstep
    cases hstep
    refine h.onward hrep rfl rfl rfl rfl (fun id' e he _ => ?_) rfl
    refine .inl ⟨?_, by simp [hpc, SweepPc.clears]⟩
    dsimp only at he
    split at he
    · by_cases heq : id' = id
      · simp [heq] at he
      · simpa [heq] using he
    · exact he

theorem Sound.step {act : SweepAction} (h : Sound w) (hcalm : w.Calm act)
    (hstep : w.step hasher act = some w') : Sound w' := by
  cases act with
  | start ordinal replicas =>
    cases hstep
    have hagents : ∀ b ∈ w.agents ++ [⟨ordinal, replicas, .idle⟩], b ∈ w.agents ∨ b.pc = .idle := by
      intro b hb
      rcases List.mem_append.mp hb with hold | hnew
      · exact .inl hold
      · rw [List.mem_singleton.mp hnew]
        exact .inr rfl
    refine ⟨h.past, fun id s e hs he hlate => ?_, fun b hb id hclaim => ?_, fun b hb id hmiss => ?_,
      h.reaps⟩
    · rcases h.marker id s e hs he hlate with hle | ⟨b, hb, hclear⟩
      · exact .inl hle
      · exact .inr ⟨b, List.mem_append_left _ hb, hclear⟩
    · rcases hagents b hb with hold | hidle
      · exact h.claiming b hold id hclaim
      · simp [hidle, SweepPc.claims] at hclaim
    · rcases hagents b hb with hold | hidle
      · exact h.missed b hold id hmiss
      · simp [hidle, SweepPc.misses] at hmiss
  | crash k =>
    obtain ⟨a, hk, hrest⟩ := Option.bind_eq_some_iff.mp hstep
    cases hrest
    obtain ⟨others, hrep⟩ := set_replaced hk { a with pc := .idle }
    have hidle : ({ a with pc := .idle } : SweepAgent).pc = .next [] := rfl
    refine h.onward hrep hidle rfl rfl rfl (fun id e he hlate => ?_) rfl
    refine .inl ⟨he, ?_⟩
    cases hpc : a.pc with
    | clear id' todo =>
      simp only [Calm, hk, Option.map_some, hpc] at hcalm
      by_cases heq : id' = id
      · have hmarked : w.marked id = true := marked_iff.mpr ⟨e, he, hlate⟩
        rw [← heq, hcalm] at hmarked
        cases hmarked
      · simp [SweepPc.clears, heq]
    | _ => rfl
  | sweep k =>
    obtain ⟨a, hk, hrest⟩ := Option.bind_eq_some_iff.mp hstep
    cases hpc : a.pc with
    | idle =>
      rw [hpc] at hrest
      cases hrest
      obtain ⟨others, hrep⟩ := set_replaced hk
        { a with pc := .next (w.instances.filter fun id => owns hasher id a.ordinal a.replicas) }
      exact h.onward hrep rfl rfl rfl rfl
        (fun id e he _ => .inl ⟨he, by simp [hpc, SweepPc.clears]⟩) rfl
    | _ =>
      rw [hpc] at hrest
      cases hrest
  | run k done replied =>
    obtain ⟨a, hk, hrest⟩ := Option.bind_eq_some_iff.mp hstep
    obtain ⟨⟨w₁, pc⟩, hsweep, hrest⟩ := Option.bind_eq_some_iff.mp hrest
    cases hrest
    exact h.run hk hcalm hsweep
  | beat id | register id | deregister id | stopBeat id =>
    cases hstep
    exact ⟨h.past, h.marker, h.claiming, h.missed, h.reaps⟩
  | tick ms =>
    cases hstep
    have hnow : w.now ≤ w.now + ms := Nat.le_add_right _ _
    refine ⟨fun id s hs => (h.past id s hs).trans hnow, fun id s e hs he hlate => ?_,
      fun b hb id hclaim s hs => ?_, h.missed, h.reaps⟩
    · exact h.marker id s e hs he (Nat.lt_of_le_of_lt hnow hlate)
    · exact (h.claiming b hb id hclaim s hs).trans hnow

theorem Sound.init : Sound SweepWorld.init := ⟨by rintro _ _ ⟨⟩, by rintro _ _ _ ⟨⟩, by rintro _ ⟨⟩,
  by rintro _ ⟨⟩, by rintro _ ⟨⟩⟩

end SweepWorld

/-- In a calm run an instance is reaped only when its heartbeat was missing and no sweep of an agent
that owns it had found it for the grace period. -/
theorem reaps_right {hasher : String → ℕ} {w : SweepWorld}
    (h : Run (SweepWorld.step hasher) SweepWorld.Calm SweepWorld.init w) :
    ∀ r ∈ w.reaps, r.Right := by
  have hsound : w.Sound :=
    h.invariant .init fun _ _ _ _ hs hcalm hstep => hs.step hcalm hstep
  exact hsound.reaps

/-- A gateway stops after a sweep has found it, and is reaped two minutes after the next one. -/
theorem stopped_gateway_reaped : ∃ w : SweepWorld, w.reaps = [⟨"gateway", 150000, some 0, true⟩] ∧
    w.instances = [] ∧ ∀ r ∈ w.reaps, r.Right := by
  have hexec : (exec (SweepWorld.step fun _ => 0) (fun w a => decide (w.Calm a)) SweepWorld.init
      (.flatten [[.start 0 1, .beat "gateway", .register "gateway", .sweep 0],
        .replicate 2 (.run 0 true true), [.tick 30000, .sweep 0], .replicate 3 (.run 0 true true),
        [.tick 120000, .sweep 0], .replicate 5 (.run 0 true true)])).any
      (fun w => decide (w.reaps = [⟨"gateway", 150000, some 0, true⟩] ∧ w.instances = [])) =
        true := by
    decide +kernel
  obtain ⟨w, hrun, hw⟩ := Run.exists_of_exec (fun _ _ h => of_decide_eq_true h) hexec
  obtain ⟨hreaps, hinstances⟩ := of_decide_eq_true hw
  exact ⟨w, hreaps, hinstances, reaps_right hrun⟩

/-- Every `EXISTS` of the sweeps of two minutes fails: a gateway whose heartbeat is there all the
time is reaped. -/
theorem renewing_gateway_reaped : ∃ w : SweepWorld,
    Run (SweepWorld.step fun _ => 0) (fun w _ => ∀ id ∈ w.instances, w.beats id = true)
      SweepWorld.init w ∧ ∃ r ∈ w.reaps, ¬ r.Right := by
  have hexec : (exec (SweepWorld.step fun _ => 0) (fun w _ => w.instances.all w.beats)
      SweepWorld.init
      (.flatten [[.start 0 1, .beat "gateway", .register "gateway", .sweep 0, .run 0 false false],
        .replicate 2 (.run 0 true true),
        .flatten (.replicate 4 [.tick 15000, .beat "gateway", .tick 15000, .beat "gateway",
          .sweep 0, .run 0 false false, .run 0 true true]),
        [.run 0 true true]])).any
      (fun w => decide (w.reaps = [⟨"gateway", 120000, some 120000, false⟩])) = true := by
    decide +kernel
  obtain ⟨w, hrun, hw⟩ := Run.exists_of_exec (fun w _ h => List.all_eq_true.mp h) hexec
  have hreaps := of_decide_eq_true hw
  refine ⟨w, hrun, ⟨"gateway", 120000, some 120000, false⟩, by rw [hreaps]; simp, fun hright => ?_⟩
  have hlapsed := hright.lapsed
  cases hlapsed

end Veronex.Agent
