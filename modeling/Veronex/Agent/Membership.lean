import Veronex.Agent.Shard
import Veronex.Domain.Values
import Veronex.Foundation.Pool
import Veronex.Foundation.Transition
import Mathlib.Data.List.Nodup
import Mathlib.Logic.Function.Basic

/-! # The agents that are there

`veronex-agent/src/heartbeat.rs` and the main loop: a pod registers, counts the pods that have a
heartbeat and scrapes the targets it owns by that count. The orphan sweeper of a pod owns instances
by `REPLICA_COUNT` instead.

`Fleet.Settled`: the heartbeats of the pods that are gone have expired, and every pod has counted
the pods since. `settled_owned_once_iff` says when the ids are then split among the pods.
`lastChange`, `readAt` and `seen` are kept for the statements.
-/
namespace Veronex.Agent
set_option autoImplicit false
open Concurrency

def HEARTBEAT_TTL_SECS : ℕ := 180

def HEARTBEAT_TTL_MS : Millis := HEARTBEAT_TTL_SECS * 1000

inductive PodPc
  | add
  | beat
  | members
  /-- `since` is when the members were read, and `seen` whether every pod that is there was found.
  -/
  | count (todo : List String) (live : ℕ) (since : Millis) (seen : Bool)
  | drop (member : String) (todo : List String) (live : ℕ) (since : Millis) (seen : Bool)
  | scrape
  /-- `deregister_agent`. -/
  | removeSelf
  | removeBeat
  | gone

structure Pod where
  host : String
  replicas : ℕ
  /-- When the count it has was read, if that found every pod. -/
  readAt : Option Millis
  pc : PodPc

namespace Pod

def live (p : Pod) : Bool :=
  match p.pc with
  | .removeSelf | .removeBeat | .gone => false
  | _ => true

def ordinal (p : Pod) : ℕ := ordinalFromHostname p.host

end Pod

structure Fleet where
  now : Millis
  /-- `veronex:agent:instances`. -/
  instances : List String
  /-- When the heartbeat of a host expires. -/
  heartbeat : String → Option Millis
  pods : List Pod
  /-- When a pod last came or went. -/
  lastChange : Millis

inductive FleetAction
  | join (host : String)
  | crash (k : ℕ)
  /-- `ctrl_c`. -/
  | stop (k : ℕ)
  /-- The next command of a pod, and whether it succeeds. -/
  | run (k : ℕ) (ok : Bool)
  | tick (ms : Millis)

namespace Fleet

def init : Fleet :=
  { now := 0, instances := [], heartbeat := fun _ => none, pods := [], lastChange := 0 }

def liveHosts (f : Fleet) : List String := (f.pods.filter Pod.live).map Pod.host

/-- `EXISTS` of a heartbeat. -/
def beats (f : Fleet) (host : String) : Bool := (f.heartbeat host).any fun e => decide (f.now < e)

/-- `SADD`. -/
def added (f : Fleet) (host : String) : List String :=
  if host ∈ f.instances then f.instances else f.instances ++ [host]

/-- A command of a pod: the fleet around it and the pod after it. -/
def podStep (fallback : ℕ) (f : Fleet) (p : Pod) (ok : Bool) : Option (Fleet × Pod) :=
  match p.pc with
  | .add =>
    some ({ f with instances := if ok then f.added p.host else f.instances },
      { p with pc := .beat })
  | .beat =>
    let expiry := some (f.now + HEARTBEAT_TTL_MS)
    some ({ f with heartbeat := if ok then Function.update f.heartbeat p.host expiry
                     else f.heartbeat },
      { p with pc := .members })
  | .members =>
    if ok then
      some (f, { p with pc := .count f.instances 0 f.now (f.liveHosts.all (· ∈ f.instances)) })
    else some (f, { p with replicas := max fallback 1, readAt := none, pc := .scrape })
  | .count [] live since seen =>
    some (f, { p with replicas := max live 1, readAt := if seen then some since else none
                      pc := .scrape })
  | .count (member :: todo) live since seen =>
    if ok && f.beats member then some (f, { p with pc := .count todo (live + 1) since seen })
    else
      let seen := seen && decide (member ∉ f.liveHosts)
      some (f, { p with pc := .drop member todo live since seen })
  | .drop member todo live since seen =>
    some ({ f with instances := if ok then f.instances.erase member else f.instances },
      { p with pc := .count todo live since seen })
  | .scrape => some (f, { p with pc := .add })
  | .removeSelf =>
    some ({ f with instances := if ok then f.instances.erase p.host else f.instances },
      { p with pc := .removeBeat })
  | .removeBeat =>
    some ({ f with heartbeat := if ok then Function.update f.heartbeat p.host none
                     else f.heartbeat },
      { p with pc := .gone })
  | .gone => none

/-- A host name is one pod's at a time. -/
def step (fallback : ℕ) (f : Fleet) : FleetAction → Option Fleet
  | .join host =>
    if host ∈ f.liveHosts then none
    else some { f with pods := f.pods ++ [{ host, replicas := 1, readAt := none, pc := .add }]
                       lastChange := f.now }
  | .crash k => do
    let p ← f.pods[k]?
    return { f with pods := f.pods.set k { p with pc := .gone }, lastChange := f.now }
  | .stop k => do
    let p ← f.pods[k]?
    match p.pc with
    | .scrape =>
      some { f with pods := f.pods.set k { p with pc := .removeSelf }, lastChange := f.now }
    | _ => none
  | .run k ok => do
    let p ← f.pods[k]?
    let (f', p') ← f.podStep fallback p ok
    return { f' with pods := f.pods.set k p' }
  | .tick ms => some { f with now := f.now + ms }

/-- The heartbeats of the pods that are gone have expired, and since then every pod that is there
has read how many there are. -/
def Settled (f : Fleet) : Prop :=
  ∀ p ∈ f.pods, p.live = true →
    ∃ t, p.readAt = some t ∧ f.lastChange + HEARTBEAT_TTL_MS ≤ t

instance (f : Fleet) : Decidable f.Settled :=
  decidable_of_iff
    (∀ p ∈ f.pods, p.live = true →
      (p.readAt.any fun t => decide (f.lastChange + HEARTBEAT_TTL_MS ≤ t)) = true)
    (by simp [Settled, Option.any_eq_true])

/-- The pods that own a target. -/
def targetOwners (f : Fleet) (hasher : String → ℕ) (id : String) : ℕ :=
  (f.pods.filter Pod.live).countP fun p => owns hasher id p.ordinal p.replicas

/-- The pods whose orphan sweeper owns an instance. -/
def instanceOwners (fallback : ℕ) (f : Fleet) (hasher : String → ℕ) (id : String) : ℕ :=
  (f.pods.filter Pod.live).countP fun p => owns hasher id p.ordinal fallback

end Fleet

/-! ## Counting the pods -/

/-- The pods a read is to count: those it counted and those it has still to look at. -/
def PodPc.Counts (f : Fleet) (pc : PodPc) : Prop :=
  match pc with
  | .count todo live since seen | .drop _ todo live since seen =>
    since ≤ f.now ∧ (seen = true → f.lastChange + HEARTBEAT_TTL_MS ≤ since →
      live + todo.countP (· ∈ f.liveHosts) = f.liveHosts.length)
  | _ => True

structure Pod.Counted (f : Fleet) (p : Pod) : Prop where
  reading : p.live = true → p.pc.Counts f
  read : p.live = true → ∀ t, p.readAt = some t → t ≤ f.now ∧
    (f.lastChange + HEARTBEAT_TTL_MS ≤ t → p.replicas = f.liveHosts.length)

/-- The registry: a heartbeat of a pod that is gone is from before it went. -/
structure Fleet.Registered (f : Fleet) : Prop where
  change : f.lastChange ≤ f.now
  hosts : f.liveHosts.Nodup
  members : f.instances.Nodup
  fresh : ∀ h e, f.heartbeat h = some e → e ≤ f.now + HEARTBEAT_TTL_MS
  stale : ∀ h e, f.heartbeat h = some e → h ∉ f.liveHosts → e ≤ f.lastChange + HEARTBEAT_TTL_MS
  pods : ∀ p ∈ f.pods, p.Counted f

variable {f f' : Fleet} {p p' : Pod} {others : List Pod} {fallback : ℕ}

theorem not_old {t : Millis} (hle : t ≤ f.now) (hchange : f'.lastChange = f.now) :
    ¬ f'.lastChange + HEARTBEAT_TTL_MS ≤ t := by
  have hpos : 0 < HEARTBEAT_TTL_MS := by decide
  rw [hchange]
  exact Nat.not_le.mpr (Nat.lt_of_le_of_lt hle (Nat.lt_add_of_pos_right hpos))

namespace PodPc.Counts
variable {pc : PodPc}

/-- What is still to be counted depends on which pods there are only. -/
theorem of_same (h : pc.Counts f) (hnow : f.now ≤ f'.now) (hchange : f'.lastChange = f.lastChange)
    (hlive : f'.liveHosts.Perm f.liveHosts) : pc.Counts f' := by
  have hcount : ∀ todo : List String,
      todo.countP (· ∈ f'.liveHosts) = todo.countP (· ∈ f.liveHosts) := fun todo =>
    List.countP_congr fun m _ => by simp [hlive.mem_iff]
  cases pc with
  | count todo live since seen =>
    have hsince : since ≤ f.now := h.1
    refine ⟨hsince.trans hnow, fun hseen hold => ?_⟩
    rw [hcount, hlive.length_eq]
    exact h.2 hseen (hchange ▸ hold)
  | drop member todo live since seen =>
    have hsince : since ≤ f.now := h.1
    refine ⟨hsince.trans hnow, fun hseen hold => ?_⟩
    rw [hcount, hlive.length_eq]
    exact h.2 hseen (hchange ▸ hold)
  | _ => trivial

/-- What was read before the pods changed is not to be relied on. -/
theorem of_changed (h : pc.Counts f) (hnow : f'.now = f.now) (hchange : f'.lastChange = f.now) :
    pc.Counts f' := by
  cases pc with
  | count todo live since seen =>
    have hsince : since ≤ f.now := h.1
    exact ⟨hnow ▸ hsince, fun _ hold => absurd hold (not_old hsince hchange)⟩
  | drop member todo live since seen =>
    have hsince : since ≤ f.now := h.1
    exact ⟨hnow ▸ hsince, fun _ hold => absurd hold (not_old hsince hchange)⟩
  | _ => trivial

end PodPc.Counts

namespace Pod.Counted

theorem of_same (h : p.Counted f) (hnow : f.now ≤ f'.now) (hchange : f'.lastChange = f.lastChange)
    (hlive : f'.liveHosts.Perm f.liveHosts) : p.Counted f' where
  reading hp := (h.reading hp).of_same hnow hchange hlive
  read hp t ht := by
    obtain ⟨hle, hcount⟩ := h.read hp t ht
    refine ⟨hle.trans hnow, fun hold => ?_⟩
    rw [hlive.length_eq]
    exact hcount (hchange ▸ hold)

theorem of_changed (h : p.Counted f) (hnow : f'.now = f.now) (hchange : f'.lastChange = f.now) :
    p.Counted f' where
  reading hp := (h.reading hp).of_changed hnow hchange
  read hp t ht := by
    have hle := (h.read hp t ht).1
    exact ⟨hnow ▸ hle, fun hold => absurd hold (not_old hle hchange)⟩

theorem of_dead (hp : p.live = false) : p.Counted f where
  reading hlive := by simp [hp] at hlive
  read hlive := by simp [hp] at hlive

end Pod.Counted

/-! ### The pods that are there -/

/-- The hosts of the pods of a list that are there. -/
def liveHostsOf (pods : List Pod) : List String := (pods.filter Pod.live).map Pod.host

theorem liveHostsOf_replaced {pods pods' : List Pod} (h : Replaced pods p p' [] others pods') :
    (liveHostsOf pods).Perm (liveHostsOf (p :: others)) ∧
      (liveHostsOf pods').Perm (liveHostsOf (p' :: others)) := by
  have hafter := h.2
  rw [List.append_nil] at hafter
  exact ⟨(h.1.filter _).map _, (hafter.filter _).map _⟩

theorem liveHostsOf_moved {pods pods' : List Pod} (h : Replaced pods p p' [] others pods')
    (hhost : p'.host = p.host) (hlive : p'.live = p.live) :
    (liveHostsOf pods').Perm (liveHostsOf pods) := by
  obtain ⟨hbefore, hafter⟩ := liveHostsOf_replaced h
  have hsame : liveHostsOf (p' :: others) = liveHostsOf (p :: others) := by
    simp only [liveHostsOf, List.filter_cons, hlive]
    split
    · simp [hhost]
    · rfl
  rw [hsame] at hafter
  exact hafter.trans hbefore.symm

/-- The others stay when a pod goes. -/
theorem liveHostsOf_left {pods pods' : List Pod} (h : Replaced pods p p' [] others pods')
    (hlive : p'.live = false) :
    (liveHostsOf pods').Subset (liveHostsOf pods) ∧
      ((liveHostsOf pods).Nodup → (liveHostsOf pods').Nodup) := by
  obtain ⟨hbefore, hafter⟩ := liveHostsOf_replaced h
  have hothers : liveHostsOf (p' :: others) = liveHostsOf others := by
    simp [liveHostsOf, hlive]
  rw [hothers] at hafter
  have hsub : (liveHostsOf others).Sublist (liveHostsOf (p :: others)) :=
    ((List.sublist_cons_self p others).filter _).map _
  constructor
  · intro m hm
    exact hbefore.symm.subset (hsub.subset (hafter.subset hm))
  · intro hnodup
    exact hafter.symm.nodup (hsub.nodup (hbefore.nodup hnodup))

theorem mem_liveHosts (hp : p ∈ f.pods) (hlive : p.live = true) : p.host ∈ f.liveHosts :=
  List.mem_map_of_mem (List.mem_filter.mpr ⟨hp, hlive⟩)

/-! ### Steps -/

/-- A command of a pod leaves the other pods, and which pods there are, as they were. -/
theorem Fleet.podStep_frame {ok : Bool} (h : f.podStep fallback p ok = some (f', p')) :
    f'.pods = f.pods ∧ f'.now = f.now ∧ f'.lastChange = f.lastChange ∧
      p'.host = p.host ∧ p'.live = p.live := by
  unfold Fleet.podStep at h
  split at h
  case h_5 => split at h <;> (cases h; simp_all [Pod.live])
  case h_10 => cases h
  case h_3 => split at h <;> (cases h; simp_all [Pod.live])
  all_goals
    cases h
    simp_all [Pod.live]

namespace Fleet.Registered

/-- A heartbeat that is there after the heartbeats of the pods that are gone have expired. -/
theorem live_of_beats (h : f.Registered) {m : String} {t : Millis} (hbeats : f.beats m = true)
    (hold : f.lastChange + HEARTBEAT_TTL_MS ≤ t) (hle : t ≤ f.now) : m ∈ f.liveHosts := by
  by_contra hgone
  obtain ⟨e, he, hlater⟩ := (Option.any_eq_true _ _).mp hbeats
  have hstale : e ≤ f.now := (h.stale m e he hgone).trans (hold.trans hle)
  exact absurd (of_decide_eq_true hlater) (Nat.not_lt.mpr hstale)

theorem countP_members (h : f.Registered) (hseen : f.liveHosts.all (· ∈ f.instances) = true) :
    f.instances.countP (· ∈ f.liveHosts) = f.liveHosts.length := by
  rw [List.countP_eq_length_filter]
  have hperm : (f.instances.filter (· ∈ f.liveHosts)).Perm f.liveHosts := by
    refine (List.perm_ext_iff_of_nodup (h.members.filter _) h.hosts).mpr fun m => ?_
    have hmem : m ∈ f.liveHosts → m ∈ f.instances := by simpa using List.all_eq_true.mp hseen m
    simpa using hmem
  exact hperm.length_eq

/-- What the commands of a pod make of its count. -/
theorem counted_of_command {ok : Bool} (h : f.Registered) (hp : p ∈ f.pods)
    (hstep : f.podStep fallback p ok = some (f', p')) : p'.Counted f := by
  have hcounted := h.pods p hp
  unfold Fleet.podStep at hstep
  split at hstep
  case h_3 hpc =>
    have hlive : p.live = true := by simp [Pod.live, hpc]
    split at hstep
    · cases hstep
      refine ⟨fun _ => ⟨le_rfl, fun hseen _ => ?_⟩, fun _ => hcounted.read hlive⟩
      simpa using h.countP_members hseen
    · cases hstep
      exact ⟨fun _ => trivial, fun _ t ht => by cases ht⟩
  case h_4 live since seen hpc =>
    have hlive : p.live = true := by simp [Pod.live, hpc]
    have hcounts := hcounted.reading hlive
    rw [hpc] at hcounts
    cases hstep
    refine ⟨fun _ => trivial, fun _ t ht => ?_⟩
    have hread : seen = true ∧ since = t := by simpa using ht
    obtain ⟨hseen, rfl⟩ := hread
    refine ⟨hcounts.1, fun hold => ?_⟩
    have hall : live + 0 = f.liveHosts.length := hcounts.2 hseen hold
    have hsome := List.length_pos_of_mem (mem_liveHosts hp hlive)
    change max live 1 = _
    omega
  case h_5 member todo live since seen hpc =>
    have hlive : p.live = true := by simp [Pod.live, hpc]
    have hcounts := hcounted.reading hlive
    rw [hpc] at hcounts
    have hsince : since ≤ f.now := hcounts.1
    split at hstep
    · next hfound =>
      cases hstep
      refine ⟨fun _ => ⟨hsince, fun hseen hold => ?_⟩, fun _ => hcounted.read hlive⟩
      have hmember := h.live_of_beats ((Bool.and_eq_true _ _).mp hfound).2 hold hsince
      have hall := hcounts.2 hseen hold
      rw [List.countP_cons_of_pos (by simpa using hmember)] at hall
      omega
    · cases hstep
      refine ⟨fun _ => ⟨hsince, fun hseen hold => ?_⟩, fun _ => hcounted.read hlive⟩
      have hnot := (Bool.and_eq_true _ _).mp hseen
      have hall := hcounts.2 hnot.1 hold
      rwa [List.countP_cons_of_neg (by simpa using hnot.2)] at hall
  case h_6 member todo live since seen hpc =>
    have hlive : p.live = true := by simp [Pod.live, hpc]
    have hcounts := hcounted.reading hlive
    rw [hpc] at hcounts
    cases hstep
    exact ⟨fun _ => hcounts, fun _ => hcounted.read hlive⟩
  case h_8 | h_9 =>
    cases hstep
    exact .of_dead rfl
  case h_10 => cases hstep
  all_goals
    next hpc =>
    have hlive : p.live = true := by simp [Pod.live, hpc]
    cases hstep
    exact ⟨fun _ => trivial, fun _ => hcounted.read hlive⟩

/-- What the commands of a pod make of the registry. -/
theorem registry_of_command {ok : Bool} (h : f.Registered) (hp : p ∈ f.pods)
    (hstep : f.podStep fallback p ok = some (f', p')) :
    f'.instances.Nodup ∧ (∀ m e, f'.heartbeat m = some e → e ≤ f.now + HEARTBEAT_TTL_MS) ∧
      ∀ m e, f'.heartbeat m = some e → m ∉ f.liveHosts →
        e ≤ f.lastChange + HEARTBEAT_TTL_MS := by
  unfold Fleet.podStep at hstep
  split at hstep
  case h_1 =>
    cases hstep
    refine ⟨?_, h.fresh, h.stale⟩
    dsimp only
    split
    · unfold added
      split
      · exact h.members
      · next hnew =>
        exact List.nodup_append.mpr ⟨h.members, by simp, fun m hm m' hm' => by
          rintro rfl
          exact hnew ((List.mem_singleton.mp hm') ▸ hm)⟩
    · exact h.members
  case h_2 hpc =>
    have hlive : p.live = true := by simp [Pod.live, hpc]
    have hthere := mem_liveHosts hp hlive
    cases hstep
    refine ⟨h.members, fun m e he => ?_, fun m e he hgone => ?_⟩
    · dsimp only at he
      split at he
      · by_cases hm : m = p.host
        · subst hm
          simp only [Function.update_self, Option.some.injEq] at he
          exact he.ge
        · exact h.fresh m e (by simpa [hm] using he)
      · exact h.fresh m e he
    · have hm : m ≠ p.host := fun heq => hgone (heq ▸ hthere)
      refine h.stale m e ?_ hgone
      dsimp only at he
      split at he
      · simpa [hm] using he
      · exact he
  case h_3 => split at hstep <;> (cases hstep; exact ⟨h.members, h.fresh, h.stale⟩)
  case h_5 => split at hstep <;> (cases hstep; exact ⟨h.members, h.fresh, h.stale⟩)
  case h_6 | h_8 =>
    cases hstep
    refine ⟨?_, h.fresh, h.stale⟩
    dsimp only
    split
    · exact h.members.erase _
    · exact h.members
  case h_9 =>
    cases hstep
    have hkept : ∀ {m e}, (if ok then Function.update f.heartbeat p.host none else f.heartbeat) m =
        some e → f.heartbeat m = some e := by
      intro m e he
      split at he
      · by_cases hm : m = p.host
        · simp [hm] at he
        · simpa [hm] using he
      · exact he
    exact ⟨h.members, fun m e he => h.fresh m e (hkept he),
      fun m e he => h.stale m e (hkept he)⟩
  case h_10 => cases hstep
  all_goals
    cases hstep
    exact ⟨h.members, h.fresh, h.stale⟩

/-- The pods change now: one came, or one went. -/
theorem changed (h : f.Registered) {pods : List Pod} (hnodup : (liveHostsOf pods).Nodup)
    (hpods : ∀ q ∈ pods, q ∈ f.pods ∨ q.live = false ∨ q.pc = .add ∧ q.readAt = none) :
    ({ f with pods := pods, lastChange := f.now } : Fleet).Registered where
  change := le_rfl
  hosts := hnodup
  members := h.members
  fresh := h.fresh
  stale m e he _ := h.fresh m e he
  pods q hq := by
    rcases hpods q hq with hold | hdead | ⟨hpc, hread⟩
    · exact (h.pods q hold).of_changed rfl rfl
    · exact .of_dead hdead
    · refine ⟨fun _ => ?_, fun _ t ht => ?_⟩
      · rw [hpc]
        trivial
      · rw [hread] at ht
        cases ht

theorem gone (h : f.Registered) {k : ℕ} (hk : f.pods[k]? = some p) (hdead : p'.live = false) :
    ({ f with pods := f.pods.set k p', lastChange := f.now } : Fleet).Registered := by
  obtain ⟨others, hrep⟩ := set_replaced hk p'
  refine h.changed ((liveHostsOf_left hrep hdead).2 h.hosts) fun q hq => ?_
  rcases hrep.mem_after.mp hq with rfl | hq | hq
  · exact .inr (.inl hdead)
  · exact .inl (hrep.other_mem_before hq)
  · cases hq

theorem ran (h : f.Registered) {k : ℕ} {ok : Bool} (hk : f.pods[k]? = some p)
    (hstep : f.podStep fallback p ok = some (f', p')) :
    ({ f' with pods := f.pods.set k p' } : Fleet).Registered := by
  obtain ⟨-, hnow, hchange, hhost, hlive⟩ := Fleet.podStep_frame hstep
  have hp := List.mem_of_getElem? hk
  obtain ⟨hmembers, hfresh, hstale⟩ := h.registry_of_command hp hstep
  obtain ⟨others, hrep⟩ := set_replaced hk p'
  have hmoved := liveHostsOf_moved hrep hhost hlive
  refine ⟨?_, hmoved.symm.nodup h.hosts, hmembers, ?_, ?_, fun q hq => ?_⟩
  · rw [hchange, hnow]
    exact h.change
  · rw [hnow]
    exact hfresh
  · intro m e he hgone
    rw [hchange]
    exact hstale m e he fun hm => hgone (hmoved.symm.subset hm)
  · have hcounted : q.Counted f := by
      rcases hrep.mem_after.mp hq with rfl | hq | hq
      · exact h.counted_of_command hp hstep
      · exact h.pods q (hrep.other_mem_before hq)
      · cases hq
    exact hcounted.of_same hnow.ge hchange hmoved

theorem step {a : FleetAction} (h : f.Registered) (hstep : f.step fallback a = some f') :
    f'.Registered := by
  cases a with
  | join host =>
    simp only [Fleet.step] at hstep
    split at hstep
    · cases hstep
    · next hnew =>
      cases hstep
      refine h.changed ?_ fun q hq => ?_
      · have hone : liveHostsOf (f.pods ++ [{ host, replicas := 1, readAt := none, pc := .add }]) =
            f.liveHosts ++ [host] := by
          rw [liveHostsOf, List.filter_append, List.map_append]
          rfl
        rw [hone]
        exact List.nodup_append.mpr ⟨h.hosts, by simp, fun m hm m' hm' => by
          rintro rfl
          exact hnew ((List.mem_singleton.mp hm') ▸ hm)⟩
      · rcases List.mem_append.mp hq with hq | hq
        · exact .inl hq
        · obtain rfl := List.mem_singleton.mp hq
          exact .inr (.inr ⟨rfl, rfl⟩)
  | crash k =>
    obtain ⟨p, hk, hrest⟩ := Option.bind_eq_some_iff.mp hstep
    cases hrest
    exact h.gone hk rfl
  | stop k =>
    obtain ⟨p, hk, hrest⟩ := Option.bind_eq_some_iff.mp hstep
    split at hrest
    · cases hrest
      exact h.gone hk rfl
    · cases hrest
  | run k ok =>
    obtain ⟨p, hk, hrest⟩ := Option.bind_eq_some_iff.mp hstep
    obtain ⟨⟨g, q⟩, hpod, hrest⟩ := Option.bind_eq_some_iff.mp hrest
    cases hrest
    exact h.ran hk hpod
  | tick ms =>
    cases hstep
    have hnow : f.now ≤ f.now + ms := Nat.le_add_right _ _
    refine ⟨h.change.trans hnow, h.hosts, h.members, fun m e he => ?_, h.stale, fun q hq => ?_⟩
    · exact (h.fresh m e he).trans (Nat.add_le_add_right hnow _)
    · exact (h.pods q hq).of_same hnow rfl (.refl _)

theorem init : Fleet.init.Registered where
  change := le_rfl
  hosts := List.nodup_nil
  members := List.nodup_nil
  fresh _ _ he := by cases he
  stale _ _ he := by cases he
  pods _ hp := by cases hp

end Fleet.Registered

theorem reached_registered {ok : Fleet → FleetAction → Prop}
    (h : Run (Fleet.step fallback) ok Fleet.init f) : f.Registered :=
  h.invariant .init fun _ _ _ _ hreg _ hstep => hreg.step hstep

/-- Once the pods have settled they agree on how many they are. -/
theorem Fleet.Settled.replicas_eq (h : f.Settled) (hreg : f.Registered) (hp : p ∈ f.pods)
    (hlive : p.live = true) : p.replicas = f.liveHosts.length := by
  obtain ⟨t, hread, hold⟩ := h p hp hlive
  exact ((hreg.pods p hp).read hlive t hread).2 hold

/-- The ordinals of the pods that are there. -/
def Fleet.liveOrdinals (f : Fleet) : List ℕ := (f.pods.filter Pod.live).map Pod.ordinal

theorem length_liveHosts : f.liveHosts.length = f.liveOrdinals.length := by
  simp [Fleet.liveHosts, Fleet.liveOrdinals]

theorem instanceOwners_eq {hasher : String → ℕ} {id : String} :
    f.instanceOwners fallback hasher id =
      f.liveOrdinals.countP (fun o => owns hasher id o fallback) := by
  rw [Fleet.liveOrdinals, List.countP_map]
  rfl

theorem targetOwners_eq (h : f.Settled) (hreg : f.Registered) {hasher : String → ℕ}
    {id : String} : f.targetOwners hasher id =
      f.liveOrdinals.countP (fun o => owns hasher id o f.liveOrdinals.length) := by
  rw [Fleet.liveOrdinals, List.countP_map]
  refine List.countP_congr fun p hp => ?_
  obtain ⟨hmem, hlive⟩ := List.mem_filter.mp hp
  have hreplicas := h.replicas_eq hreg hmem hlive
  rw [length_liveHosts] at hreplicas
  simp [Fleet.liveOrdinals] at hreplicas ⊢
  rw [hreplicas]

/-- The pods that are there own every target and every instance once exactly when their ordinals
split the ids among as many replicas as they are, and among `REPLICA_COUNT`. -/
theorem settled_owned_once_iff {ok : Fleet → FleetAction → Prop}
    (hrun : Run (Fleet.step fallback) ok Fleet.init f) (h : f.Settled) :
    (∀ (hasher : String → ℕ) (id : String),
      f.targetOwners hasher id = 1 ∧ f.instanceOwners fallback hasher id = 1) ↔
      Partitions f.liveOrdinals f.liveOrdinals.length ∧ Partitions f.liveOrdinals fallback := by
  have hreg := reached_registered hrun
  simp only [targetOwners_eq h hreg, instanceOwners_eq, ← owned_once_iff, ← forall_and]

/-- Two pods read their count 200 s after the last one came. -/
theorem two_pods_settled_owned_once : ∃ f : Fleet, f.liveOrdinals = [0, 1] ∧
    ∀ (hasher : String → ℕ) (id : String),
      f.targetOwners hasher id = 1 ∧ f.instanceOwners 2 hasher id = 1 := by
  have hexec : (exec (Fleet.step 2) (fun _ _ => true) Fleet.init
      (.flatten [[.join "a-0", .join "a-1"], .replicate 2 (.run 0 true), .replicate 7 (.run 1 true),
        .replicate 5 (.run 0 true), [.tick 100000], .replicate 2 (.run 0 true),
        .replicate 2 (.run 1 true), [.tick 100000], .replicate 4 (.run 0 true),
        .replicate 4 (.run 1 true)])).any
      (fun f => decide (f.Settled ∧ f.liveOrdinals = [0, 1])) = true := by
    decide +kernel
  obtain ⟨f, hrun, hf⟩ :=
    @Run.exists_of_exec _ _ _ _ (fun _ _ => True) (fun _ _ _ => trivial) _ _ _ hexec
  obtain ⟨hsettled, hordinals⟩ := of_decide_eq_true hf
  refine ⟨f, hordinals, (settled_owned_once_iff hrun hsettled).mpr ?_⟩
  rw [hordinals]
  decide

/-- Of four pods the first two crash. The others are two, and neither is the first or the second. -/
theorem gap_leaves_targets_unowned : ∃ f : Fleet,
    Run (Fleet.step 4) (fun _ _ => True) Fleet.init f ∧ f.Settled ∧ f.liveOrdinals = [2, 3] ∧
      ∀ (hasher : String → ℕ) (id : String), f.targetOwners hasher id = 0 := by
  have hexec : (exec (Fleet.step 4) (fun _ _ => true) Fleet.init
      (.flatten [[.join "a-0", .join "a-1", .join "a-2", .join "a-3"], .replicate 2 (.run 0 true),
        .replicate 2 (.run 1 true), .replicate 2 (.run 2 true), .replicate 9 (.run 3 true),
        [.crash 0, .crash 1], .replicate 7 (.run 2 true), [.tick 100000],
        .replicate 2 (.run 2 true), .replicate 2 (.run 3 true), [.tick 100000],
        .replicate 8 (.run 2 true), .replicate 4 (.run 3 true)])).any
      (fun f => decide (f.Settled ∧ f.liveOrdinals = [2, 3])) = true := by
    decide +kernel
  obtain ⟨f, hrun, hf⟩ :=
    @Run.exists_of_exec _ _ _ _ (fun _ _ => True) (fun _ _ _ => trivial) _ _ _ hexec
  obtain ⟨hsettled, hordinals⟩ := of_decide_eq_true hf
  refine ⟨f, hrun, hsettled, hordinals, fun hasher id => ?_⟩
  rw [targetOwners_eq hsettled (reached_registered hrun), hordinals, countP_owns]
  have hrest : hasher id % 2 < 2 := Nat.mod_lt _ (by decide)
  refine List.count_eq_zero_of_not_mem fun hmem => ?_
  simp only [List.length_cons, List.length_nil, List.mem_cons, List.not_mem_nil, or_false] at hmem
  omega

end Veronex.Agent
