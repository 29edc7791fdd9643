import Mathlib.Data.List.Chain
import Mathlib.Data.List.Perm.Subperm
import Veronex.Foundation.SlidingWindow
import Veronex.Inference.RateLimiter

/-! # The request window of an API key

`check_rpm` and `RATE_LIMIT_SCRIPT` of `infrastructure/inbound/http/middleware/rate_limiter.rs`. The
sorted set of a key is trimmed by each call and stores rejected calls too; Valkey drops it when no
call came for 62 s of its own clock.

`Covers` is what the set owes to the calls so far: every call that is still in the window of the
last one has its entry. So the `ZCARD` a call reads is at least the number of calls in its window,
and the rest is counting (`countP_window_le`).
-/
namespace Veronex
open Concurrency
set_option autoImplicit false

def RPM_WINDOW_MS : ℤ := 60000

/-- The `EXPIRE` of the script, in ms. -/
def RPM_EXPIRE_MS : ℤ := 62000

/-- The sorted set under `ratelimit_rpm`, with its expiry on the clock of the server. -/
structure RpmSet where
  entries : List (Uuid × ℤ)
  expireAt : Option ℤ

/-- A run of the script for a request, at the time `at` of the server's clock. -/
structure RpmCall where
  key : ApiKey
  nowMs : ℤ
  member : Uuid
  serverAt : ℤ

namespace RpmSet

def empty : RpmSet := { entries := [], expireAt := none }

/-- What the server still has of the set. -/
def live (s : RpmSet) (serverAt : ℤ) : List (Uuid × ℤ) :=
  match s.expireAt with
  | some deadline => if deadline ≤ serverAt then [] else s.entries
  | none => s.entries

/-- `RATE_LIMIT_SCRIPT`: the set it leaves and the count it returns. -/
def runScript (s : RpmSet) (serverAt windowStart nowMs : ℤ) (member : Uuid) : RpmSet × ℕ :=
  -- ZREMRANGEBYSCORE from -inf up to and with the start of the window
  let kept := (s.live serverAt).filter fun e => windowStart < e.2
  -- ZADD
  let entries := (member, nowMs) :: kept.filter fun e => e.1 ≠ member
  ({ entries, expireAt := some (serverAt + RPM_EXPIRE_MS) }, entries.length)

/-- `check_rpm`, with the limit of the key. -/
def checkRpm (s : RpmSet) (c : RpmCall) : RpmSet × Bool :=
  let windowStart := c.nowMs - RPM_WINDOW_MS
  let (s', count) := s.runScript c.serverAt windowStart c.nowMs c.member
  (s', count ≤ c.key.rateLimitRpm.toNat)

/-- The calls of one key, one after the other, with their answers. -/
def answers : RpmSet → List RpmCall → List (RpmCall × Bool)
  | _, [] => []
  | s, c :: rest => (c, (s.checkRpm c).2) :: answers (s.checkRpm c).1 rest

def after (s : RpmSet) (calls : List RpmCall) : RpmSet := calls.foldl (fun s c => (s.checkRpm c).1) s

theorem answers_append (s : RpmSet) (l m : List RpmCall) :
    answers s (l ++ m) = answers s l ++ answers (s.after l) m := by
  induction l generalizing s with
  | nil => rfl
  | cons c l ih =>
    have h := ih (s.checkRpm c).1
    simp only [List.cons_append, answers, after, List.foldl_cons] at h ⊢
    rw [h]

theorem map_fst_answers (s : RpmSet) (l : List RpmCall) : (answers s l).map Prod.fst = l := by
  induction l generalizing s with
  | nil => rfl
  | cons c l ih => simp only [answers, List.map_cons, ih]

end RpmSet

/-- The sets of all keys. -/
abbrev RpmSets := Uuid → RpmSet

/-- The RPM part of `rate_limiter` for the requests of all keys, in the order in which their scripts
run: whether each passes. A key without a limit is not looked up. -/
def rpmAnswers : RpmSets → List RpmCall → List (RpmCall × Bool)
  | _, [] => []
  | sets, c :: rest =>
    if 0 < c.key.rateLimitRpm then
      let checked := (sets c.key.id).checkRpm c
      (c, checked.2) :: rpmAnswers (Function.update sets c.key.id checked.1) rest
    else (c, true) :: rpmAnswers sets rest

/-- The set of a key sees the calls of that key alone. -/
theorem filter_rpmAnswers {key : Uuid} (sets : RpmSets) (calls : List RpmCall)
    (hlimit : ∀ c ∈ calls, c.key.id = key → 0 < c.key.rateLimitRpm) :
    (rpmAnswers sets calls).filter (fun r => r.1.key.id = key) =
      (sets key).answers (calls.filter fun c => c.key.id = key) := by
  induction calls generalizing sets with
  | nil => rfl
  | cons c calls ih =>
    have hrest := fun sets => ih sets fun b hb => hlimit b (List.mem_cons_of_mem c hb)
    by_cases hkey : c.key.id = key
    · have hpos := hlimit c List.mem_cons_self hkey
      simp only [rpmAnswers, if_pos hpos]
      rw [List.filter_cons_of_pos (by simpa using hkey),
        List.filter_cons_of_pos (by simpa using hkey), hrest, hkey, Function.update_self]
      rfl
    · have hother : ∀ s, Function.update sets c.key.id s key = sets key :=
        fun s => Function.update_of_ne (Ne.symm hkey) s sets
      rw [List.filter_cons_of_neg (by simpa using hkey)]
      simp only [rpmAnswers]
      split
      · rw [List.filter_cons_of_neg (by simpa using hkey), hrest, hother]
      · rw [List.filter_cons_of_neg (by simpa using hkey), hrest]

/-! ## What the set of a key holds -/

/-- The calls of a key as they reach the server: their members are distinct, their times do not
decrease, and between two of them the clock of the server gains at most the two seconds by which the
TTL exceeds the window. -/
structure Ordered (calls : List RpmCall) : Prop where
  members : (calls.map RpmCall.member).Nodup
  times : calls.Pairwise fun a b => a.nowMs ≤ b.nowMs
  skew : calls.IsChain fun a b => b.serverAt - a.serverAt ≤ b.nowMs - a.nowMs + 2000

theorem Ordered.of_append {l m : List RpmCall} (h : Ordered (l ++ m)) : Ordered l where
  members := by
    have hm := h.members
    rw [List.map_append] at hm
    exact (List.nodup_append.mp hm).1
  times := (List.pairwise_append.mp h.times).1
  skew := (List.isChain_append.mp h.skew).1

def entryOf (c : RpmCall) : Uuid × ℤ := (c.member, c.nowMs)

/-- Every call in the window of the last one has its entry, and the TTL runs from the last one. -/
structure Covers (calls : List RpmCall) (s : RpmSet) : Prop where
  entries : ∀ last ∈ calls.getLast?, ∀ c ∈ calls, last.nowMs - RPM_WINDOW_MS < c.nowMs →
    entryOf c ∈ s.entries
  deadline : s.expireAt = calls.getLast?.map fun last => last.serverAt + RPM_EXPIRE_MS

/-- The calls of its window are still in the set when a call runs. -/
theorem Covers.mem_live {calls : List RpmCall} {s : RpmSet} {c b : RpmCall} (h : Covers calls s)
    (hordered : Ordered (calls ++ [c])) (hb : b ∈ calls)
    (hwindow : c.nowMs - RPM_WINDOW_MS < b.nowMs) : entryOf b ∈ s.live c.serverAt := by
  obtain ⟨last, hlast⟩ := Option.isSome_iff_exists.mp
    (List.getLast?_isSome.mpr (List.ne_nil_of_mem hb))
  have hlastMem : last ∈ calls := List.mem_of_mem_getLast? hlast
  have hskew := (List.isChain_append.mp hordered.skew).2.2 last hlast c rfl
  have htimes := (List.pairwise_append.mp hordered.times).2.2
  have hle := htimes last hlastMem c List.mem_cons_self
  have hbLast : b.nowMs ≤ last.nowMs := by
    obtain ⟨init, rfl⟩ := List.getLast?_eq_some_iff.mp hlast
    have hpairs := (List.pairwise_append.mp (List.pairwise_append.mp hordered.times).1).2.2
    rcases List.mem_append.mp hb with hinit | hsingle
    · exact hpairs b hinit last List.mem_cons_self
    · rw [List.mem_singleton.mp hsingle]
  have hentry := h.entries last hlast b hb (by omega)
  have halive : ¬ last.serverAt + RPM_EXPIRE_MS ≤ c.serverAt := by
    simp only [RPM_WINDOW_MS, RPM_EXPIRE_MS] at *
    omega
  have hdeadline : s.expireAt = some (last.serverAt + RPM_EXPIRE_MS) := by
    rw [h.deadline, hlast, Option.map_some]
  rw [RpmSet.live, hdeadline]
  simp only [if_neg halive]
  exact hentry

theorem Covers.checkRpm {calls : List RpmCall} {s : RpmSet} {c : RpmCall} (h : Covers calls s)
    (hordered : Ordered (calls ++ [c])) : Covers (calls ++ [c]) (s.checkRpm c).1 where
  entries := by
    intro last hlast b hb hwindow
    have hlast' : last = c := by simpa using hlast.symm
    subst hlast'
    rcases List.mem_append.mp hb with hold | hnew
    · have hlive := h.mem_live hordered hold hwindow
      have hmembers := hordered.members
      rw [List.map_append, List.nodup_append] at hmembers
      have hne : b.member ≠ last.member :=
        hmembers.2.2 b.member (List.mem_map_of_mem hold) last.member (by simp)
      refine List.mem_cons_of_mem _ (List.mem_filter.mpr ⟨List.mem_filter.mpr ⟨hlive, ?_⟩, ?_⟩)
      · exact decide_eq_true hwindow
      · exact decide_eq_true hne
    · rw [List.mem_singleton.mp hnew]
      exact List.mem_cons_self
  deadline := by simp [RpmSet.checkRpm, RpmSet.runScript]

theorem covers_after (calls : List RpmCall) (hordered : Ordered calls) :
    Covers calls (RpmSet.empty.after calls) := by
  induction calls using List.reverseRecOn with
  | nil => exact ⟨fun _ h => (by cases h), rfl⟩
  | append_singleton calls c ih =>
    have h := (ih hordered.of_append).checkRpm hordered
    rw [RpmSet.after, List.foldl_append]
    exact h

/-! ## The bound -/

/-- A call that passes found at most the limit in its window, itself included. -/
theorem count_of_passed {calls : List RpmCall} {c : RpmCall} (hordered : Ordered (calls ++ [c]))
    (hpassed : ((RpmSet.empty.after calls).checkRpm c).2) :
    calls.countP (fun b => c.nowMs - RPM_WINDOW_MS < b.nowMs) + 1 ≤ c.key.rateLimitRpm.toNat := by
  have hcovers := covers_after (calls ++ [c]) hordered
  rw [RpmSet.after, List.foldl_append] at hcovers
  let window := calls.filter fun b => c.nowMs - RPM_WINDOW_MS < b.nowMs
  have hentries : (window ++ [c]).map entryOf ⊆
      ((RpmSet.empty.after calls).checkRpm c).1.entries := by
    intro e he
    obtain ⟨b, hb, rfl⟩ := List.mem_map.mp he
    have hbc : b ∈ calls ++ [c] ∧ c.nowMs - RPM_WINDOW_MS < b.nowMs := by
      rcases List.mem_append.mp hb with hwindow | hself
      · obtain ⟨hmem, hlt⟩ := List.mem_filter.mp hwindow
        exact ⟨List.mem_append_left _ hmem, by simpa using hlt⟩
      · rw [List.mem_singleton.mp hself, RPM_WINDOW_MS]
        exact ⟨by simp, by omega⟩
    exact hcovers.entries c (by simp) b hbc.1 hbc.2
  have hnodup : ((window ++ [c]).map entryOf).Nodup := by
    have hsub : ((window ++ [c]).map RpmCall.member).Nodup :=
      hordered.members.sublist ((List.filter_sublist.append_right [c]).map _)
    have hfst : (window ++ [c]).map RpmCall.member = ((window ++ [c]).map entryOf).map Prod.fst := by
      rw [List.map_map]
      rfl
    rw [hfst] at hsub
    exact hsub.of_map _
  have hlength := (List.subperm_of_subset hnodup hentries).length_le
  rw [List.length_map, List.length_append, List.length_singleton] at hlength
  have hcount : ((RpmSet.empty.after calls).checkRpm c).1.entries.length ≤
      c.key.rateLimitRpm.toNat := by
    simpa [RpmSet.checkRpm, RpmSet.runScript] using hpassed
  rw [List.countP_eq_length_filter]
  exact hlength.trans hcount

theorem answers_countsWindow {calls : List RpmCall} {limit : ℕ} (hordered : Ordered calls)
    (hlimit : ∀ c ∈ calls, c.key.rateLimitRpm = limit) :
    CountsWindow (fun r => r.1.nowMs) Prod.snd RPM_WINDOW_MS limit
      (RpmSet.empty.answers calls) := by
  intro before r rest hsplit hpassed
  have hcalls : calls = before.map Prod.fst ++ r.1 :: rest.map Prod.fst := by
    have hfst := RpmSet.map_fst_answers RpmSet.empty calls
    rw [hsplit, List.map_append, List.map_cons] at hfst
    exact hfst.symm
  have hanswer : r.2 = ((RpmSet.empty.after (before.map Prod.fst)).checkRpm r.1).2 := by
    rw [hcalls, RpmSet.answers_append] at hsplit
    have hlength : (RpmSet.empty.answers (before.map Prod.fst)).length = before.length := by
      have hfst := congrArg List.length (RpmSet.map_fst_answers RpmSet.empty (before.map Prod.fst))
      simpa using hfst
    have htail := List.append_inj_right hsplit hlength
    exact congrArg Prod.snd (List.cons.inj htail).1.symm
  have hprefix : Ordered (before.map Prod.fst ++ [r.1]) := by
    rw [hcalls, show r.1 :: rest.map Prod.fst = [r.1] ++ rest.map Prod.fst from rfl,
      ← List.append_assoc] at hordered
    exact hordered.of_append
  have hcount := count_of_passed hprefix (hanswer ▸ hpassed)
  have hr : r.1 ∈ calls := by simp [hcalls]
  rw [hlimit r.1 hr, List.countP_map] at hcount
  exact hcount

/-- In every window of 60 s at most as many requests of a key pass as its limit says. -/
theorem passed_le_limit {key : Uuid} {limit : ℕ} {calls : List RpmCall} (hpos : 0 < limit)
    (hlimit : ∀ c ∈ calls, c.key.id = key → c.key.rateLimitRpm = limit)
    (hordered : Ordered (calls.filter fun c => c.key.id = key)) (t : ℤ) :
    (rpmAnswers (fun _ => RpmSet.empty) calls).countP (fun r =>
      r.1.key.id = key && r.2 && (t - 60000 < r.1.nowMs && r.1.nowMs ≤ t)) ≤ limit := by
  have hlimited : ∀ c ∈ calls, c.key.id = key → 0 < c.key.rateLimitRpm := by
    intro c hc hkey
    rw [hlimit c hc hkey]
    exact_mod_cast hpos
  have hanswers := filter_rpmAnswers (fun _ => RpmSet.empty) calls hlimited
  have hmono : (RpmSet.empty.answers (calls.filter fun c => c.key.id = key)).Pairwise
      fun a b => a.1.nowMs ≤ b.1.nowMs := by
    have htimes := hordered.times
    rw [← RpmSet.map_fst_answers RpmSet.empty (calls.filter _), List.pairwise_map] at htimes
    exact htimes
  have hkeyLimit : ∀ c ∈ calls.filter (fun c => c.key.id = key), c.key.rateLimitRpm = limit := by
    intro c hc
    obtain ⟨hmem, hkey⟩ := List.mem_filter.mp hc
    exact hlimit c hmem (of_decide_eq_true hkey)
  have hbound := countP_window_le hmono (answers_countsWindow hordered hkeyLimit) t
  rw [← hanswers, List.countP_filter] at hbound
  refine le_trans (List.countP_mono_left fun r _ hr => ?_) hbound
  simp only [inWindow, RPM_WINDOW_MS, Bool.and_eq_true] at hr ⊢
  exact ⟨⟨hr.1.2, hr.2⟩, hr.1.1⟩

def twoPerMinute (id : Uuid) : ApiKey := { id, rateLimitRpm := 2, rateLimitTpm := 0 }

/-- Calls of two keys. The third of key 7 is rejected and stored, the fourth finds it. -/
def mixedCalls : List RpmCall :=
  [⟨twoPerMinute 7, 0, 1, 5⟩, ⟨twoPerMinute 8, 3, 2, 8⟩, ⟨twoPerMinute 7, 10, 3, 15⟩,
    ⟨twoPerMinute 7, 50000, 4, 50005⟩, ⟨twoPerMinute 7, 60005, 5, 60010⟩]

theorem mixedCalls_passed_le :
    (rpmAnswers (fun _ => RpmSet.empty) mixedCalls).countP (fun r =>
      r.1.key.id = 7 && r.2 && ((60005 : ℤ) - 60000 < r.1.nowMs && r.1.nowMs ≤ 60005)) ≤ 2 := by
  have hordered : Ordered (mixedCalls.filter fun c => c.key.id = 7) := by
    refine ⟨by decide, by decide, ?_⟩
    rw [show mixedCalls.filter (fun c => c.key.id = 7) = [⟨twoPerMinute 7, 0, 1, 5⟩,
      ⟨twoPerMinute 7, 10, 3, 15⟩, ⟨twoPerMinute 7, 50000, 4, 50005⟩,
      ⟨twoPerMinute 7, 60005, 5, 60010⟩] by rfl]
    simp
  exact passed_le_limit (by decide) (by decide) hordered 60005

end Veronex
