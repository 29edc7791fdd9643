import Mathlib.Tactic.Linarith
import Veronex.Foundation.StableSort
import Veronex.Inference.Cluster
import Veronex.Inference.Dispatcher

/-! # The wait a queued job is credited with

`queue_dispatcher_loop` scores a job by `zset_score - locality - age`, as `final_score` of the tests
of `domain/constants.rs` does. The tests feed it the wait; the loop takes it from the `zset_score`,
which tier bonuses and `promote_overdue` have lowered, not from `queue:enqueue_at`.

`tried_by_wait_iff`: the windows it is the same for.
-/
namespace Veronex
set_option autoImplicit false
open Concurrency

/-- `final_score` of the tests. -/
def finalScoreOfTests (zsetScore localityBonus waitMs perfFactor : ℚ) : ℚ :=
  let ageBonus := waitMs * (1 / 4) * perfFactor
  zsetScore - localityBonus - ageBonus

/-- What the loop reads of the VRAM pool and of the thermal port when it scores a job. -/
structure ScoreReading where
  loaded : String → Bool
  perfFactor : ℚ

namespace Candidate

def localityBonus (c : Candidate) (loaded : String → Bool) : ℚ :=
  if loaded c.job.modelName.asStr then LOCALITY_BONUS_MS else 0

/-- The wait the loop credits. -/
def creditedWait (c : Candidate) (now : Millis) : ℚ := max ((now : ℚ) - c.zsetScore) 0

/-- The wait since the job's entry of `queue:enqueue_at`. -/
def waitedSince (c : Candidate) (now : Millis) (enqueueAt : Uuid → Millis) : ℚ :=
  max ((now : ℚ) - enqueueAt c.uuid) 0

/-- The final score with the wait since the entry. -/
def scoreByWait (c : Candidate) (now : Millis) (enqueueAt : Uuid → Millis) (r : ScoreReading) : ℚ :=
  finalScoreOfTests c.zsetScore (c.localityBonus r.loaded) (c.waitedSince now enqueueAt)
    r.perfFactor

/-- The jobs of a window in the order the loop tries them in. -/
def tried (now : Millis) (read : Candidate → ScoreReading) (scored : List Candidate) :
    List Candidate :=
  scored.insertionSort fun a b =>
    a.finalScore now (read a).loaded (read a).perfFactor ≤
      b.finalScore now (read b).loaded (read b).perfFactor

/-- In ascending order of the tests' score, which is the one every job is sorted by. -/
def TriedByWait (now : Millis) (enqueueAt : Uuid → Millis) (read : Candidate → ScoreReading)
    (scored : List Candidate) : Prop :=
  (tried now read scored).Pairwise (fun a b =>
    a.scoreByWait now enqueueAt (read a) ≤ b.scoreByWait now enqueueAt (read b)) ∧
  ∀ c ∈ scored, c.finalScore now (read c).loaded (read c).perfFactor =
    c.scoreByWait now enqueueAt (read c)

section Order
variable {now : Millis} {enqueueAt : Uuid → Millis} {read : Candidate → ScoreReading}
  {scored : List Candidate}

/-- A step of the loop sorts the window so when one reading serves all its jobs. -/
theorem sort_step (w : World) (inst : InstanceId) (r : ScoreReading) :
    (Dispatch.mk inst (.sort now scored)).step w (.scores r.loaded r.perfFactor) =
      some { access := .read, next := ⟨inst, .attempt (tried now (fun _ => r) scored)⟩ } := rfl

theorem finalScore_eq (c : Candidate) (r : ScoreReading) :
    c.finalScore now r.loaded r.perfFactor =
      finalScoreOfTests c.zsetScore (c.localityBonus r.loaded) (c.creditedWait now)
        r.perfFactor := rfl

theorem finalScoreOfTests_inj {zsetScore localityBonus perfFactor wait wait' : ℚ} :
    finalScoreOfTests zsetScore localityBonus wait perfFactor =
        finalScoreOfTests zsetScore localityBonus wait' perfFactor ↔
      perfFactor = 0 ∨ wait = wait' := by
  unfold finalScoreOfTests
  dsimp only
  constructor
  · intro h
    have hproduct : perfFactor * (wait - wait') = 0 := by linarith
    exact (mul_eq_zero.mp hproduct).imp id sub_eq_zero.mp
  · rintro (rfl | rfl)
    · simp
    · rfl

theorem creditedWait_eq_iff (c : Candidate) :
    c.creditedWait now = c.waitedSince now enqueueAt ↔
      c.zsetScore = enqueueAt c.uuid ∨ now ≤ c.zsetScore ∧ now ≤ enqueueAt c.uuid := by
  unfold creditedWait waitedSince
  constructor
  · intro h
    rcases lt_or_ge c.zsetScore now with hlt | hge
    · have hpos : 0 < (now : ℚ) - c.zsetScore := sub_pos.mpr (by exact_mod_cast hlt)
      rw [max_eq_left hpos.le] at h
      have hwaits : 0 < (now : ℚ) - enqueueAt c.uuid :=
        (lt_max_iff.mp (h ▸ hpos)).resolve_right (lt_irrefl 0)
      rw [max_eq_left hwaits.le] at h
      have hsame : (c.zsetScore : ℚ) = enqueueAt c.uuid := by linarith
      exact .inl (by exact_mod_cast hsame)
    · have hnone : (now : ℚ) - c.zsetScore ≤ 0 := sub_nonpos.mpr (by exact_mod_cast hge)
      rw [max_eq_right hnone] at h
      have hentry : (now : ℚ) ≤ enqueueAt c.uuid :=
        sub_nonpos.mp ((le_max_left _ _).trans h.ge)
      exact .inr ⟨hge, by exact_mod_cast hentry⟩
  · rintro (h | ⟨hscore, hentry⟩)
    · rw [h]
    · have hscore' : (now : ℚ) ≤ c.zsetScore := by exact_mod_cast hscore
      have hentry' : (now : ℚ) ≤ enqueueAt c.uuid := by exact_mod_cast hentry
      rw [max_eq_right (by linarith), max_eq_right (by linarith)]

theorem tried_pairwise : (tried now read scored).Pairwise fun a b =>
    a.finalScore now (read a).loaded (read a).perfFactor ≤
      b.finalScore now (read b).loaded (read b).perfFactor :=
  pairwise_insertionSort_key
    (fun c : Candidate => c.finalScore now (read c).loaded (read c).perfFactor) scored

/-- The loop tries a window by its jobs' waits exactly when no job of it with a wait that counts has
a score other than its time of enqueue. -/
theorem tried_by_wait_iff (now : Millis) (enqueueAt : Uuid → Millis)
    (read : Candidate → ScoreReading) (scored : List Candidate) :
    TriedByWait now enqueueAt read scored ↔ ∀ c ∈ scored, (read c).perfFactor = 0 ∨
      c.zsetScore = enqueueAt c.uuid ∨ now ≤ c.zsetScore ∧ now ≤ enqueueAt c.uuid := by
  have hcredit : ∀ c : Candidate, c.finalScore now (read c).loaded (read c).perfFactor =
      c.scoreByWait now enqueueAt (read c) ↔ (read c).perfFactor = 0 ∨
        c.zsetScore = enqueueAt c.uuid ∨ now ≤ c.zsetScore ∧ now ≤ enqueueAt c.uuid := by
    intro c
    rw [finalScore_eq, scoreByWait, finalScoreOfTests_inj, creditedWait_eq_iff]
  constructor
  · intro h c hc
    exact (hcredit c).mp (h.2 c hc)
  · intro h
    have hsame : ∀ c ∈ scored, c.finalScore now (read c).loaded (read c).perfFactor =
        c.scoreByWait now enqueueAt (read c) := fun c hc => (hcredit c).mpr (h c hc)
    refine ⟨?_, hsame⟩
    refine tried_pairwise.imp_of_mem fun {a b} ha hb hle => ?_
    rw [tried, List.mem_insertionSort] at ha hb
    rwa [← hsame a ha, ← hsame b hb]

end Order

/-! ## A test job and a paid job -/

/-- A test job has waited 248 s, a paid job 3 s. -/
def enqueuedAt (id : Uuid) : Millis := if id = 1 then 1000000 else 1245000

def waiting (id : Uuid) (source : JobSource) (keyTier : Option KeyTier) : Candidate :=
  { uuid := id
    zsetScore := enqueuedAt id - tierBonus source keyTier
    job := newJob id { plainRequest "m" with source := source } ⟨"m", m_ne_empty⟩
      ⟨"m", m_ne_empty⟩ (enqueuedAt id)
    geminiTier := none
    keyTier := keyTier
    submitted := true }

def coolReading : ScoreReading := { loaded := fun _ => false, perfFactor := 1 }

/-- The paid job is tried first, though the test job has the lower score of the two. -/
theorem paid_job_tried_first :
    (tried 1248000 (fun _ => coolReading) [waiting 1 .test none, waiting 2 .api (some .paid)]).map
        Candidate.uuid = [2, 1] ∧
      (waiting 1 .test none).scoreByWait 1248000 enqueuedAt coolReading <
        (waiting 2 .api (some .paid)).scoreByWait 1248000 enqueuedAt coolReading ∧
      ¬ TriedByWait 1248000 enqueuedAt (fun _ => coolReading)
        [waiting 1 .test none, waiting 2 .api (some .paid)] := by
  have hfirst : (waiting 2 .api (some .paid)).finalScore 1248000 coolReading.loaded
      coolReading.perfFactor <
        (waiting 1 .test none).finalScore 1248000 coolReading.loaded coolReading.perfFactor := by
    norm_num [Candidate.finalScore, waiting, enqueuedAt, tierBonus, coolReading, TIER_BONUS_PAID,
      TIER_BONUS_TEST]
  have hwaited : (waiting 1 .test none).scoreByWait 1248000 enqueuedAt coolReading <
      (waiting 2 .api (some .paid)).scoreByWait 1248000 enqueuedAt coolReading := by
    norm_num [scoreByWait, finalScoreOfTests, localityBonus, waitedSince, waiting, enqueuedAt,
      tierBonus, coolReading, TIER_BONUS_PAID, TIER_BONUS_TEST]
  have htried : tried 1248000 (fun _ => coolReading)
      [waiting 1 .test none, waiting 2 .api (some .paid)] =
        [waiting 2 .api (some .paid), waiting 1 .test none] := by
    rw [tried, List.insertionSort_cons, List.insertionSort_cons, List.insertionSort_nil,
      List.orderedInsert_nil, List.orderedInsert_cons, if_neg (not_le.mpr hfirst),
      List.orderedInsert_nil]
  refine ⟨by rw [htried]; rfl, hwaited, fun h => ?_⟩
  have hsorted := h.1
  rw [htried, List.pairwise_pair] at hsorted
  exact hsorted.not_gt hwaited

end Candidate
end Veronex
