import Veronex.Foundation.StableSort
import Veronex.Inference.UseCase
import Veronex.Queue.Scripts

/-! # Overdue jobs

`promote_overdue_pass` of `infrastructure/outbound/queue_maintenance.rs`, with the scores of `submit`.
The entries an `HSCAN` meets and the answers of `ZADD` are Valkey's.

`overdue_first`: after a pass the overdue jobs are at the front, in the order they were enqueued in.
-/
namespace Veronex
set_option autoImplicit false
open Concurrency

def TIER_EXPIRE_SECS : ℕ := 250
def EMERGENCY_BONUS_MS : Millis := 300000

namespace Queue

/-- `ZADD XX` -/
def zaddXx (q : Queue) (jobId : Uuid) (score : ℕ) : Queue :=
  if jobId ∈ q.zset then { q with zset := q.zset.insert jobId score } else q

def isOverdue (nowMs enqueueAtMs : Millis) : Bool := TIER_EXPIRE_SECS * 1000 < nowMs - enqueueAtMs

/-- What the pass does for an entry of `queue:enqueue_at`; a `ZADD` that fails is ignored. -/
def promoteEntry (nowMs : Millis) (zaddOk : Uuid → Bool) (q : Queue) (entry : Uuid × Millis) :
    Queue :=
  if isOverdue nowMs entry.2 then
    if zaddOk entry.1 then q.zaddXx entry.1 (entry.2 - EMERGENCY_BONUS_MS) else q
  else q

/-- The pages of an `HSCAN`, up to one that is not answered, and whether all were. -/
def promoteOverduePass (nowMs : Millis) (zaddOk : Uuid → Bool) :
    List (Option (List (Uuid × Millis))) → Queue → Queue × Bool
  | [], q => (q, true)
  | none :: _, q => (q, false)
  | some page :: pages, q =>
    promoteOverduePass nowMs zaddOk pages (page.foldl (promoteEntry nowMs zaddOk) q)

/-- The order of a sorted set: by score, then by id. -/
def ZsetLe (a b : Uuid × ℕ) : Prop := a.2 < b.2 ∨ a.2 = b.2 ∧ a.1 ≤ b.1

instance : DecidableRel ZsetLe := fun a b => inferInstanceAs (Decidable (a.2 < b.2 ∨ _))

/-- `ZRANGE queue:zset 0 -1` -/
def zrange (q : Queue) : List (Uuid × ℕ) :=
  (q.zset.keys.filterMap fun id => (q.zset.lookup id).map fun score => (id, score)).insertionSort
    ZsetLe

def Precedes (q : Queue) (a b : Uuid) : Prop := [a, b].Sublist (q.zrange.map Prod.fst)

instance (q : Queue) (a b : Uuid) : Decidable (q.Precedes a b) :=
  inferInstanceAs (Decidable ([a, b].Sublist _))

/-! ## A pass -/

/-- The entries of the pages before one that is not answered. -/
def scanned : List (Option (List (Uuid × Millis))) → List (Uuid × Millis)
  | [] => []
  | none :: _ => []
  | some page :: pages => page ++ scanned pages

/-- The entries met are entries of the hash. -/
def Meets (q : Queue) (pages : List (Option (List (Uuid × Millis)))) : Prop :=
  ∀ e ∈ scanned pages, q.enqueueAt.lookup e.1 = some e.2

instance (q : Queue) (pages : List (Option (List (Uuid × Millis)))) : Decidable (q.Meets pages) :=
  inferInstanceAs (Decidable (∀ e ∈ scanned pages, q.enqueueAt.lookup e.1 = some e.2))

/-- The score of a job whose entry has been met. -/
def promotedScore (q : Queue) (nowMs : Millis) (zaddOk : Uuid → Bool) (id : Uuid) (score : ℕ) : ℕ :=
  let enqueueAtMs := (q.enqueueAt.lookup id).getD 0
  if isOverdue nowMs enqueueAtMs && zaddOk id then enqueueAtMs - EMERGENCY_BONUS_MS else score

section Pass
variable {q : Queue} {id : Uuid} {nowMs : Millis} {zaddOk : Uuid → Bool}
  {pages : List (Option (List (Uuid × Millis)))}

theorem zaddXx_lookup (q : Queue) (jobId id : Uuid) (score : ℕ) :
    (q.zaddXx jobId score).zset.lookup id =
      (q.zset.lookup id).map fun old => if id = jobId then score else old := by
  unfold zaddXx
  by_cases hmem : jobId ∈ q.zset
  · rw [if_pos hmem]
    by_cases hid : id = jobId
    · subst hid
      obtain ⟨old, hold⟩ := Option.isSome_iff_exists.mp (AList.lookup_isSome.mpr hmem)
      simp [AList.lookup_insert, hold]
    · simp [AList.lookup_insert_ne hid, hid]
  · rw [if_neg hmem]
    by_cases hid : id = jobId
    · subst hid
      rw [AList.lookup_eq_none.mpr hmem]
      rfl
    · simp [hid]

theorem promoteEntry_enqueueAt (q : Queue) (nowMs : Millis) (zaddOk : Uuid → Bool)
    (e : Uuid × Millis) :
    (q.promoteEntry nowMs zaddOk e).enqueueAt = q.enqueueAt := by
  unfold promoteEntry zaddXx
  split
  · split
    · split
      · rfl
      · rfl
    · rfl
  · rfl

theorem promoteEntry_lookup {e : Uuid × Millis} (hmet : q.enqueueAt.lookup e.1 = some e.2)
    (id : Uuid) : (q.promoteEntry nowMs zaddOk e).zset.lookup id =
      (q.zset.lookup id).map fun old =>
        if id = e.1 then q.promotedScore nowMs zaddOk id old else old := by
  have hkept : (q.zset.lookup id).map (fun old =>
      if id = e.1 then if isOverdue nowMs e.2 && zaddOk e.1 then e.2 - EMERGENCY_BONUS_MS else old
      else old) = (q.promoteEntry nowMs zaddOk e).zset.lookup id := by
    unfold promoteEntry
    cases hdue : isOverdue nowMs e.2 with
    | false => simp
    | true =>
      cases hok : zaddOk e.1 with
      | false => simp
      | true => simp [zaddXx_lookup]
  rw [← hkept]
  refine congrArg (fun f => (q.zset.lookup id).map f) ?_
  funext old
  by_cases hid : id = e.1
  · subst hid
    simp [promotedScore, hmet]
  · simp [hid]

theorem promotedScore_twice (q : Queue) (nowMs : Millis) (zaddOk : Uuid → Bool) (id : Uuid)
    (old : ℕ) : q.promotedScore nowMs zaddOk id (q.promotedScore nowMs zaddOk id old) =
      q.promotedScore nowMs zaddOk id old := by
  unfold promotedScore
  dsimp only
  split
  · rfl
  · rfl

theorem foldl_promoteEntry (entries : List (Uuid × Millis))
    (hmet : ∀ e ∈ entries, q.enqueueAt.lookup e.1 = some e.2) :
    (entries.foldl (promoteEntry nowMs zaddOk) q).enqueueAt = q.enqueueAt ∧
      ∀ id, (entries.foldl (promoteEntry nowMs zaddOk) q).zset.lookup id =
        (q.zset.lookup id).map fun old =>
          if id ∈ entries.map Prod.fst then q.promotedScore nowMs zaddOk id old else old := by
  induction entries generalizing q with
  | nil => simp
  | cons e entries ih =>
    have hsame := q.promoteEntry_enqueueAt nowMs zaddOk e
    obtain ⟨henqueueAt, hlookup⟩ := ih (q := q.promoteEntry nowMs zaddOk e) fun e' he' => by
      rw [hsame]
      exact hmet e' (List.mem_cons_of_mem _ he')
    refine ⟨henqueueAt.trans hsame, fun id => ?_⟩
    rw [List.foldl_cons, hlookup, promoteEntry_lookup (hmet e (List.mem_cons_self ..)),
      Option.map_map]
    refine congrArg (fun f => (q.zset.lookup id).map f) ?_
    funext old
    have hscore : ∀ old, (q.promoteEntry nowMs zaddOk e).promotedScore nowMs zaddOk id old =
        q.promotedScore nowMs zaddOk id old := by
      intro old
      rw [promotedScore, hsame, promotedScore]
    have hmem : id ∈ (e :: entries).map Prod.fst ↔ id = e.1 ∨ id ∈ entries.map Prod.fst :=
      List.mem_cons
    simp only [hmem, hscore, Function.comp_apply]
    by_cases hid : id = e.1
    · rw [if_pos hid, if_pos (Or.inl hid)]
      split
      · exact promotedScore_twice ..
      · rfl
    · simp only [hid, if_false, false_or]

theorem promoteOverduePass_eq (pages : List (Option (List (Uuid × Millis)))) (q : Queue) :
    (promoteOverduePass nowMs zaddOk pages q).1 =
      (scanned pages).foldl (promoteEntry nowMs zaddOk) q := by
  induction pages generalizing q with
  | nil => rfl
  | cons page pages ih =>
    cases page with
    | none => rfl
    | some page => rw [promoteOverduePass, ih, scanned, List.foldl_append]

/-- What a pass does to the scores. -/
theorem promoteOverduePass_lookup (hmeets : q.Meets pages) (id : Uuid) :
    (promoteOverduePass nowMs zaddOk pages q).1.zset.lookup id =
      (q.zset.lookup id).map fun old =>
        if id ∈ (scanned pages).map Prod.fst then q.promotedScore nowMs zaddOk id old else old := by
  rw [promoteOverduePass_eq]
  exact (foldl_promoteEntry _ hmeets).2 id

theorem promoteOverduePass_enqueueAt (hmeets : q.Meets pages) :
    (promoteOverduePass nowMs zaddOk pages q).1.enqueueAt = q.enqueueAt := by
  rw [promoteOverduePass_eq]
  exact (foldl_promoteEntry _ hmeets).1

end Pass

/-! ## The scores of the queue -/

/-- The queues that enqueues with the score of `submit`, dequeues and passes lead to. -/
inductive Produced : Queue → Prop
  | empty : Produced Queue.empty
  /-- The clock is past the first five minutes of 1970. -/
  | enqueue {q : Queue} (h : Produced q) (id : Uuid) (source : JobSource) (keyTier : Option KeyTier)
      (model : String) (nowMs : Millis) (hclock : TIER_BONUS_PAID ≤ nowMs) :
      Produced (q.zsetEnqueue id (nowMs - tierBonus source keyTier) model nowMs MAX_QUEUE_SIZE
        MAX_QUEUE_PER_MODEL).1
  | dequeue {q : Queue} (h : Produced q) (id : Uuid) (model : String) :
      Produced (q.dequeue id model)
  | promote {q : Queue} (h : Produced q) (nowMs : Millis) (zaddOk : Uuid → Bool)
      (pages : List (Option (List (Uuid × Millis)))) (hmeets : q.Meets pages) :
      Produced (promoteOverduePass nowMs zaddOk pages q).1

/-- The score of every job is its time less a bonus, which is at most the emergency bonus. -/
def Scored (q : Queue) : Prop :=
  ∀ id score, q.zset.lookup id = some score →
    ∃ enqueueAtMs, q.enqueueAt.lookup id = some enqueueAtMs ∧
      EMERGENCY_BONUS_MS ≤ enqueueAtMs ∧ enqueueAtMs - EMERGENCY_BONUS_MS ≤ score

theorem tierBonus_le (source : JobSource) (keyTier : Option KeyTier) :
    tierBonus source keyTier ≤ EMERGENCY_BONUS_MS := by
  unfold tierBonus
  split
  · decide
  · decide
  · decide

section Runs
variable {q : Queue} {nowMs : Millis} {zaddOk : Uuid → Bool}
  {pages : List (Option (List (Uuid × Millis)))}

theorem Scored.enqueue (h : q.Scored) (id : Uuid) {score : ℕ} (model : String)
    (hclock : EMERGENCY_BONUS_MS ≤ nowMs) (hscore : nowMs - EMERGENCY_BONUS_MS ≤ score)
    (maxSize : ℕ) (maxPerModel : ℤ) :
    (q.zsetEnqueue id score model nowMs maxSize maxPerModel).1.Scored := by
  rw [zsetEnqueue_eq]
  split
  · intro id' score' hlookup
    by_cases hid : id' = id
    · subst hid
      obtain rfl : score = score' := by simpa [enqueued, AList.lookup_insert] using hlookup
      exact ⟨nowMs, AList.lookup_insert .., hclock, hscore⟩
    · rw [enqueued, AList.lookup_insert_ne hid] at hlookup
      obtain ⟨enqueueAtMs, hentry, hbounds⟩ := h id' score' hlookup
      exact ⟨enqueueAtMs, (AList.lookup_insert_ne hid).trans hentry, hbounds⟩
  · exact h

theorem Scored.dequeue (h : q.Scored) (id : Uuid) (model : String) :
    (q.dequeue id model).Scored := by
  intro id' score hlookup
  by_cases hid : id' = id
  · rw [hid, Queue.dequeue, AList.lookup_erase] at hlookup
    cases hlookup
  · rw [Queue.dequeue, AList.lookup_erase_ne hid] at hlookup
    obtain ⟨enqueueAtMs, hentry, hbounds⟩ := h id' score hlookup
    exact ⟨enqueueAtMs, (AList.lookup_erase_ne hid).trans hentry, hbounds⟩

theorem Scored.promotedScore_bounds (h : q.Scored) (nowMs : Millis) (zaddOk : Uuid → Bool)
    {id : Uuid} {old : ℕ} (hold : q.zset.lookup id = some old) : ∃ enqueueAtMs,
      q.enqueueAt.lookup id = some enqueueAtMs ∧ EMERGENCY_BONUS_MS ≤ enqueueAtMs ∧
        enqueueAtMs - EMERGENCY_BONUS_MS ≤ q.promotedScore nowMs zaddOk id old ∧
        q.promotedScore nowMs zaddOk id old ≤ old := by
  obtain ⟨enqueueAtMs, hentry, hclock, hbound⟩ := h id old hold
  refine ⟨enqueueAtMs, hentry, hclock, ?_⟩
  rw [promotedScore, hentry, Option.getD_some]
  split
  · exact ⟨le_rfl, hbound⟩
  · exact ⟨hbound, le_rfl⟩

theorem Scored.promote (h : q.Scored) (hmeets : q.Meets pages) :
    (promoteOverduePass nowMs zaddOk pages q).1.Scored := by
  intro id score hlookup
  rw [promoteOverduePass_lookup hmeets, Option.map_eq_some_iff] at hlookup
  obtain ⟨old, hold, hscore⟩ := hlookup
  rw [promoteOverduePass_enqueueAt hmeets]
  split at hscore
  · obtain ⟨enqueueAtMs, hentry, hclock, hbound, -⟩ :=
      h.promotedScore_bounds nowMs zaddOk hold
    exact ⟨enqueueAtMs, hentry, hclock, hscore ▸ hbound⟩
  · exact hscore ▸ h id old hold

theorem Produced.scored (h : q.Produced) : q.Scored := by
  induction h with
  | empty =>
    intro id score hlookup
    rw [Queue.empty, AList.lookup_empty] at hlookup
    cases hlookup
  | enqueue _ id source keyTier model nowMs hclock ih =>
    have hbonus := tierBonus_le source keyTier
    have hsame : TIER_BONUS_PAID = EMERGENCY_BONUS_MS := rfl
    exact ih.enqueue id model (hsame ▸ hclock) (Nat.sub_le_sub_left hbonus nowMs) _ _
  | dequeue _ id model ih => exact ih.dequeue id model
  | promote _ nowMs zaddOk pages hmeets ih => exact ih.promote hmeets

/-! ## The order -/

instance : Std.Total ZsetLe where
  total a b := by
    rcases lt_trichotomy a.2 b.2 with hlt | heq | hgt
    · exact .inl (.inl hlt)
    · exact (le_total a.1 b.1).imp (fun hid => .inr ⟨heq, hid⟩) fun hid => .inr ⟨heq.symm, hid⟩
    · exact .inr (.inl hgt)

instance : IsTrans (Uuid × ℕ) ZsetLe where
  trans a b c hab hbc := by
    rcases hab with hab | ⟨hab, hidAB⟩
    · rcases hbc with hbc | ⟨hbc, -⟩
      · exact .inl (hab.trans hbc)
      · exact .inl (hbc ▸ hab)
    · rcases hbc with hbc | ⟨hbc, hidBC⟩
      · exact .inl (hab ▸ hbc)
      · exact .inr ⟨hab.trans hbc, hidAB.trans hidBC⟩

theorem mem_zrange {id : Uuid} {score : ℕ} :
    (id, score) ∈ q.zrange ↔ q.zset.lookup id = some score := by
  rw [zrange, List.mem_insertionSort, List.mem_filterMap]
  constructor
  · rintro ⟨id', -, hentry⟩
    obtain ⟨score', hscore, hpair⟩ := Option.map_eq_some_iff.mp hentry
    cases hpair
    exact hscore
  · intro hscore
    have hmem : id ∈ q.zset := AList.lookup_isSome.mp (by rw [hscore]; rfl)
    exact ⟨id, AList.mem_keys.mp hmem, by rw [hscore]; rfl⟩

/-- A job with the lower score is at the front. -/
theorem precedes_of_score_lt {a b : Uuid} {scoreA scoreB : ℕ}
    (ha : q.zset.lookup a = some scoreA) (hb : q.zset.lookup b = some scoreB)
    (hlt : scoreA < scoreB) : q.Precedes a b := by
  have hne : (a, scoreA) ≠ (b, scoreB) := fun h => hlt.ne (congrArg Prod.snd h)
  rcases pair_sublist_or (mem_zrange.mpr ha) (mem_zrange.mpr hb) hne with hsub | hsub
  · exact hsub.map Prod.fst
  · have hle : ZsetLe (b, scoreB) (a, scoreA) :=
      List.pairwise_iff_forall_sublist.mp (List.pairwise_insertionSort ZsetLe _) hsub
    unfold ZsetLe at hle
    omega

/-- After a pass that meets every entry, every promotion of which is made. -/
theorem promoted_lookup (hmeets : q.Meets pages)
    (hscan : ∀ id enqueueAtMs, q.enqueueAt.lookup id = some enqueueAtMs →
      (id, enqueueAtMs) ∈ scanned pages)
    (hok : ∀ id, zaddOk id = true) (hscored : q.Scored) {id : Uuid} {score : ℕ}
    (hlookup : (promoteOverduePass nowMs zaddOk pages q).1.zset.lookup id = some score) :
    ∃ enqueueAtMs, (promoteOverduePass nowMs zaddOk pages q).1.enqueueAt.lookup id =
        some enqueueAtMs ∧ EMERGENCY_BONUS_MS ≤ enqueueAtMs ∧
      enqueueAtMs - EMERGENCY_BONUS_MS ≤ score ∧
      (isOverdue nowMs enqueueAtMs = true → score = enqueueAtMs - EMERGENCY_BONUS_MS) := by
  rw [promoteOverduePass_enqueueAt hmeets]
  rw [promoteOverduePass_lookup hmeets, Option.map_eq_some_iff] at hlookup
  obtain ⟨old, hold, hscore⟩ := hlookup
  obtain ⟨enqueueAtMs, hentry, hclock, hbound, -⟩ := hscored.promotedScore_bounds nowMs zaddOk hold
  have hmet : id ∈ (scanned pages).map Prod.fst :=
    List.mem_map.mpr ⟨(id, enqueueAtMs), hscan id enqueueAtMs hentry, rfl⟩
  rw [if_pos hmet] at hscore
  refine ⟨enqueueAtMs, hentry, hclock, hscore ▸ hbound, fun hdue => ?_⟩
  rw [← hscore, promotedScore, hentry, Option.getD_some, hdue, hok, Bool.and_self, if_pos rfl]

/-- An overdue job is at the front of a job that was enqueued later. -/
theorem overdue_first (h : q.Produced) (hmeets : q.Meets pages)
    (hscan : ∀ id enqueueAtMs, q.enqueueAt.lookup id = some enqueueAtMs →
      (id, enqueueAtMs) ∈ scanned pages)
    (hok : ∀ id, zaddOk id = true) :
    let after := (promoteOverduePass nowMs zaddOk pages q).1
    (∀ id score, after.zset.lookup id = some score →
      ∃ old, q.zset.lookup id = some old ∧ score ≤ old) ∧
    (∀ id ∈ after.zset, ∃ enqueueAtMs, after.enqueueAt.lookup id = some enqueueAtMs) ∧
    ∀ a b enqueueA enqueueB, a ∈ after.zset → b ∈ after.zset →
      after.enqueueAt.lookup a = some enqueueA → after.enqueueAt.lookup b = some enqueueB →
      isOverdue nowMs enqueueA = true →
      (isOverdue nowMs enqueueB = false ∨ enqueueA < enqueueB) → after.Precedes a b := by
  intro after
  refine ⟨fun id score hlookup => ?_, fun id hmem => ?_, ?_⟩
  · rw [promoteOverduePass_lookup hmeets, Option.map_eq_some_iff] at hlookup
    obtain ⟨old, hold, hscore⟩ := hlookup
    refine ⟨old, hold, ?_⟩
    obtain ⟨_, -, -, -, hle⟩ := h.scored.promotedScore_bounds nowMs zaddOk hold
    split at hscore
    · exact hscore ▸ hle
    · exact hscore.ge
  · obtain ⟨score, hlookup⟩ := Option.isSome_iff_exists.mp (AList.lookup_isSome.mpr hmem)
    obtain ⟨enqueueAtMs, hentry, -⟩ := promoted_lookup hmeets hscan hok h.scored hlookup
    exact ⟨enqueueAtMs, hentry⟩
  · intro a b enqueueA enqueueB hmemA hmemB hentryA hentryB hdueA hlater
    obtain ⟨scoreA, hscoreA⟩ := Option.isSome_iff_exists.mp (AList.lookup_isSome.mpr hmemA)
    obtain ⟨scoreB, hscoreB⟩ := Option.isSome_iff_exists.mp (AList.lookup_isSome.mpr hmemB)
    obtain ⟨enqueueA', hentryA', hclockA, -, hpromoted⟩ :=
      promoted_lookup hmeets hscan hok h.scored hscoreA
    obtain ⟨enqueueB', hentryB', -, hboundB, -⟩ :=
      promoted_lookup hmeets hscan hok h.scored hscoreB
    obtain rfl : enqueueA = enqueueA' := Option.some.inj (hentryA.symm.trans hentryA')
    obtain rfl : enqueueB = enqueueB' := Option.some.inj (hentryB.symm.trans hentryB')
    have hlt : enqueueA < enqueueB := by
      refine hlater.elim (fun hnot => ?_) id
      unfold isOverdue at hdueA hnot
      have hnot' := not_lt.mp (of_decide_eq_false hnot)
      have hwaits := hnot'.trans_lt (of_decide_eq_true hdueA)
      exact not_le.mp fun hle => hwaits.not_ge (Nat.sub_le_sub_left hle nowMs)
    refine precedes_of_score_lt hscoreA hscoreB ?_
    rw [hpromoted hdueA]
    exact (Nat.sub_lt_sub_right hclockA hlt).trans_le hboundB

/-- A test job, a paid job 240 s later, and a pass 255 s after the first. -/
def testThenPaid : Queue :=
  ((Queue.empty.zsetEnqueue 2 (1000000 - tierBonus .test none) "llama" 1000000 MAX_QUEUE_SIZE
    MAX_QUEUE_PER_MODEL).1.zsetEnqueue 1 (1240000 - tierBonus .api (some .paid)) "llama" 1240000
    MAX_QUEUE_SIZE MAX_QUEUE_PER_MODEL).1

theorem testThenPaid_produced : testThenPaid.Produced :=
  .enqueue (.enqueue .empty 2 .test none "llama" 1000000 (by decide)) 1 .api (some .paid) "llama"
    1240000 (by decide)

theorem test_job_overtakes : testThenPaid.Precedes 1 2 ∧
    (promoteOverduePass 1255000 (fun _ => true) [some [(1, 1240000), (2, 1000000)]]
      testThenPaid).1.Precedes 2 1 := by
  refine ⟨by decide, ?_⟩
  have hscan : ∀ id enqueueAtMs, testThenPaid.enqueueAt.lookup id = some enqueueAtMs →
      (id, enqueueAtMs) ∈ scanned [some [(1, 1240000), (2, 1000000)]] := by
    intro id enqueueAtMs hentry
    have hmem : (⟨id, enqueueAtMs⟩ : Σ _ : Uuid, Millis) ∈ testThenPaid.enqueueAt.entries :=
      AList.mem_lookup_iff.mp hentry
    have hentries : testThenPaid.enqueueAt.entries = [⟨1, 1240000⟩, ⟨2, 1000000⟩] := by decide
    rw [hentries] at hmem
    simpa [scanned] using hmem
  exact (overdue_first testThenPaid_produced (by decide) hscan fun _ => rfl).2.2 2 1 1000000 1240000
    (by decide) (by decide) (by decide) (by decide) (by decide) (.inl (by decide))

end Runs
end Queue
end Veronex
