import Veronex.Queue.DemandResync

/-! # The demand counters after a pass of its own

`demand_resync_pass` with no queue operation beside it. A model that has queued jobs gets the number
of times the scan returned one of them; a counter of any other model is not touched
(`resync_sets`). The counters are right exactly when those are zero and no job is returned twice:
`resync_exact_iff`.
-/
namespace Veronex
set_option autoImplicit false

/-- Only the pass runs. -/
def OnlyPass : ResyncState → ResyncAction → Prop
  | _, .pass _ => True
  | _, .call _ => False

/-- What the pages return of a queue that does not change. -/
def Queue.readPages (q : Queue) (pages : List Page) : Found :=
  pages.flatMap fun p => (q.zset.keys.filter p).map fun id => (id, q.model.lookup id)

/-- The queued jobs of a model. -/
def Queue.jobsOf (q : Queue) (m : String) : List Uuid :=
  q.zset.keys.filter fun id => q.model.lookup id = some m

/-- The counters a pass leaves. -/
def ResyncScan.counters (scan : ResyncScan) (q : Queue) (m : String) : ℤ :=
  if q.jobsOf m = [] then q.demand m else modelCount (q.readPages scan.zscan) m

section Pages
variable {q : Queue} {m : String}

theorem length_jobsOf : (q.jobsOf m).length = q.queued m := by
  rw [Queue.jobsOf, Queue.queued, List.countP_eq_length_filter]

theorem queued_eq_zero_iff : q.queued m = 0 ↔ q.jobsOf m = [] := by
  rw [← length_jobsOf, List.length_eq_zero_iff]

theorem readPages_append (front back : List Page) :
    q.readPages (front ++ back) = q.readPages front ++ q.readPages back :=
  List.flatMap_append

theorem readPages_singleton (p : Page) :
    q.readPages [p] = (q.zset.keys.filter p).map fun id => (id, q.model.lookup id) :=
  List.flatMap_singleton ..

/-- A page adds the jobs of the model it returns. -/
theorem modelCount_page (p : Page) : modelCount (q.readPages [p]) m = (q.jobsOf m).countP p := by
  rw [readPages_singleton, modelCount, Queue.jobsOf, List.countP_map, List.countP_filter,
    List.countP_filter]
  refine List.countP_congr fun id _ => ?_
  simp [and_comm]

theorem sum_countP_cons (p : Page) (pages : List Page) (ids : List Uuid) :
    (ids.map fun id => (p :: pages).countP (· id)).sum =
      ids.countP p + (ids.map fun id => pages.countP (· id)).sum := by
  induction ids with
  | nil => rfl
  | cons id ids ih =>
    rw [List.map_cons, List.sum_cons, List.map_cons, List.sum_cons, ih, List.countP_cons,
      List.countP_cons]
    omega

/-- A model is counted as often as its jobs are returned. -/
theorem modelCount_readPages (pages : List Page) :
    modelCount (q.readPages pages) m = ((q.jobsOf m).map fun id => pages.countP (· id)).sum := by
  induction pages with
  | nil => simp [Queue.readPages, modelCount]
  | cons p pages ih =>
    have hsplit : modelCount (q.readPages ([p] ++ pages)) m =
        modelCount (q.readPages [p]) m + modelCount (q.readPages pages) m := by
      rw [readPages_append, modelCount, List.countP_append]
      rfl
    rw [← List.singleton_append, hsplit, modelCount_page, ih, List.singleton_append,
      sum_countP_cons]

/-- Numbers that are at least one add up to their number only if all are one. -/
theorem sum_eq_length_iff {ids : List Uuid} {f : Uuid → ℕ} (h : ∀ id ∈ ids, 1 ≤ f id) :
    ids.length ≤ (ids.map f).sum ∧
      ((ids.map f).sum = ids.length ↔ ∀ id ∈ ids, f id = 1) := by
  induction ids with
  | nil => simp
  | cons id ids ih =>
    obtain ⟨hid, hids⟩ := List.forall_mem_cons.mp h
    obtain ⟨hle, hiff⟩ := ih hids
    rw [List.map_cons, List.sum_cons, List.length_cons, List.forall_mem_cons, ← hiff]
    omega

/-- A model with queued jobs gets their number exactly when each of them is returned once. -/
theorem counters_eq_queued_iff {scan : ResyncScan} :
    scan.counters q m = q.queued m ↔
      (q.queued m = 0 → q.demand m = 0) ∧
        ∀ id ∈ q.jobsOf m, (scan.zscan.countP fun p => p id) = 1 := by
  have hreturned : ∀ id ∈ q.jobsOf m, 1 ≤ scan.zscan.countP fun p => p id := by
    intro id _
    obtain ⟨p, hp, hid⟩ := scan.zscan_covers id
    exact List.countP_pos_iff.mpr ⟨p, hp, hid⟩
  have hsum := (sum_eq_length_iff hreturned).2
  rw [← modelCount_readPages, length_jobsOf] at hsum
  rw [← hsum, ResyncScan.counters]
  by_cases hnone : q.jobsOf m = []
  · have hzero : q.queued m = 0 := queued_eq_zero_iff.mpr hnone
    have hcount : modelCount (q.readPages scan.zscan) m = 0 := by
      rw [modelCount_readPages, hnone]
      rfl
    simp [hnone, hzero, hcount]
  · have hpos : q.queued m ≠ 0 := fun hzero => hnone (queued_eq_zero_iff.mp hzero)
    rw [if_neg hnone, Int.natCast_inj]
    exact (and_iff_right fun hzero => absurd hzero hpos).symm

end Pages

/-! ## The pass -/

/-- The queued jobs and their models are those of `q`. -/
structure Queue.SameJobs (q q' : Queue) : Prop where
  zset : q'.zset = q.zset
  model : ∀ id ∈ q.zset, q'.model.lookup id = q.model.lookup id

/-- Where the pass over `q` is and the counters at that point. -/
def ResyncPc.Follows (scan : ResyncScan) (q : Queue) (demand : String → ℤ) : ResyncPc → Prop
  | .start => demand = q.demand
  | .zscan pages found =>
    demand = q.demand ∧ ∃ front, front ++ pages = scan.zscan ∧ found = q.readPages front
  | .hmget ids pages found =>
    demand = q.demand ∧ ∃ front p, front ++ p :: pages = scan.zscan ∧
      ids = q.zset.keys.filter p ∧ found = q.readPages front
  | .setDemand todo found =>
    found = q.readPages scan.zscan ∧ (∀ m ∈ todo, q.jobsOf m ≠ []) ∧
      ∀ m, demand m = if m ∈ todo then q.demand m else scan.counters q m
  | .hscan _ _ seen => seen = zsetSet (q.readPages scan.zscan) ∧ demand = scan.counters q
  | .hdel _ stale _ seen =>
    (∀ id ∈ q.zset, id ∉ stale) ∧ seen = zsetSet (q.readPages scan.zscan) ∧
      demand = scan.counters q
  | .done => demand = scan.counters q

section Pass
variable {modelOf : Uuid → ModelName} {scan : ResyncScan} {q q' : Queue} {m : String}

theorem mem_zsetSet_readPages {id : Uuid} (hid : id ∈ q.zset) :
    id ∈ zsetSet (q.readPages scan.zscan) := by
  obtain ⟨p, hp, hpid⟩ := scan.zscan_covers id
  have hkeys : id ∈ q.zset.keys.filter p := List.mem_filter.mpr ⟨AList.mem_keys.mp hid, hpid⟩
  refine List.mem_map.mpr ⟨(id, q.model.lookup id), ?_, rfl⟩
  exact List.mem_flatMap.mpr ⟨p, hp, List.mem_map.mpr ⟨id, hkeys, rfl⟩⟩

/-- The models that are counted are those with queued jobs. -/
theorem mem_counted_iff :
    m ∈ ((q.readPages scan.zscan).filterMap Prod.snd).dedup ↔ q.jobsOf m ≠ [] := by
  rw [List.mem_dedup, List.mem_filterMap]
  constructor
  · rintro ⟨⟨id, model⟩, hmem, rfl⟩
    obtain ⟨p, -, hmap⟩ := List.mem_flatMap.mp hmem
    obtain ⟨j, hj, hpair⟩ := List.mem_map.mp hmap
    obtain ⟨rfl, hmodel⟩ := Prod.mk.inj hpair
    have hjob : j ∈ q.jobsOf m :=
      List.mem_filter.mpr ⟨(List.mem_filter.mp hj).1, by simpa using hmodel⟩
    exact List.ne_nil_of_mem hjob
  · intro hsome
    obtain ⟨id, hid⟩ := List.exists_mem_of_ne_nil _ hsome
    obtain ⟨hkeys, hmodel⟩ := List.mem_filter.mp hid
    obtain ⟨p, hp, hpid⟩ := scan.zscan_covers id
    refine ⟨(id, q.model.lookup id), ?_, by simpa using hmodel⟩
    have hpage : id ∈ q.zset.keys.filter p := List.mem_filter.mpr ⟨hkeys, hpid⟩
    exact List.mem_flatMap.mpr ⟨p, hp, List.mem_map.mpr ⟨id, hpage, rfl⟩⟩

theorem Queue.SameJobs.map_lookup (h : q.SameJobs q') (p : Page) :
    ((q.zset.keys.filter p).map fun id => (id, q'.model.lookup id)) = q.readPages [p] := by
  rw [readPages_singleton]
  refine List.map_congr_left fun id hid => ?_
  rw [h.model id (AList.mem_keys.mpr (List.mem_filter.mp hid).1)]

theorem Queue.SameJobs.hdel (h : q.SameJobs q') (hash : SideHash) {stale : List Uuid}
    (hstale : ∀ id ∈ q.zset, id ∉ stale) : q.SameJobs (q'.hdel hash stale) := by
  refine ⟨(zset_hdel hash stale).trans h.zset, fun id hid => ?_⟩
  rw [← h.model id hid]
  cases hash with
  | model => exact lookup_foldl_erase stale q'.model (hstale id hid)
  | enqueueAt => rfl

theorem Queue.SameJobs.queued (h : q.SameJobs q') (m : String) : q'.queued m = q.queued m := by
  rw [Queue.queued, Queue.queued, h.zset]
  refine List.countP_congr fun id hid => ?_
  rw [h.model id (AList.mem_keys.mpr hid)]

/-- The scan is over, and no counter is set yet. -/
theorem follows_scanned :
    (ResyncPc.setDemand ((q.readPages scan.zscan).filterMap Prod.snd).dedup
      (q.readPages scan.zscan)).Follows scan q q.demand := by
  refine ⟨rfl, fun m hm => mem_counted_iff.mp hm, fun m => ?_⟩
  split
  · rfl
  · next hout =>
    have hnone : q.jobsOf m = [] := not_not.mp fun hsome => hout (mem_counted_iff.mpr hsome)
    rw [ResyncScan.counters, if_pos hnone]

/-- One more counter is set. -/
theorem follows_set {todo : List String} {found : Found} {demand : String → ℤ} {next : String}
    (h : (ResyncPc.setDemand todo found).Follows scan q demand) (hnext : next ∈ todo) :
    (ResyncPc.setDemand (todo.filter (· ≠ next)) found).Follows scan q
      (Function.update demand next (modelCount found next)) := by
  obtain ⟨hfound, hcounted, hdemand⟩ := h
  refine ⟨hfound, fun m hm => hcounted m (List.mem_filter.mp hm).1, fun m => ?_⟩
  by_cases hm : m = next
  · subst hm
    rw [Function.update_self, if_neg (by simp), ResyncScan.counters, if_neg (hcounted m hnext),
      hfound]
  · rw [Function.update_of_ne hm, hdemand m]
    simp [hm]

/-- One command of the pass. -/
theorem resyncStep_follows (hcard : 50 ≤ q.zcard) (hsame : q.SameJobs q') {pc pc' : ResyncPc}
    {q'' : Queue} {next : String} (h : pc.Follows scan q q'.demand)
    (hstep : resyncStep scan q' next pc = some (q'', pc')) :
    q.SameJobs q'' ∧ pc'.Follows scan q q''.demand := by
  have hkeys : q'.zset.keys = q.zset.keys := congrArg AList.keys hsame.zset
  cases pc with
  | start =>
    obtain ⟨rfl, rfl⟩ := Prod.mk.inj (Option.some.inj hstep)
    have hcard' : ¬ q'.zcard < 50 := by
      rw [Queue.zcard, hkeys]
      exact Nat.not_lt.mpr hcard
    rw [if_neg hcard']
    exact ⟨hsame, h, [], rfl, rfl⟩
  | zscan pages found =>
    obtain ⟨hdemand, front, hfront, hfound⟩ := h
    cases pages with
    | nil =>
      obtain ⟨rfl, rfl⟩ := Prod.mk.inj (Option.some.inj hstep)
      rw [List.append_nil] at hfront
      rw [hdemand, hfound, hfront]
      exact ⟨hsame, follows_scanned⟩
    | cons p pages =>
      obtain ⟨rfl, rfl⟩ := Prod.mk.inj (Option.some.inj hstep)
      rw [hkeys]
      split
      · next hnil =>
        have hpage : q.readPages [p] = [] := by
          rw [readPages_singleton, hnil]
          rfl
        refine ⟨hsame, hdemand, front ++ [p], by simpa using hfront, ?_⟩
        rw [hfound, readPages_append, hpage, List.append_nil]
      · exact ⟨hsame, hdemand, front, p, hfront, rfl, hfound⟩
  | hmget ids pages found =>
    obtain ⟨hdemand, front, p, hfront, rfl, hfound⟩ := h
    obtain ⟨rfl, rfl⟩ := Prod.mk.inj (Option.some.inj hstep)
    refine ⟨hsame, hdemand, front ++ [p], by simpa using hfront, ?_⟩
    rw [hfound, readPages_append, hsame.map_lookup]
  | setDemand todo found =>
    cases todo with
    | nil =>
      obtain ⟨rfl, rfl⟩ := Prod.mk.inj (Option.some.inj hstep)
      obtain ⟨hfound, -, hdemand⟩ := h
      exact ⟨hsame, by rw [hfound], funext fun m => by simpa using hdemand m⟩
    | cons model todo =>
      simp only [resyncStep] at hstep
      split at hstep
      · next hnext =>
        obtain ⟨rfl, rfl⟩ := Prod.mk.inj (Option.some.inj hstep)
        exact ⟨⟨hsame.zset, hsame.model⟩, follows_set h hnext⟩
      · cases hstep
  | hscan hash pages seen =>
    obtain ⟨hseen, hdemand⟩ := h
    cases pages with
    | nil =>
      cases hash with
      | model =>
        obtain ⟨rfl, rfl⟩ := Prod.mk.inj (Option.some.inj hstep)
        exact ⟨hsame, hseen, hdemand⟩
      | enqueueAt =>
        obtain ⟨rfl, rfl⟩ := Prod.mk.inj (Option.some.inj hstep)
        exact ⟨hsame, hdemand⟩
    | cons p pages =>
      obtain ⟨rfl, rfl⟩ := Prod.mk.inj (Option.some.inj hstep)
      split
      · exact ⟨hsame, hseen, hdemand⟩
      · refine ⟨hsame, fun id hid hstale => ?_, hseen, hdemand⟩
        have hunseen := (List.mem_filter.mp hstale).2
        rw [hseen] at hunseen
        simp [mem_zsetSet_readPages hid] at hunseen
  | hdel hash stale pages seen =>
    obtain ⟨hstale, hseen, hdemand⟩ := h
    obtain ⟨rfl, rfl⟩ := Prod.mk.inj (Option.some.inj hstep)
    exact ⟨hsame.hdel hash hstale, hseen, (demand_hdel hash stale).trans hdemand⟩
  | done => cases hstep

/-- A pass of its own leaves the jobs as they are and the counters of `ResyncScan.counters`. -/
theorem resync_sets {x y : ResyncState} (hcard : 50 ≤ x.state.queue.zcard) (hstart : x.pc = .start)
    (hrun : Concurrency.Run (ResyncState.step modelOf scan) OnlyPass x y) (hdone : y.pc = .done) :
    x.state.queue.SameJobs y.state.queue ∧
      y.state.queue.demand = scan.counters x.state.queue := by
  have hfollows : x.state.queue.SameJobs y.state.queue ∧
      y.pc.Follows scan x.state.queue y.state.queue.demand := by
    have hinit : x.pc.Follows scan x.state.queue x.state.queue.demand := by
      rw [hstart]
      rfl
    refine hrun.invariant (I := fun s => x.state.queue.SameJobs s.state.queue ∧
      s.pc.Follows scan x.state.queue s.state.queue.demand) ⟨⟨rfl, fun _ _ => rfl⟩, hinit⟩ ?_
    rintro s t a - ⟨hsame, hfollows⟩ hok hs
    cases a with
    | call c => exact hok.elim
    | pass next =>
      obtain ⟨r, hr, rfl⟩ := Option.map_eq_some_iff.mp hs
      exact resyncStep_follows hcard hsame hfollows hr
  obtain ⟨hsame, hfollows⟩ := hfollows
  rw [hdone] at hfollows
  exact ⟨hsame, hfollows⟩

end Pass

/-! ## A pass ends -/

section Ends
variable (modelOf : Uuid → ModelName) (scan : ResyncScan) {q' : Queue}

/-- The pass gets from one state to another on its own. -/
def Passes (x y : ResyncState) : Prop :=
  Concurrency.Run (ResyncState.step modelOf scan) OnlyPass x y

theorem passes_step (s : QueueState) (pc : ResyncPc) (next : String) {pc' : ResyncPc}
    (h : resyncStep scan s.queue next pc = some (q', pc')) :
    Passes modelOf scan ⟨s, pc⟩ ⟨{ s with queue := q' }, pc'⟩ := by
  refine Concurrency.Run.single (a := .pass next) trivial ?_
  rw [ResyncState.step, h]
  rfl

theorem zscan_ends (pages : List Page) (s : QueueState) (found : Found) :
    ∃ s' found', Passes modelOf scan ⟨s, .zscan pages found⟩ ⟨s', .zscan [] found'⟩ := by
  induction pages generalizing s found with
  | nil => exact ⟨s, found, .refl _⟩
  | cons p pages ih =>
    have hread : Passes modelOf scan ⟨s, .zscan (p :: pages) found⟩ _ := passes_step modelOf scan s _ "" rfl
    split at hread
    · obtain ⟨s', found', hrest⟩ := ih s found
      exact ⟨s', found', hread.trans hrest⟩
    · have hmodels := hread.trans (passes_step modelOf scan s (.hmget _ pages found) "" rfl)
      obtain ⟨s', found', hrest⟩ := ih s _
      exact ⟨s', found', hmodels.trans hrest⟩

theorem setDemand_ends (n : ℕ) (todo : List String) (htodo : todo.length ≤ n) (s : QueueState)
    (found : Found) :
    ∃ s', Passes modelOf scan ⟨s, .setDemand todo found⟩ ⟨s', .setDemand [] found⟩ := by
  induction n generalizing todo s with
  | zero =>
    rw [List.eq_nil_of_length_eq_zero (Nat.le_zero.mp htodo)]
    exact ⟨s, .refl _⟩
  | succ n ih =>
    cases todo with
    | nil => exact ⟨s, .refl _⟩
    | cons m todo =>
      have hset : Passes modelOf scan ⟨s, .setDemand (m :: todo) found⟩
          ⟨{ s with queue := s.queue.setDemand m (modelCount found m) },
            .setDemand ((m :: todo).filter (· ≠ m)) found⟩ := by
        refine passes_step modelOf scan s _ m ?_
        rw [resyncStep, if_pos (List.mem_cons_self ..)]
        rintro ⟨⟩
      have hshort : ((m :: todo).filter (· ≠ m)).length ≤ n := by
        have hle : (todo.filter (· ≠ m)).length ≤ todo.length := List.length_filter_le ..
        rw [List.filter_cons, if_neg (by simp)]
        rw [List.length_cons] at htodo
        omega
      obtain ⟨s', hrest⟩ := ih _ hshort { s with queue := s.queue.setDemand m (modelCount found m) }
      exact ⟨s', hset.trans hrest⟩

theorem hscan_ends (hash : SideHash) (pages : List Page) (s : QueueState) (seen : List Uuid) :
    ∃ s', Passes modelOf scan ⟨s, .hscan hash pages seen⟩ ⟨s', .hscan hash [] seen⟩ := by
  induction pages generalizing s with
  | nil => exact ⟨s, .refl _⟩
  | cons p pages ih =>
    have hread : Passes modelOf scan ⟨s, .hscan hash (p :: pages) seen⟩ _ :=
      passes_step modelOf scan s _ "" (by rw [resyncStep])
    split at hread
    · obtain ⟨s', hrest⟩ := ih s
      exact ⟨s', hread.trans hrest⟩
    · have hdel := hread.trans (passes_step modelOf scan s (.hdel hash _ pages seen) "" rfl)
      obtain ⟨s', hrest⟩ := ih _
      exact ⟨s', hdel.trans hrest⟩

/-- A pass that is left alone ends. -/
theorem resync_ends (s : QueueState) : ∃ s', Passes modelOf scan ⟨s, .start⟩ ⟨s', .done⟩ := by
  have hstart : Passes modelOf scan ⟨s, .start⟩ _ := passes_step modelOf scan s _ "" rfl
  split at hstart
  · exact ⟨s, hstart⟩
  · obtain ⟨s₁, found, hzscan⟩ := zscan_ends modelOf scan scan.zscan s []
    have hread := (hstart.trans hzscan).trans (passes_step modelOf scan s₁ _ "" rfl)
    obtain ⟨s₂, hset⟩ := setDemand_ends modelOf scan _ _ (Nat.le_refl _) s₁ found
    have hcounted := (hread.trans hset).trans (passes_step modelOf scan s₂ _ "" rfl)
    obtain ⟨s₃, hmodel⟩ := hscan_ends modelOf scan .model _ s₂ _
    have hmodels := (hcounted.trans hmodel).trans (passes_step modelOf scan s₃ _ "" rfl)
    obtain ⟨s₄, htimes⟩ := hscan_ends modelOf scan .enqueueAt _ s₃ _
    exact ⟨s₄, (hmodels.trans htimes).trans (passes_step modelOf scan s₄ _ "" rfl)⟩

end Ends

/-! ## When the counters are right -/

/-- After a pass of its own the counters are the numbers of queued jobs exactly when no counter of a
model without jobs was left over and the scan returned no job twice. -/
theorem resync_exact_iff {modelOf : Uuid → ModelName} {scan : ResyncScan} {x y : ResyncState}
    (hcard : 50 ≤ x.state.queue.zcard) (hmodels : ∀ id ∈ x.state.queue.zset, id ∈ x.state.queue.model)
    (hstart : x.pc = .start) (hrun : Passes modelOf scan x y) (hdone : y.pc = .done) :
    (∀ m, y.state.queue.demand m = y.state.queue.queued m) ↔
      (∀ m, x.state.queue.queued m = 0 → x.state.queue.demand m = 0) ∧
        ∀ id ∈ x.state.queue.zset, (scan.zscan.countP fun p => p id) = 1 := by
  obtain ⟨hsame, hdemand⟩ := resync_sets hcard hstart hrun hdone
  have heach : ∀ m, y.state.queue.demand m = y.state.queue.queued m ↔
      (x.state.queue.queued m = 0 → x.state.queue.demand m = 0) ∧
        ∀ id ∈ x.state.queue.jobsOf m, (scan.zscan.countP fun p => p id) = 1 := by
    intro m
    rw [hdemand, hsame.queued m]
    exact counters_eq_queued_iff
  rw [forall_congr' heach, forall_and]
  refine and_congr_right fun _ => ⟨fun h id hid => ?_, fun h m id hid => ?_⟩
  · obtain ⟨m, hm⟩ := Option.isSome_iff_exists.mp (AList.lookup_isSome.mpr (hmodels id hid))
    exact h m id (List.mem_filter.mpr ⟨AList.mem_keys.mp hid, by simpa using hm⟩)
  · exact h id (AList.mem_keys.mpr (List.mem_filter.mp hid).1)

/-- Fifty jobs. -/
def fiftyOf {β : Type} (v : β) : JobMap β :=
  (List.range 50).foldl (fun h id => h.insert id v) ∅

/-- Fifty jobs of one model are queued and these are the counters. -/
def fiftyQueued (demand : String → ℤ) : QueueState :=
  { queue := { zset := fiftyOf 0, enqueueAt := fiftyOf 0, model := fiftyOf "m", demand }, active := ∅ }

theorem fiftyQueued_models (demand : String → ℤ) :
    ∀ id ∈ (fiftyQueued demand).queue.zset, id ∈ (fiftyQueued demand).queue.model := by
  have hkeys : (fiftyOf (0 : ℕ)).keys = (fiftyOf "m").keys := by decide +kernel
  intro id hid
  refine AList.mem_keys.mpr ?_
  rw [← show (fiftyQueued demand).queue.zset.keys = (fiftyQueued demand).queue.model.keys from hkeys]
  exact AList.mem_keys.mp hid

theorem fiftyQueued_zcard (demand : String → ℤ) : 50 ≤ (fiftyQueued demand).queue.zcard := by
  have hlength : (fiftyOf (0 : ℕ)).keys.length = 50 := by decide +kernel
  exact hlength.ge

/-- A counter that has drifted from 50 to 7 is set right. -/
theorem resync_of_drifted : ∃ s, Passes oneModel onePage
      ⟨fiftyQueued fun m => if m = "m" then 7 else 0, .start⟩ ⟨s, .done⟩ ∧
    ∀ m, s.queue.demand m = s.queue.queued m := by
  obtain ⟨s, hs⟩ := resync_ends oneModel onePage (fiftyQueued fun m => if m = "m" then 7 else 0)
  have hexact := resync_exact_iff (fiftyQueued_zcard _) (fiftyQueued_models _) rfl hs rfl
  refine ⟨s, hs, hexact.mpr ⟨fun m hm => if_neg ?_, fun id _ => rfl⟩⟩
  rintro rfl
  revert hm
  decide +kernel

/-- The counter of a model without queued jobs stays at 3. -/
theorem resync_keeps_leftover :
    ¬ ∀ (modelOf : Uuid → ModelName) (scan : ResyncScan) (x y : ResyncState),
      50 ≤ x.state.queue.zcard →
      (∀ id ∈ x.state.queue.zset, id ∈ x.state.queue.model) → x.pc = .start →
      Passes modelOf scan x y → y.pc = .done →
      ∀ m, y.state.queue.demand m = y.state.queue.queued m := by
  intro hall
  obtain ⟨s, hs⟩ := resync_ends oneModel onePage (fiftyQueued fun m => if m = "old" then 3 else 0)
  have hexact := hall _ _ _ _ (fiftyQueued_zcard _) (fiftyQueued_models _) rfl hs rfl "old"
  obtain ⟨hsame, hdemand⟩ := resync_sets (fiftyQueued_zcard _) rfl hs rfl
  have hnone : (fiftyQueued fun m => if m = "old" then 3 else 0).queue.jobsOf "old" = [] := by
    decide +kernel
  rw [hdemand, hsame.queued, queued_eq_zero_iff.mpr hnone, ResyncScan.counters, if_pos hnone] at hexact
  revert hexact
  decide

end Veronex
