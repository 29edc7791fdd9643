import Veronex.Capacity.ConcurrencyLimit
import Veronex.Foundation.FairShare
import Mathlib.Algebra.BigOperators.Ring.Finset
import Mathlib.Data.ENat.Basic
import Mathlib.Data.List.Sort

/-! # The governor

The fair-share block of `sync_provider` (`infrastructure/outbound/capacity/analyzer.rs`): when a
provider has more requests than `num_parallel`, its loaded models that have requests or demand share
`num_parallel`, the longest waiting first; what a model may run is then up to `should_block`.

`governor_within_budget_iff`: the candidates stay within `num_parallel` exactly if none that has a
share is unlimited.
-/
namespace Veronex
set_option autoImplicit false
open Concurrency

/-! ## The pool calls -/

namespace ProviderVramState
variable (state : ProviderVramState) (model : String)

/-- `loaded_model_names` -/
def loadedModelNames : List String :=
  (state.models.entries.filter fun e => e.2.isLoaded).map Sigma.fst

def activeRequests : ℕ := (state.models.lookup model).elim 0 ModelState.activeCount

def maxConcurrent : ℕ := (state.models.lookup model).elim 0 ModelState.maxConcurrent

def setDispatchBlocked (value : Bool) : ProviderVramState :=
  state.modifyModel model fun ms => { ms with dispatchBlocked := value }

def setGovernorCap (cap : ℕ) : ProviderVramState :=
  state.modifyModel model fun ms => { ms with governorCap := cap }

end ProviderVramState

/-! ## The block -/

/-- What the governor reads from Valkey; a failed read is an empty one. -/
structure QueueView where
  /-- The demand counters. -/
  demand : String → ℕ
  /-- `QUEUE_MODEL_MAP` -/
  jobModel : List (Uuid × String)
  /-- `QUEUE_ENQUEUE_AT`, in ms. -/
  enqueueAt : Uuid → Option ℕ

/-- The time the oldest queued job of a model was enqueued at. -/
def QueueView.oldest (q : QueueView) (model : String) : ℕ :=
  let jobs := q.jobModel.filter fun job => job.2 = model
  (jobs.filterMap fun job => q.enqueueAt job.1).min?.getD (U64 - 1)

/-- What a candidate gets: a share, or none, which blocks its dispatch. -/
def governorShare (budget n i : ℕ) : Option ℕ :=
  if n ≤ budget then some (fairShare budget n i)
  else if i < budget then some 1
  else none

namespace ProviderVramState
variable (state : ProviderVramState)

/-- `dispatch_blocked` and `governor_cap` of a model are reset. -/
def resetModel (model : String) : ProviderVramState :=
  (state.setDispatchBlocked model false).setGovernorCap model 0

/-- The reset of the loaded models. -/
def resetGovernor : ProviderVramState := state.loadedModelNames.foldl resetModel state

/-- The candidates with the age of their oldest job, the oldest first. -/
def governorCandidates (q : QueueView) : List (String × ℕ) :=
  let names := state.loadedModelNames.filter fun name =>
    0 < state.activeRequests name ∨ 0 < q.demand name
  (names.map fun name => (name, q.oldest name)).insertionSort fun a b => a.2 ≤ b.2

/-- The candidates with what they get. -/
def governorShares (numParallel : ℕ) (q : QueueView) : List (String × Option ℕ) :=
  let candidates := state.governorCandidates q
  candidates.zipIdx.map fun (candidate, i) =>
    (candidate.1, governorShare numParallel candidates.length i)

def applyShare : String × Option ℕ → ProviderVramState
  | (model, some share) => state.setGovernorCap model (min (state.maxConcurrent model) share)
  | (model, none) => state.setDispatchBlocked model true

/-- The governor, and whether it was active. -/
def governor (numParallel : ℕ) (q : QueueView) : ProviderVramState × Bool :=
  let state := state.resetGovernor
  if numParallel < state.totalActiveCount then
    ((state.governorShares numParallel q).foldl applyShare state, true)
  else (state, false)

end ProviderVramState

/-! ## What a model may run -/

/-- The number of requests `should_block` lets run at once without probing. -/
def ModelState.permits (ms : ModelState) : ℕ∞ :=
  if ms.dispatchBlocked then 0
  else if ms.maxConcurrent = 0 then ⊤
  else ms.limit

def ProviderVramState.permits (state : ProviderVramState) (model : String) : ℕ∞ :=
  (state.models.lookup model).elim 0 ModelState.permits

theorem shouldBlock_permits (ms : ModelState) (probeRate : ℕ) :
    (shouldBlock ms 0 probeRate).1 = false ↔ (ms.activeCount : ℕ∞) < ms.permits := by
  unfold shouldBlock ModelState.permits
  cases ms.dispatchBlocked with
  | true => simp
  | false =>
    by_cases hlimit : ms.maxConcurrent = 0
    · simp [hlimit]
    · rw [if_neg Bool.false_ne_true, if_neg Bool.false_ne_true, if_neg hlimit, if_neg hlimit]
      show decide (ms.limit ≤ ms.activeCount) = false ↔ (ms.activeCount : ℕ∞) < (ms.limit : ℕ∞)
      rw [Nat.cast_lt, decide_eq_false_iff_not, not_le]

/-- The entry of a candidate after its share. -/
def ModelState.withShare (ms : ModelState) : Option ℕ → ModelState
  | some share => { ms with governorCap := min ms.maxConcurrent share }
  | none => { ms with dispatchBlocked := true }

/-- A share caps a model that has a limit, and leaves one without a limit as it was. -/
theorem permits_withShare {ms : ModelState} (hfree : ms.dispatchBlocked = false) {share : ℕ}
    (hshare : 0 < share) :
    (ms.withShare (some share)).permits =
      if ms.maxConcurrent = 0 then (⊤ : ℕ∞) else ((min ms.maxConcurrent share : ℕ) : ℕ∞) := by
  unfold ModelState.permits ModelState.withShare ModelState.limit
  by_cases hlimit : ms.maxConcurrent = 0
  · simp [hfree, hlimit]
  · have hcap : 0 < min ms.maxConcurrent share := by omega
    simp [hfree, hlimit, hcap]

/-! ## The shares -/

section Shares
variable {state : ProviderVramState} {model : String} {ms : ModelState}

namespace ProviderVramState

theorem modifyModel_lookup_of_ne {j : String} (h : j ≠ model) (f : ModelState → ModelState) :
    (state.modifyModel model f).models.lookup j = state.models.lookup j := by
  unfold modifyModel
  split
  · exact AList.lookup_insert_ne h
  · rfl

/-- What an update of one model does to every entry. -/
theorem modifyModel_lookup_eq (j : String) (f : ModelState → ModelState) :
    (state.modifyModel model f).models.lookup j =
      if j = model then (state.models.lookup j).map f else state.models.lookup j := by
  by_cases hj : j = model
  · subst hj
    rw [if_pos rfl]
    cases hlookup : state.models.lookup j with
    | none => rw [modifyModel, hlookup]; exact hlookup
    | some ms => exact modifyModel_lookup hlookup f
  · rw [if_neg hj, modifyModel_lookup_of_ne hj]

theorem applyShare_lookup (e : String × Option ℕ) (j : String) :
    (state.applyShare e).models.lookup j =
      if j = e.1 then (state.models.lookup j).map fun ms => ms.withShare e.2
      else state.models.lookup j := by
  obtain ⟨model, _ | share⟩ := e
  · exact modifyModel_lookup_eq j _
  · refine (modifyModel_lookup_eq j _).trans ?_
    by_cases hj : j = model
    · subst hj
      rw [if_pos rfl, if_pos rfl]
      cases hlookup : state.models.lookup j with
      | none => rfl
      | some ms => simp [maxConcurrent, hlookup, ModelState.withShare]
    · rw [if_neg hj, if_neg hj]

theorem foldl_applyShare_of_notMem {shares : List (String × Option ℕ)}
    (h : model ∉ shares.map Prod.fst) :
    (shares.foldl applyShare state).models.lookup model = state.models.lookup model := by
  induction shares generalizing state with
  | nil => rfl
  | cons e shares ih =>
    rw [List.map_cons, List.mem_cons, not_or] at h
    rw [List.foldl_cons, ih h.2, applyShare_lookup, if_neg h.1]

/-- Every candidate has its own share in the end. -/
theorem foldl_applyShare_lookup {shares : List (String × Option ℕ)}
    (hnodup : (shares.map Prod.fst).Nodup) {share : Option ℕ} (hmem : (model, share) ∈ shares)
    (hlookup : state.models.lookup model = some ms) :
    (shares.foldl applyShare state).models.lookup model = some (ms.withShare share) := by
  induction shares generalizing state with
  | nil => cases hmem
  | cons e shares ih =>
    rw [List.map_cons, List.nodup_cons] at hnodup
    rw [List.foldl_cons]
    rcases List.mem_cons.mp hmem with rfl | hmem
    · rw [foldl_applyShare_of_notMem hnodup.1, applyShare_lookup, if_pos rfl, hlookup]
      rfl
    · have hmodel : model ∈ shares.map Prod.fst := List.mem_map.mpr ⟨_, hmem, rfl⟩
      have hne : model ≠ e.1 := fun heq => hnodup.1 (heq ▸ hmodel)
      refine ih hnodup.2 hmem ?_
      rw [applyShare_lookup, if_neg hne, hlookup]

theorem resetModel_lookup (j : String) :
    (state.resetModel model).models.lookup j =
      if j = model then
        (state.models.lookup j).map fun ms => { ms with dispatchBlocked := false, governorCap := 0 }
      else state.models.lookup j := by
  unfold resetModel setGovernorCap setDispatchBlocked
  rw [modifyModel_lookup_eq, modifyModel_lookup_eq]
  by_cases hj : j = model
  · simp only [if_pos hj, Option.map_map]
    rfl
  · simp only [if_neg hj]

theorem foldl_resetModel_lookup (names : List String) (j : String) :
    (names.foldl resetModel state).models.lookup j =
      if j ∈ names then
        (state.models.lookup j).map fun ms => { ms with dispatchBlocked := false, governorCap := 0 }
      else state.models.lookup j := by
  induction names generalizing state with
  | nil => simp
  | cons name names ih =>
    rw [List.foldl_cons, ih, resetModel_lookup]
    by_cases hname : j = name
    · subst hname
      by_cases hagain : j ∈ names
      · simp [hagain, Option.map_map, Function.comp_def]
      · simp [hagain]
    · simp [hname]

theorem mem_loadedModelNames :
    model ∈ state.loadedModelNames ↔ ∃ ms, state.models.lookup model = some ms ∧ ms.isLoaded := by
  constructor
  · intro h
    obtain ⟨⟨name, ms⟩, he, rfl⟩ := List.mem_map.mp h
    obtain ⟨hentry, hloaded⟩ := List.mem_filter.mp he
    exact ⟨ms, AList.mem_lookup_iff.mpr hentry, hloaded⟩
  · rintro ⟨ms, hlookup, hloaded⟩
    have hentry : ⟨model, ms⟩ ∈ state.models.entries := AList.mem_lookup_iff.mp hlookup
    exact List.mem_map.mpr ⟨_, List.mem_filter.mpr ⟨hentry, hloaded⟩, rfl⟩

theorem nodup_loadedModelNames (state : ProviderVramState) : state.loadedModelNames.Nodup := by
  have hkeys : (state.models.entries.map Sigma.fst).Nodup := state.models.nodupKeys
  exact hkeys.sublist (List.filter_sublist.map Sigma.fst)

/-- The reset visits the loaded models. -/
theorem resetGovernor_lookup (j : String) :
    state.resetGovernor.models.lookup j =
      (state.models.lookup j).map fun ms =>
        if ms.isLoaded then { ms with dispatchBlocked := false, governorCap := 0 } else ms := by
  rw [resetGovernor, foldl_resetModel_lookup]
  cases hlookup : state.models.lookup j with
  | none => simp
  | some ms =>
    have hnames : j ∈ state.loadedModelNames ↔ ms.isLoaded = true := by
      rw [mem_loadedModelNames, hlookup]
      simp
    cases hloaded : ms.isLoaded <;> simp [hnames, hloaded]

/-- A reset leaves the counters of the provider. -/
theorem resetGovernor_totalActiveCount :
    state.resetGovernor.totalActiveCount = state.totalActiveCount := by
  have hmodel : ∀ (s : ProviderVramState) (j : String),
      (s.resetModel j).totalActiveCount = s.totalActiveCount := by
    intro s j
    unfold resetModel setGovernorCap setDispatchBlocked modifyModel
    repeat' split
    all_goals rfl
  unfold resetGovernor
  generalize state.loadedModelNames = names
  induction names generalizing state with
  | nil => rfl
  | cons name names ih => rw [List.foldl_cons, ih, hmodel]

end ProviderVramState
end Shares

/-! ## The candidates -/

namespace ProviderVramState
variable {state : ProviderVramState} {numParallel : ℕ} {q : QueueView}

theorem governorCandidates_perm (state : ProviderVramState) (q : QueueView) :
    ((state.governorCandidates q).map Prod.fst).Perm
      (state.loadedModelNames.filter fun name =>
        0 < state.activeRequests name ∨ 0 < q.demand name) := by
  have hsorted := (List.perm_insertionSort (fun a b : String × ℕ => a.2 ≤ b.2)
    ((state.loadedModelNames.filter fun name =>
      0 < state.activeRequests name ∨ 0 < q.demand name).map fun name =>
        (name, q.oldest name))).map Prod.fst
  rw [List.map_map] at hsorted
  simpa [governorCandidates, Function.comp_def] using hsorted

theorem nodup_governorCandidates (state : ProviderVramState) (q : QueueView) :
    ((state.governorCandidates q).map Prod.fst).Nodup :=
  (governorCandidates_perm state q).nodup_iff.mpr ((nodup_loadedModelNames state).filter _)

/-- A candidate is loaded. -/
theorem governorCandidates_loaded {c : String × ℕ} (h : c ∈ state.governorCandidates q) :
    ∃ ms, state.models.lookup c.1 = some ms ∧ ms.isLoaded := by
  have hname := (governorCandidates_perm state q).subset (List.mem_map.mpr ⟨c, h, rfl⟩)
  exact mem_loadedModelNames.mp (List.mem_filter.mp hname).1

theorem governorShares_fst (state : ProviderVramState) (numParallel : ℕ) (q : QueueView) :
    (state.governorShares numParallel q).map Prod.fst =
      (state.governorCandidates q).map Prod.fst := by
  have hnames := congrArg (List.map Prod.fst) (List.zipIdx_map_fst 0 (state.governorCandidates q))
  rw [List.map_map] at hnames
  rw [governorShares, List.map_map]
  exact hnames

theorem governorShares_snd (state : ProviderVramState) (numParallel : ℕ) (q : QueueView) :
    (state.governorShares numParallel q).map Prod.snd =
      (List.range (state.governorCandidates q).length).map
        (governorShare numParallel (state.governorCandidates q).length) := by
  rw [governorShares, List.map_map, List.range_eq_range', ← List.zipIdx_map_snd 0, List.map_map]
  rfl

end ProviderVramState

/-- All shares together are at most the budget. -/
theorem sum_governorShare_le (budget n : ℕ) :
    ((List.range n).map fun i => (governorShare budget n i).getD 0).sum ≤ budget := by
  rcases Nat.eq_zero_or_pos n with rfl | hn
  · simp
  by_cases hfits : n ≤ budget
  · have hshare : ∀ i, (governorShare budget n i).getD 0 = fairShare budget n i := by
      intro i
      simp [governorShare, hfits]
    simp only [hshare]
    exact (sum_fairShare hn budget).le
  · have hshare : ∀ i, (governorShare budget n i).getD 0 = if i < budget then 1 else 0 := by
      intro i
      unfold governorShare
      rw [if_neg hfits]
      split <;> rfl
    simp only [hshare]
    rw [sum_range_indicator]
    omega

theorem governorShare_pos {budget n i share : ℕ} (hi : i < n)
    (h : governorShare budget n i = some share) : 0 < share := by
  unfold governorShare at h
  split at h
  · next hfits =>
    obtain rfl := Option.some.inj h
    exact fairShare_pos (by omega) hfits i
  · split at h
    · obtain rfl := Option.some.inj h
      exact Nat.one_pos
    · cases h

namespace ProviderVramState
variable {state : ProviderVramState} {numParallel : ℕ} {q : QueueView}

theorem governorShares_pos {model : String} {share : ℕ}
    (h : (model, some share) ∈ state.governorShares numParallel q) : 0 < share := by
  have hsnd : some share ∈ (state.governorShares numParallel q).map Prod.snd :=
    List.mem_map.mpr ⟨_, h, rfl⟩
  rw [governorShares_snd] at hsnd
  obtain ⟨i, hi, hshare⟩ := List.mem_map.mp hsnd
  exact governorShare_pos (List.mem_range.mp hi) hshare

/-- What a candidate may run once the governor has given it its share. -/
theorem permits_governor (hactive : numParallel < state.totalActiveCount) {model : String}
    {share : Option ℕ} (h : (model, share) ∈ state.resetGovernor.governorShares numParallel q) :
    (state.governor numParallel q).1.permits model =
      share.elim 0 fun share => if state.maxConcurrent model = 0 then (⊤ : ℕ∞)
        else ((min (state.maxConcurrent model) share : ℕ) : ℕ∞) := by
  have hnames : ((state.resetGovernor.governorShares numParallel q).map Prod.fst).Nodup := by
    rw [governorShares_fst]
    exact nodup_governorCandidates _ _
  have hname : model ∈ (state.resetGovernor.governorCandidates q).map Prod.fst := by
    rw [← governorShares_fst _ numParallel]
    exact List.mem_map.mpr ⟨_, h, rfl⟩
  obtain ⟨c, hc, rfl⟩ := List.mem_map.mp hname
  obtain ⟨ms', hlookup', hloaded'⟩ := governorCandidates_loaded hc
  obtain ⟨ms, hlookup, hreset⟩ := Option.map_eq_some_iff.mp (resetGovernor_lookup c.1 ▸ hlookup')
  have hloaded : ms.isLoaded = true := by
    cases hcase : ms.isLoaded with
    | true => rfl
    | false =>
      rw [hcase, if_neg Bool.false_ne_true] at hreset
      rw [← hreset, hcase] at hloaded'
      exact hloaded'
  rw [if_pos hloaded] at hreset
  have hmax : state.maxConcurrent c.1 = ms.maxConcurrent := by rw [maxConcurrent, hlookup]; rfl
  have hafter := foldl_applyShare_lookup hnames h hlookup'
  have hgovernor : (state.governor numParallel q).1 =
      (state.resetGovernor.governorShares numParallel q).foldl applyShare state.resetGovernor := by
    unfold governor
    dsimp only
    rw [if_pos (by rwa [resetGovernor_totalActiveCount])]
  rw [permits, hgovernor, hafter, hmax]
  subst hreset
  cases share with
  | none => rfl
  | some share => exact permits_withShare rfl (governorShares_pos h)

/-- The first `num_parallel` candidates get a share. -/
theorem share_of_take {c : String × ℕ}
    (h : c ∈ (state.governorCandidates q).take numParallel) :
    ∃ share, (c.1, some share) ∈ state.governorShares numParallel q := by
  obtain ⟨i, hi, rfl⟩ := List.mem_iff_getElem.mp h
  rw [List.length_take] at hi
  have hshare : ∃ share,
      governorShare numParallel (state.governorCandidates q).length i = some share := by
    unfold governorShare
    split
    · exact ⟨_, rfl⟩
    · rw [if_pos (by omega)]
      exact ⟨1, rfl⟩
  obtain ⟨share, hshare⟩ := hshare
  refine ⟨share, List.mem_map.mpr ⟨((state.governorCandidates q)[i], i), ?_, ?_⟩⟩
  · exact List.mk_mem_zipIdx_iff_getElem?.mpr (List.getElem?_eq_getElem (by omega))
  · rw [List.getElem_take]
    exact Prod.ext rfl hshare

/-- A candidate with a share is one of the first `num_parallel`. -/
theorem take_of_share {model : String} {share : ℕ}
    (h : (model, some share) ∈ state.governorShares numParallel q) :
    ∃ c ∈ (state.governorCandidates q).take numParallel, c.1 = model := by
  obtain ⟨⟨c, i⟩, hc, heq⟩ := List.mem_map.mp h
  obtain ⟨rfl, hshare⟩ := Prod.mk.inj heq
  have hget := List.mk_mem_zipIdx_iff_getElem?.mp hc
  obtain ⟨hi, -⟩ := List.getElem?_eq_some_iff.mp hget
  have hlt : i < numParallel := by
    unfold governorShare at hshare
    split at hshare
    · omega
    · split at hshare
      · assumption
      · cases hshare
  refine ⟨c, List.mem_of_getElem? (i := i) ?_, rfl⟩
  rw [List.getElem?_take_of_lt hlt]
  exact hget

/-- While the governor is active, what its candidates may run without probing adds up to at most
`num_parallel` exactly if none of the `num_parallel` first candidates is unlimited. -/
theorem governor_within_budget_iff (state : ProviderVramState) (numParallel : ℕ) (q : QueueView)
    (hactive : numParallel < state.totalActiveCount) :
    ((state.resetGovernor.governorCandidates q).map fun c =>
        (state.governor numParallel q).1.permits c.1).sum ≤ (numParallel : ℕ∞) ↔
      ∀ c ∈ (state.resetGovernor.governorCandidates q).take numParallel,
        state.maxConcurrent c.1 ≠ 0 := by
  set shares := state.resetGovernor.governorShares numParallel q with hshares
  have hsum : ((state.resetGovernor.governorCandidates q).map fun c =>
      (state.governor numParallel q).1.permits c.1) =
      shares.map fun e => (state.governor numParallel q).1.permits e.1 := by
    have hnames := congrArg (List.map (state.governor numParallel q).1.permits)
      (governorShares_fst state.resetGovernor numParallel q)
    rw [List.map_map, List.map_map] at hnames
    exact hnames.symm
  rw [hsum]
  constructor
  · intro hle c hc hunlimited
    obtain ⟨share, hshare⟩ := share_of_take hc
    have htop := permits_governor hactive hshare
    rw [Option.elim_some, if_pos hunlimited] at htop
    have hmem : (⊤ : ℕ∞) ∈ shares.map fun e => (state.governor numParallel q).1.permits e.1 :=
      List.mem_map.mpr ⟨_, hshare, htop⟩
    have htotal := (List.single_le_sum (fun _ _ => zero_le) _ hmem).trans hle
    exact absurd (top_le_iff.mp htotal) (ENat.natCast_ne_top numParallel)
  · intro hlimited
    have heach : ∀ e ∈ shares, (state.governor numParallel q).1.permits e.1 ≤
        ((e.2.getD 0 : ℕ) : ℕ∞) := by
      rintro ⟨model, share⟩ he
      rw [permits_governor hactive he]
      cases share with
      | none => exact le_rfl
      | some share =>
        obtain ⟨c, hc, rfl⟩ := take_of_share he
        rw [Option.elim_some, if_neg (hlimited c hc)]
        exact Nat.cast_le.mpr (Nat.min_le_right _ _)
    have hbudget : (shares.map fun e => e.2.getD 0).sum ≤ numParallel := by
      have hvalues := congrArg (List.map fun share : Option ℕ => share.getD 0)
        (governorShares_snd state.resetGovernor numParallel q)
      rw [List.map_map, List.map_map] at hvalues
      have hle := sum_governorShare_le numParallel (state.resetGovernor.governorCandidates q).length
      calc (shares.map fun e => e.2.getD 0).sum
          = ((List.range (state.resetGovernor.governorCandidates q).length).map
              ((fun share : Option ℕ => share.getD 0) ∘ governorShare numParallel
                (state.resetGovernor.governorCandidates q).length)).sum := congrArg List.sum hvalues
        _ ≤ numParallel := hle
    calc (shares.map fun e => (state.governor numParallel q).1.permits e.1).sum
        ≤ (shares.map fun e => ((e.2.getD 0 : ℕ) : ℕ∞)).sum := List.sum_le_sum heach
      _ = (((shares.map fun e => e.2.getD 0).sum : ℕ) : ℕ∞) := by
          rw [Nat.cast_list_sum, List.map_map]
          rfl
      _ ≤ (numParallel : ℕ∞) := Nat.cast_le.mpr hbudget

/-- Two models with a limit of 4 and two requests each. -/
def busyProvider : ProviderVramState :=
  let ms : ModelState := { ModelState.new 0 true 128 4 with activeCount := 2 }
  { (ProviderVramState.fresh.setModel "a" ms).setModel "b" ms with totalActiveCount := 4 }

def emptyQueue : QueueView :=
  { demand := fun _ => 0, jobModel := [], enqueueAt := fun _ => none }

theorem busy_provider_within_budget :
    ((busyProvider.resetGovernor.governorCandidates emptyQueue).map fun c =>
      (busyProvider.governor 3 emptyQueue).1.permits c.1).sum ≤ ((3 : ℕ) : ℕ∞) := by
  have hloaded : ∀ name ∈ busyProvider.resetGovernor.loadedModelNames,
      busyProvider.maxConcurrent name ≠ 0 := by decide +kernel
  refine (governor_within_budget_iff busyProvider 3 emptyQueue (by decide)).mpr fun c hc => ?_
  exact hloaded _ (mem_loadedModelNames.mpr (governorCandidates_loaded (List.mem_of_mem_take hc)))

/-- A model that was marked loaded before anything else was known of it has no limit. -/
def unlimitedModel : ProviderVramState :=
  (((ProviderVramState.fresh.load "m" 0 1).tryReserve "m" 1 3).1.tryReserve "m" 1 3).1

/-- A provider with `num_parallel` 1 and two requests of that model. -/
theorem unlimited_model_not_capped :
    ¬ ∀ (state : ProviderVramState) (numParallel : ℕ) (q : QueueView), 1 ≤ numParallel →
      numParallel < state.totalActiveCount →
        ((state.resetGovernor.governorCandidates q).map fun c =>
          (state.governor numParallel q).1.permits c.1).sum ≤ (numParallel : ℕ∞) := by
  intro hall
  have hlimited := (governor_within_budget_iff unlimitedModel 1 emptyQueue (by decide)).mp
    (hall unlimitedModel 1 emptyQueue le_rfl (by decide))
  revert hlimited
  decide +kernel

end ProviderVramState

end Veronex
