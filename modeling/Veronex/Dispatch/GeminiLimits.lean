import Veronex.Dispatch.Eligibility
import Veronex.Foundation.Pool
import Veronex.Foundation.Transition

/-! # The rate limits of free Gemini providers

`gemini_limit_status`, `pick_gemini_provider` and `increment_gemini_counters` of
`infrastructure/outbound/provider_router.rs`, with the two paths on which a job reaches a Gemini
provider: `spawn_job_direct` and `process` pick one by its counters, `score_and_claim` takes any
candidate that `filter_candidates` leaves. A counter moves when `finalize_job` is through, so what it
says is behind by the requests under way and by those that ended without `finalize_job`
(`Fleet.uncounted`).
-/
namespace Veronex
open Concurrency
set_option autoImplicit false

def GEMINI_RPM_TTL_SECS : ℕ := 120
def GEMINI_RPD_TTL_SECS : ℕ := 90000

/-! ## Picking a provider -/

structure GeminiRateLimitPolicy where
  rpmLimit : ℤ
  rpdLimit : ℤ
  availableOnFreeTier : Bool

inductive GeminiPickError
  | notAvailableOnFreeTier
  | requiresPaidProvider
  | noActiveProvider
  | dailyQuota
  | rpmLimited

/-- `rpm_exhausted`, `rpd_exhausted`. -/
abbrev LimitStatus := ProviderId → Bool × Bool

/-- `pick_gemini_provider`. `limitStatus` is absent without Valkey. -/
def pickGeminiProvider (candidates : List LlmProvider) (policy : Option GeminiRateLimitPolicy)
    (selection : Option ModelSelectionRepo) (modelName : String)
    (limitStatus : Option LimitStatus) (tierFilter : Option String) :
    Except GeminiPickError LlmProvider :=
  let availableOnFreeTier := (policy.map GeminiRateLimitPolicy.availableOnFreeTier).getD true
  let freeProviders := candidates.filter fun b => b.isFreeTier
  let rawPaidProviders :=
    if tierFilter = some GEMINI_TIER_FREE then [] else candidates.filter fun b => !b.isFreeTier
  let paidProviders := match selection with
    | some repo => RoutingPorts.filterByModelSelection modelName repo rawPaidProviders
    | none => rawPaidProviders
  if availableOnFreeTier = false then
    if tierFilter = some GEMINI_TIER_FREE then .error .notAvailableOnFreeTier
    else match paidProviders.head? with
      | some paid => .ok paid
      | none => .error .requiresPaidProvider
  else match limitStatus with
    | none =>
      match freeProviders.head?.or paidProviders.head? with
      | some b => .ok b
      | none => .error .noActiveProvider
    | some status =>
      -- the first whose day and whose minute are not exhausted
      match freeProviders.find? fun b => !(status b.id).2 && !(status b.id).1 with
      | some b => .ok b
      | none =>
        let allRpdExhausted := !freeProviders.isEmpty && freeProviders.all fun b => (status b.id).2
        match paidProviders.head? with
        | some paid => .ok paid
        | none => .error (if allRpdExhausted then .dailyQuota else .rpmLimited)

/-! ## The counters and the requests -/

/-- `gemini_rpm_key` and `gemini_rpd_key`. -/
inductive CounterKey
  | rpm (provider : ProviderId) (model : String) (minute : ℕ)
  | rpd (provider : ProviderId) (model : String) (date : ℕ)
  deriving DecidableEq

/-- Where a request is. `sent` is the minute in which it went to the provider. -/
inductive GeminiStage
  /-- On the direct path: the keys of its checks are made. -/
  | probing (minute date : ℕ) (tier : Option String)
  | picked (b : LlmProvider)
  | streaming (b : LlmProvider) (sent : ℕ)
  /-- In `increment_gemini_counters`, the keys are made. -/
  | counting (b : LlmProvider) (sent minute date : ℕ)
  | ended (b : LlmProvider) (sent : Option ℕ) (counted : Bool)
  | refused

structure GeminiRequest where
  model : String
  stage : GeminiStage

/-- What stays as it is: the ports, the policies and whether there is a Valkey. -/
structure GeminiSetup where
  ports : RoutingPorts
  /-- `get_for_model(..)`, none where it fails or there is no repository. -/
  policyFor : String → Option GeminiRateLimitPolicy
  hasValkey : Bool

structure Fleet where
  /-- In seconds. -/
  now : ℕ
  counters : CounterKey → ℕ
  deadline : CounterKey → Option ℕ
  requests : List GeminiRequest

inductive GeminiAction
  | tick (secs : ℕ)
  /-- `pick_and_build` begins. -/
  | route (model : String) (tier : Option String)
  /-- `pick_gemini_provider` decides; `answered` says which of its `GET`s were answered. -/
  | pick (k : ℕ) (answered : CounterKey → Bool)
  /-- `score_and_claim` takes a candidate of `filter_candidates`. -/
  | claim (model : String) (tier : Option String) (i : ℕ)
  | send (k : ℕ)
  /-- `finalize_job` reaches the counters. -/
  | finish (k : ℕ)
  /-- The first so many commands of `increment_gemini_counters` succeed. -/
  | count (k : ℕ) (commands : ℕ)
  /-- It ends before `finalize_job` does. -/
  | fail (k : ℕ)
  | expire (key : CounterKey)

namespace Fleet

def minute (f : Fleet) : ℕ := f.now / 60

def date (f : Fleet) : ℕ := f.now / 86400

/-- A `GET` that fails reads as zero. -/
def readCounter (f : Fleet) (answered : CounterKey → Bool) (key : CounterKey) : ℕ :=
  if answered key then f.counters key else 0

/-- `gemini_limit_status` of the providers, for the minute and the date of the keys. -/
def limitStatus (f : Fleet) (policy : Option GeminiRateLimitPolicy) (answered : CounterKey → Bool)
    (model : String) (minute date : ℕ) : LimitStatus := fun provider =>
  let rpmLimit := (policy.map GeminiRateLimitPolicy.rpmLimit).getD 0
  let rpdLimit := (policy.map GeminiRateLimitPolicy.rpdLimit).getD 0
  let rpmExhausted :=
    if 0 < rpmLimit then decide (rpmLimit ≤ f.readCounter answered (.rpm provider model minute))
    else false
  let rpdExhausted :=
    if 0 < rpdLimit then decide (rpdLimit ≤ f.readCounter answered (.rpd provider model date))
    else false
  (rpmExhausted, rpdExhausted)

/-- `pick_best_provider` for a Gemini model. -/
def directPick (s : GeminiSetup) (f : Fleet) (answered : CounterKey → Bool) (model : String)
    (minute date : ℕ) (tier : Option String) : Option LlmProvider := do
  let all ← s.ports.listAll
  let candidates := all.filter fun b => b.providerType = .gemini
  let status := f.limitStatus (s.policyFor model) answered model minute date
  (pickGeminiProvider candidates (s.policyFor model) s.ports.modelSelectionRepo model
    (if s.hasValkey then some status else none) tier).toOption

def put (f : Fleet) (k : ℕ) (r : GeminiRequest) (stage : GeminiStage) : Fleet :=
  { f with requests := advance f.requests k { r with stage } [] }

def begin (f : Fleet) (r : GeminiRequest) : Fleet := { f with requests := f.requests ++ [r] }

def incr (f : Fleet) (key : CounterKey) : Fleet :=
  { f with counters := Function.update f.counters key (f.counters key + 1) }

def expireIn (f : Fleet) (key : CounterKey) (ttl : ℕ) : Fleet :=
  { f with deadline := Function.update f.deadline key (some (f.now + ttl)) }

/-- The commands of `increment_gemini_counters`, the first that fails ends it. -/
def incrementCommands (b : LlmProvider) (model : String) (minute date : ℕ) : List (Fleet → Fleet) :=
  [fun f => f.incr (.rpm b.id model minute),
    fun f => f.expireIn (.rpm b.id model minute) GEMINI_RPM_TTL_SECS,
    fun f => f.incr (.rpd b.id model date),
    fun f => f.expireIn (.rpd b.id model date) GEMINI_RPD_TTL_SECS]

/-- The provider that a step gives a request. -/
def chosen (s : GeminiSetup) (f : Fleet) : GeminiAction → Option (String × LlmProvider)
  | .pick k answered => do
    let r ← f.requests[k]?
    match r.stage with
    | .probing minute date tier =>
      (f.directPick s answered r.model minute date tier).map fun b => (r.model, b)
    | _ => none
  | .claim model tier i =>
    ((s.ports.filterCandidates model .gemini tier)[i]?).map fun b => (model, b)
  | _ => none

def step (s : GeminiSetup) (f : Fleet) : GeminiAction → Option Fleet
  | .tick secs => some { f with now := f.now + secs }
  | .route model tier => some (f.begin ⟨model, .probing f.minute f.date tier⟩)
  | .pick k answered => do
    let r ← f.requests[k]?
    match r.stage with
    | .probing minute date tier =>
      match f.directPick s answered r.model minute date tier with
      | some b => return f.put k r (.picked b)
      | none => return f.put k r .refused
    | _ => none
  | .claim model tier i => do
    let b ← (s.ports.filterCandidates model .gemini tier)[i]?
    return f.begin ⟨model, .picked b⟩
  | .send k => do
    let r ← f.requests[k]?
    match r.stage with
    | .picked b => return f.put k r (.streaming b f.minute)
    | _ => none
  | .finish k => do
    let r ← f.requests[k]?
    match r.stage with
    | .streaming b sent =>
      if b.isFreeTier then return f.put k r (.counting b sent f.minute f.date)
      else return f.put k r (.ended b (some sent) false)
    | _ => none
  | .count k commands => do
    let r ← f.requests[k]?
    match r.stage with
    | .counting b sent minute date =>
      let counted := ((incrementCommands b r.model minute date).take commands).foldl
        (fun f command => command f) f
      return counted.put k r (.ended b (some sent) (0 < commands))
    | _ => none
  | .fail k => do
    let r ← f.requests[k]?
    match r.stage with
    | .picked b => return f.put k r (.ended b none false)
    | .streaming b sent => return f.put k r (.ended b (some sent) false)
    | _ => none
  | .expire key => do
    let deadline ← f.deadline key
    if deadline ≤ f.now then
      return { f with
        counters := Function.update f.counters key 0
        deadline := Function.update f.deadline key none }
    else none

def init (now : ℕ) : Fleet :=
  { now, counters := fun _ => 0, deadline := fun _ => none, requests := [] }

end Fleet

/-! ## What the counters miss -/

namespace GeminiRequest

/-- The request is for this model and went, or goes, to this free provider. -/
def isTo (p : ProviderId) (model : String) (r : GeminiRequest) : Bool :=
  decide (r.model = model) && match r.stage with
  | .picked b | .streaming b _ | .counting b _ _ _ | .ended b _ _ => b.isFreeTier && decide (b.id = p)
  | .probing _ _ _ | .refused => false

/-- The minute it was sent in. -/
def sentIn (r : GeminiRequest) : Option ℕ :=
  match r.stage with
  | .streaming _ sent | .counting _ sent _ _ => some sent
  | .ended _ sent _ => sent
  | .probing _ _ _ | .picked _ | .refused => none

def isPicked (r : GeminiRequest) : Bool :=
  match r.stage with
  | .picked _ => true
  | _ => false

def isCounted (r : GeminiRequest) : Bool :=
  match r.stage with
  | .ended _ _ counted => counted
  | _ => false

def inFlight (r : GeminiRequest) : Bool :=
  match r.stage with
  | .picked _ | .streaming _ _ | .counting _ _ _ _ => true
  | _ => false

variable (p : ProviderId) (model : String) (m : ℕ)

def sentWeight (r : GeminiRequest) : ℕ := if r.isTo p model ∧ r.sentIn = some m then 1 else 0

/-- It was sent in the minute or may still be. -/
def loadWeight (r : GeminiRequest) : ℕ :=
  if r.isTo p model ∧ (r.sentIn = some m ∨ r.isPicked) then 1 else 0

def countedWeight (r : GeminiRequest) : ℕ :=
  if r.isTo p model ∧ r.sentIn = some m ∧ r.isCounted then 1 else 0

/-- No counter has it, and it is under way or was sent in the minute. -/
def uncountedWeight (r : GeminiRequest) : ℕ :=
  if r.isTo p model ∧ r.isCounted = false ∧ (r.inFlight ∨ r.sentIn = some m) then 1 else 0

theorem inFlight_of_isPicked {r : GeminiRequest} (h : r.isPicked = true) :
    r.inFlight = true ∧ r.isCounted = false ∧ r.sentIn = none := by
  obtain ⟨_, stage⟩ := r
  cases stage <;> simp_all [isPicked, inFlight, isCounted, sentIn]

theorem loadWeight_le (r : GeminiRequest) :
    r.loadWeight p model m ≤ r.countedWeight p model m + r.uncountedWeight p model m := by
  unfold loadWeight
  split
  · next h =>
    obtain ⟨hto, hwhen⟩ := h
    cases hcounted : r.isCounted with
    | true =>
      have hsent : r.sentIn = some m := hwhen.resolve_right fun hpicked => by
        rw [(inFlight_of_isPicked hpicked).2.1] at hcounted
        cases hcounted
      have hone : r.countedWeight p model m = 1 := if_pos ⟨hto, hsent, hcounted⟩
      omega
    | false =>
      have hmissed : r.inFlight ∨ r.sentIn = some m := by
        rcases hwhen with hsent | hpicked
        · exact .inr hsent
        · exact .inl (inFlight_of_isPicked hpicked).1
      have hone : r.uncountedWeight p model m = 1 := if_pos ⟨hto, hcounted, hmissed⟩
      omega
  · exact Nat.zero_le _

theorem sentWeight_le_loadWeight (r : GeminiRequest) :
    r.sentWeight p model m ≤ r.loadWeight p model m := by
  unfold sentWeight loadWeight
  split
  · next h => rw [if_pos ⟨h.1, .inl h.2⟩]
  · exact Nat.zero_le _

end GeminiRequest

namespace Fleet
variable (s : GeminiSetup) (f : Fleet) (p : ProviderId) (model : String)

/-- The requests for a model that a free provider was sent in a minute. -/
def sent (m : ℕ) : ℕ := weight (GeminiRequest.sentWeight p model m) f.requests

/-- The requests that the counter of the minute misses. -/
def uncounted : ℕ := weight (GeminiRequest.uncountedWeight p model f.minute) f.requests

/-- Whether the choice of a provider keeps to the limit: the provider has none, or what the counter of
the minute has and what it misses are together below it. -/
def keepsLimit (a : GeminiAction) : Bool :=
  match f.chosen s a with
  | some (model, b) =>
    match s.policyFor model with
    | some policy =>
      if b.isFreeTier ∧ 0 < policy.rpmLimit then
        decide (((f.counters (.rpm b.id model f.minute) + f.uncounted b.id model : ℕ) : ℤ) <
          policy.rpmLimit)
      else true
    | none => true
  | none => true

/-- The invariant of a provider and a model with a limit. -/
structure Within (limit : ℕ) : Prop where
  recorded : ∀ r ∈ f.requests, ∀ m ∈ r.sentIn, m ≤ f.minute
  buckets : ∀ r ∈ f.requests, ∀ b sent minute date, r.stage = .counting b sent minute date →
    sent ≤ minute ∧ minute ≤ f.minute
  counted : weight (GeminiRequest.countedWeight p model f.minute) f.requests ≤
    f.counters (.rpm p model f.minute)
  deadline : ∀ m, ∀ d ∈ f.deadline (.rpm p model m), 60 * m + GEMINI_RPM_TTL_SECS ≤ d
  load : weight (GeminiRequest.loadWeight p model f.minute) f.requests ≤ limit
  past : ∀ m, f.sent p model m ≤ limit

section Keep
variable {s f p model} {limit : ℕ}

theorem weight_le_weight {g h : GeminiRequest → ℕ} {rs : List GeminiRequest}
    (hle : ∀ r ∈ rs, g r ≤ h r) : weight g rs ≤ weight h rs :=
  List.sum_le_sum hle

theorem sent_le_load :
    f.sent p model f.minute ≤ weight (GeminiRequest.loadWeight p model f.minute) f.requests :=
  weight_le_weight fun r _ => r.sentWeight_le_loadWeight p model f.minute

/-- What was sent in the minute or may still be is counted or missed. -/
theorem Within.load_le (h : f.Within p model limit) :
    weight (GeminiRequest.loadWeight p model f.minute) f.requests ≤
      f.counters (.rpm p model f.minute) + f.uncounted p model := by
  have hsplit : weight (GeminiRequest.loadWeight p model f.minute) f.requests ≤
      weight (fun r => r.countedWeight p model f.minute + r.uncountedWeight p model f.minute)
        f.requests :=
    weight_le_weight fun r _ => r.loadWeight_le p model f.minute
  rw [weight_add] at hsplit
  have hcounted := h.counted
  unfold uncounted
  omega

/-- A change of the requests that the counters and the clock do not see. -/
theorem Within.requests (h : f.Within p model limit) {rs : List GeminiRequest}
    (hrecorded : ∀ r ∈ rs, ∀ m ∈ r.sentIn, m ≤ f.minute)
    (hbuckets : ∀ r ∈ rs, ∀ b sent minute date, r.stage = .counting b sent minute date →
      sent ≤ minute ∧ minute ≤ f.minute)
    (hcounted : weight (GeminiRequest.countedWeight p model f.minute) rs ≤
      f.counters (.rpm p model f.minute))
    (hload : weight (GeminiRequest.loadWeight p model f.minute) rs ≤ limit)
    (hpast : ∀ m, m ≠ f.minute → weight (GeminiRequest.sentWeight p model m) rs ≤
      f.sent p model m) :
    Within { f with requests := rs } p model limit where
  recorded := hrecorded
  buckets := hbuckets
  counted := hcounted
  deadline := h.deadline
  load := hload
  past := by
    intro m
    by_cases hm : m = f.minute
    · subst hm
      exact sent_le_load.trans hload
    · exact le_trans (hpast m hm) (h.past m)

/-- A request that is new or goes to another stage. -/
structure Fits (f : Fleet) (r : GeminiRequest) : Prop where
  recorded : ∀ m ∈ r.sentIn, m ≤ f.minute
  buckets : ∀ b sent minute date, r.stage = .counting b sent minute date →
    sent ≤ minute ∧ minute ≤ f.minute

theorem Within.fits (h : f.Within p model limit) {r : GeminiRequest} (hr : r ∈ f.requests) :
    Fits f r := ⟨h.recorded r hr, h.buckets r hr⟩

theorem Within.begin (h : f.Within p model limit) {r : GeminiRequest} (hfits : Fits f r)
    (hcounted : r.isCounted = false) (hsent : r.sentIn = none)
    (hload : weight (GeminiRequest.loadWeight p model f.minute) f.requests +
      r.loadWeight p model f.minute ≤ limit) : (f.begin r).Within p model limit := by
  have hone : ∀ g : GeminiRequest → ℕ, weight g (f.requests ++ [r]) = weight g f.requests + g r := by
    intro g
    rw [weight_append, weight_cons, weight_nil, Nat.add_zero]
  have hmem : ∀ x ∈ f.requests ++ [r], Fits f x := by
    intro x hx
    rcases List.mem_append.mp hx with hold | hnew
    · exact h.fits hold
    · rw [List.mem_singleton.mp hnew]
      exact hfits
  refine h.requests (fun x hx => (hmem x hx).recorded) (fun x hx => (hmem x hx).buckets) ?_ ?_ ?_
  · have hzero : r.countedWeight p model f.minute = 0 := if_neg (by simp [hcounted])
    rw [hone, hzero, Nat.add_zero]
    exact h.counted
  · rw [hone]
    exact hload
  · intro m _
    have hzero : r.sentWeight p model m = 0 := if_neg (by simp [hsent])
    rw [hone, hzero]
    exact Nat.le_refl _

theorem Within.put (h : f.Within p model limit) {k : ℕ} {r : GeminiRequest} {stage : GeminiStage}
    (hr : f.requests[k]? = some r) (hfits : Fits f { r with stage })
    (hcounted : weight (GeminiRequest.countedWeight p model f.minute) f.requests +
      GeminiRequest.countedWeight p model f.minute { r with stage } ≤
        f.counters (.rpm p model f.minute) + r.countedWeight p model f.minute)
    (hload : weight (GeminiRequest.loadWeight p model f.minute) f.requests +
      GeminiRequest.loadWeight p model f.minute { r with stage } ≤
        limit + r.loadWeight p model f.minute)
    (hpast : ∀ m, m ≠ f.minute → GeminiRequest.sentWeight p model m { r with stage } ≤
      r.sentWeight p model m) : (f.put k r stage).Within p model limit := by
  obtain ⟨others, hreplaced, -⟩ := advance_replaced hr { r with stage } []
  have hbefore := fun g : GeminiRequest → ℕ => hreplaced.weight_before g
  have hafter : ∀ g : GeminiRequest → ℕ, weight g (advance f.requests k { r with stage } []) =
      g { r with stage } + weight g others := by
    intro g
    rw [hreplaced.weight_after, weight_nil, Nat.add_zero]
  have hmem : ∀ x ∈ advance f.requests k { r with stage } [], Fits f x :=
    hreplaced.forall_mem (fun x hx => h.fits (hreplaced.other_mem_before hx)) hfits
      (fun x hx => absurd hx List.not_mem_nil)
  refine h.requests (fun x hx => (hmem x hx).recorded) (fun x hx => (hmem x hx).buckets) ?_ ?_ ?_
  · rw [hbefore] at hcounted
    rw [hafter]
    omega
  · rw [hbefore] at hload
    rw [hafter]
    omega
  · intro m hm
    have hle := hpast m hm
    rw [hafter, sent, hbefore]
    omega

theorem Within.tick (h : f.Within p model limit) (secs : ℕ) :
    Within { f with now := f.now + secs } p model limit := by
  have hminute : f.minute ≤ (f.now + secs) / 60 := Nat.div_le_div_right (Nat.le_add_right _ _)
  by_cases hsame : (f.now + secs) / 60 = f.minute
  · have hkeep : ({ f with now := f.now + secs } : Fleet).minute = f.minute := hsame
    refine ⟨?_, ?_, ?_, h.deadline, ?_, h.past⟩
    · rw [hkeep]
      exact h.recorded
    · rw [hkeep]
      exact h.buckets
    · rw [hkeep]
      exact h.counted
    · rw [hkeep]
      exact h.load
  · have hlater : f.minute < (f.now + secs) / 60 := by omega
    -- nothing was sent in the new minute yet
    have hunsent : ∀ r ∈ f.requests, r.sentIn ≠ some ((f.now + secs) / 60) := by
      intro r hr heq
      have hle := h.recorded r hr _ heq
      omega
    refine ⟨?_, ?_, ?_, h.deadline, ?_, h.past⟩
    · intro r hr m hm
      exact (h.recorded r hr m hm).trans hminute
    · intro r hr b sent minute date hstage
      obtain ⟨hsent, hle⟩ := h.buckets r hr b sent minute date hstage
      exact ⟨hsent, hle.trans hminute⟩
    · have hzero : weight (GeminiRequest.countedWeight p model ((f.now + secs) / 60)) f.requests =
          0 := weight_zero fun r hr => if_neg fun hc => hunsent r hr hc.2.1
      exact hzero.trans_le (Nat.zero_le _)
    · refine le_trans (weight_le_weight fun r hr => ?_) h.load
      change GeminiRequest.loadWeight p model ((f.now + secs) / 60) r ≤ _
      unfold GeminiRequest.loadWeight
      split
      · next hc => rw [if_pos ⟨hc.1, .inr (hc.2.resolve_left (hunsent r hr))⟩]
      · exact Nat.zero_le _

/-- What the commands of `increment_gemini_counters` did, up to the one that failed. -/
theorem incrementCommands_spec (b : LlmProvider) (model : String) (minute date commands : ℕ)
    (f : Fleet) : ∃ counters deadline,
      ((incrementCommands b model minute date).take commands).foldl (fun f command => command f) f =
        { f with counters, deadline } ∧
      (∀ key, f.counters key ≤ counters key) ∧
      (0 < commands → counters (.rpm b.id model minute) = f.counters (.rpm b.id model minute) + 1) ∧
      ∀ p model' m, ∀ d ∈ deadline (.rpm p model' m), d ∈ f.deadline (.rpm p model' m) ∨
        m = minute ∧ d = f.now + GEMINI_RPM_TTL_SECS := by
  have hincr : ∀ (c : CounterKey → ℕ) key key', c key' ≤ Function.update c key (c key + 1) key' := by
    intro c key key'
    by_cases hkey : key' = key
    · subst hkey
      rw [Function.update_self]
      exact Nat.le_succ _
    · rw [Function.update_of_ne hkey]
  have hrpm : ∀ p model' m, ∀ d ∈ Function.update f.deadline (.rpm b.id model minute)
      (some (f.now + GEMINI_RPM_TTL_SECS)) (.rpm p model' m),
        d ∈ f.deadline (.rpm p model' m) ∨ m = minute ∧ d = f.now + GEMINI_RPM_TTL_SECS := by
    intro p model' m d hd
    by_cases hkey : (CounterKey.rpm p model' m) = .rpm b.id model minute
    · rw [hkey, Function.update_self] at hd
      exact .inr ⟨(CounterKey.rpm.inj hkey).2.2, (Option.some.inj hd).symm⟩
    · rw [Function.update_of_ne hkey] at hd
      exact .inl hd
  have hother : ∀ p model' m, (CounterKey.rpm p model' m) ≠ .rpd b.id model date := by simp
  have htwice : Function.update (Function.update f.counters (.rpm b.id model minute)
      (f.counters (.rpm b.id model minute) + 1)) (.rpd b.id model date)
        (Function.update f.counters (.rpm b.id model minute)
          (f.counters (.rpm b.id model minute) + 1) (.rpd b.id model date) + 1)
      (.rpm b.id model minute) = f.counters (.rpm b.id model minute) + 1 := by
    rw [Function.update_of_ne (hother _ _ _), Function.update_self]
  match commands with
  | 0 => exact ⟨_, _, rfl, fun _ => Nat.le_refl _, fun h => absurd h (Nat.lt_irrefl 0),
      fun _ _ _ _ hd => .inl hd⟩
  | 1 => exact ⟨_, _, rfl, hincr _ _, fun _ => Function.update_self .., fun _ _ _ _ hd => .inl hd⟩
  | 2 => exact ⟨_, _, rfl, hincr _ _, fun _ => Function.update_self .., hrpm⟩
  | 3 => exact ⟨_, _, rfl, fun key => (hincr _ _ key).trans (hincr _ _ key), fun _ => htwice, hrpm⟩
  | n + 4 =>
    have htake : (incrementCommands b model minute date).take (n + 4) =
        incrementCommands b model minute date := List.take_of_length_le (by simp [incrementCommands])
    rw [htake]
    refine ⟨_, _, rfl, fun key => (hincr _ _ key).trans (hincr _ _ key), fun _ => htwice, ?_⟩
    intro p model' m d hd
    change d ∈ Function.update (Function.update f.deadline (.rpm b.id model minute)
      (some (f.now + GEMINI_RPM_TTL_SECS))) (.rpd b.id model date) _ (.rpm p model' m) at hd
    rw [Function.update_of_ne (hother _ _ _)] at hd
    exact hrpm p model' m d hd

theorem Within.count (h : f.Within p model limit) {k : ℕ} {r : GeminiRequest} {b : LlmProvider}
    {m minute date commands : ℕ} (hr : f.requests[k]? = some r)
    (hstage : r.stage = .counting b m minute date) :
    ((((incrementCommands b r.model minute date).take commands).foldl
      (fun f command => command f) f).put k r (.ended b (some m) (0 < commands))).Within
        p model limit := by
  have hmem := List.mem_of_getElem? hr
  obtain ⟨hm, hbucket⟩ := h.buckets r hmem b m minute date hstage
  obtain ⟨counters, deadline, hfleet, hmono, hone, hdeadline⟩ :=
    incrementCommands_spec b r.model minute date commands f
  rw [hfleet]
  have hwithin : Within { f with counters, deadline } p model limit := by
    refine ⟨h.recorded, h.buckets, h.counted.trans (hmono _), ?_, h.load, h.past⟩
    intro m' d hd
    rcases hdeadline p model m' d hd with hold | ⟨rfl, rfl⟩
    · exact h.deadline m' d hold
    · have hstart : 60 * (f.now / 60) ≤ f.now := Nat.mul_div_le f.now 60
      have hle : 60 * m' ≤ 60 * (f.now / 60) := Nat.mul_le_mul_left 60 hbucket
      omega
  have hsame : ∀ m', GeminiRequest.sentWeight p model m'
      { r with stage := .ended b (some m) (0 < commands) } = r.sentWeight p model m' := by
    intro m'
    simp [GeminiRequest.sentWeight, GeminiRequest.isTo, GeminiRequest.sentIn, hstage]
  have hload : GeminiRequest.loadWeight p model f.minute
      { r with stage := .ended b (some m) (0 < commands) } = r.loadWeight p model f.minute := by
    simp [GeminiRequest.loadWeight, GeminiRequest.isTo, GeminiRequest.sentIn,
      GeminiRequest.isPicked, hstage]
  refine hwithin.put hr ⟨?_, fun _ _ _ _ hc => (by cases hc)⟩ ?_ ?_ fun m' _ => (hsame m').le
  · intro m' hm'
    obtain rfl := Option.some.inj hm'
    exact hm.trans hbucket
  · have hold := h.counted
    -- the request was sent in this minute and its counter is that of this minute
    change weight (GeminiRequest.countedWeight p model f.minute) f.requests +
      (if _ then 1 else 0) ≤ counters (.rpm p model f.minute) + _
    split
    · next hcond =>
      obtain ⟨hto, hsent, hcounted⟩ := hcond
      obtain rfl := Option.some.inj hsent
      obtain rfl : minute = f.minute := Nat.le_antisymm hbucket hm
      simp only [GeminiRequest.isTo, Bool.and_eq_true, decide_eq_true_eq] at hto
      have hcommands : 0 < commands := of_decide_eq_true hcounted
      have hincremented := hone hcommands
      rw [hto.2.2, hto.1] at hincremented
      omega
    · have hle := hmono (.rpm p model f.minute)
      omega
  · change weight (GeminiRequest.loadWeight p model f.minute) f.requests +
      GeminiRequest.loadWeight p model f.minute _ ≤ limit + r.loadWeight p model f.minute
    have hold := h.load
    omega

theorem Within.expire (h : f.Within p model limit) {key : CounterKey} {d : ℕ}
    (hd : f.deadline key = some d) (hnow : d ≤ f.now) :
    Within { f with
      counters := Function.update f.counters key 0
      deadline := Function.update f.deadline key none } p model limit := by
  have hother : (CounterKey.rpm p model f.minute) ≠ key := by
    intro hkey
    have hlate := h.deadline f.minute d (by rw [hkey, hd]; rfl)
    have hend : f.now < 60 * (f.now / 60) + 60 := by omega
    simp only [GEMINI_RPM_TTL_SECS, minute] at hlate
    omega
  refine ⟨h.recorded, h.buckets, ?_, ?_, h.load, h.past⟩
  · change _ ≤ Function.update f.counters key 0 (.rpm p model f.minute)
    rw [Function.update_of_ne hother]
    exact h.counted
  · intro m d' hd'
    change d' ∈ Function.update f.deadline key none (.rpm p model m) at hd'
    by_cases hkey : (CounterKey.rpm p model m) = key
    · rw [hkey, Function.update_self] at hd'
      cases hd'
    · rw [Function.update_of_ne hkey] at hd'
      exact h.deadline m d' hd'

/-- A choice that keeps the limit leaves room for the request it makes. -/
theorem Within.chosen (h : f.Within p model limit) {policy : GeminiRateLimitPolicy}
    (hpolicy : s.policyFor model = some policy) (hlimit : policy.rpmLimit = limit) (hpos : 0 < limit)
    {a : GeminiAction} {model' : String} {b : LlmProvider} (hok : f.keepsLimit s a = true)
    (hchosen : f.chosen s a = some (model', b)) :
    weight (GeminiRequest.loadWeight p model f.minute) f.requests +
      GeminiRequest.loadWeight p model f.minute ⟨model', .picked b⟩ ≤ limit := by
  unfold GeminiRequest.loadWeight
  split
  · next hto =>
    have hle := h.load_le
    simp only [GeminiRequest.isTo, Bool.and_eq_true, decide_eq_true_eq] at hto
    obtain ⟨⟨rfl, hfree, rfl⟩, -⟩ := hto
    have hlimited : b.isFreeTier = true ∧ 0 < policy.rpmLimit := ⟨hfree, by omega⟩
    simp only [keepsLimit, hchosen, hpolicy, if_pos hlimited, decide_eq_true_eq] at hok
    rw [hlimit] at hok
    have hroom := Int.ofNat_lt.mp hok
    unfold GeminiRequest.loadWeight at hle
    omega
  · exact h.load

theorem Within.step (h : f.Within p model limit) {policy : GeminiRateLimitPolicy}
    (hpolicy : s.policyFor model = some policy) (hlimit : policy.rpmLimit = limit) (hpos : 0 < limit)
    {a : GeminiAction} {f' : Fleet} (hok : f.keepsLimit s a = true) (hs : f.step s a = some f') :
    f'.Within p model limit := by
  have hsame : ∀ {k : ℕ} {r : GeminiRequest} {stage : GeminiStage}, f.requests[k]? = some r →
      (∀ m ∈ GeminiRequest.sentIn { r with stage }, m ≤ f.minute) →
      (∀ b sent minute date, stage = .counting b sent minute date →
        sent ≤ minute ∧ minute ≤ f.minute) →
      GeminiRequest.isCounted { r with stage } = false →
      GeminiRequest.loadWeight p model f.minute { r with stage } ≤ r.loadWeight p model f.minute →
      (∀ m, m ≠ f.minute → GeminiRequest.sentWeight p model m { r with stage } ≤
        r.sentWeight p model m) → (f.put k r stage).Within p model limit := by
    intro k r stage hr hrecorded hbuckets hcounted hload hpast
    have hzero : GeminiRequest.countedWeight p model f.minute { r with stage } = 0 :=
      if_neg fun hc => by
        rw [hcounted] at hc
        cases hc.2.2
    have hbefore := h.counted
    have hold := h.load
    exact h.put hr ⟨hrecorded, hbuckets⟩ (by omega) (by omega) hpast
  cases a with
  | tick secs =>
    obtain rfl := Option.some.inj hs
    exact h.tick secs
  | route model' tier =>
    obtain rfl := Option.some.inj hs
    refine h.begin ⟨fun _ hm => (by cases hm), fun _ _ _ _ hc => (by cases hc)⟩ rfl rfl ?_
    simpa [GeminiRequest.loadWeight, GeminiRequest.isTo] using h.load
  | pick k answered =>
    simp only [Fleet.step, Option.bind_eq_bind] at hs
    obtain ⟨r, hr, hs⟩ := Option.bind_eq_some_iff.mp hs
    split at hs
    · next minute date tier hstage =>
      cases hdirect : f.directPick s answered r.model minute date tier with
      | some b =>
        rw [hdirect] at hs
        obtain rfl := Option.some.inj hs
        have hchosen : f.chosen s (.pick k answered) = some (r.model, b) := by
          simp [Fleet.chosen, hr, hstage, hdirect]
        have hroom := h.chosen hpolicy hlimit hpos hok hchosen
        refine h.put hr ⟨fun _ hm => (by cases hm), fun _ _ _ _ hc => (by cases hc)⟩ ?_ ?_ ?_
        · have hzero : GeminiRequest.countedWeight p model f.minute { r with stage := .picked b } =
              0 := if_neg fun hc => by cases hc.2.1
          have hbefore := h.counted
          omega
        · exact hroom.trans (Nat.le_add_right _ _)
        · intro m _
          have hzero : GeminiRequest.sentWeight p model m { r with stage := .picked b } = 0 :=
            if_neg fun hc => by cases hc.2
          omega
      | none =>
        rw [hdirect] at hs
        obtain rfl := Option.some.inj hs
        refine hsame hr (fun _ hm => (by cases hm)) (fun _ _ _ _ hc => (by cases hc)) rfl ?_ ?_
        · have hzero : GeminiRequest.loadWeight p model f.minute { r with stage := .refused } = 0 :=
            if_neg fun hc => by simp [GeminiRequest.isTo] at hc
          omega
        · intro m _
          have hzero : GeminiRequest.sentWeight p model m { r with stage := .refused } = 0 :=
            if_neg fun hc => by cases hc.2
          omega
    · cases hs
  | claim model' tier i =>
    simp only [Fleet.step, Option.bind_eq_bind] at hs
    obtain ⟨b, hb, hs⟩ := Option.bind_eq_some_iff.mp hs
    obtain rfl := Option.some.inj hs
    have hchosen : f.chosen s (.claim model' tier i) = some (model', b) := by
      simp [Fleet.chosen, hb]
    have hroom := h.chosen hpolicy hlimit hpos hok hchosen
    exact h.begin ⟨fun _ hm => (by cases hm), fun _ _ _ _ hc => (by cases hc)⟩ rfl rfl hroom
  | send k =>
    simp only [Fleet.step, Option.bind_eq_bind] at hs
    obtain ⟨r, hr, hs⟩ := Option.bind_eq_some_iff.mp hs
    split at hs
    · next b hstage =>
      obtain rfl := Option.some.inj hs
      refine hsame hr ?_ (fun _ _ _ _ hc => (by cases hc)) rfl ?_ ?_
      · intro m hm
        obtain rfl := Option.some.inj hm
        exact Nat.le_refl _
      · simp [GeminiRequest.loadWeight, GeminiRequest.isTo, GeminiRequest.isPicked,
          GeminiRequest.sentIn, hstage]
      · intro m hm
        have hzero : GeminiRequest.sentWeight p model m
            { r with stage := .streaming b f.minute } = 0 :=
          if_neg fun hc => hm (Option.some.inj hc.2).symm
        omega
    · cases hs
  | finish k =>
    simp only [Fleet.step, Option.bind_eq_bind] at hs
    obtain ⟨r, hr, hs⟩ := Option.bind_eq_some_iff.mp hs
    split at hs
    · next b sent hstage =>
      have hsent : sent ≤ f.minute :=
        h.recorded r (List.mem_of_getElem? hr) sent (by simp [GeminiRequest.sentIn, hstage])
      split at hs
      · obtain rfl := Option.some.inj hs
        refine hsame hr ?_ ?_ rfl ?_ ?_
        · intro m hm
          obtain rfl := Option.some.inj hm
          exact hsent
        · intro b' sent' minute' date' hc
          obtain ⟨-, rfl, rfl, -⟩ := GeminiStage.counting.inj hc
          exact ⟨hsent, Nat.le_refl _⟩
        · simp [GeminiRequest.loadWeight, GeminiRequest.isTo, GeminiRequest.isPicked,
            GeminiRequest.sentIn, hstage]
        · intro m _
          simp [GeminiRequest.sentWeight, GeminiRequest.isTo, GeminiRequest.sentIn, hstage]
      · obtain rfl := Option.some.inj hs
        refine hsame hr ?_ (fun _ _ _ _ hc => (by cases hc)) rfl ?_ ?_
        · intro m hm
          obtain rfl := Option.some.inj hm
          exact hsent
        · simp [GeminiRequest.loadWeight, GeminiRequest.isTo, GeminiRequest.isPicked,
            GeminiRequest.sentIn, hstage]
        · intro m _
          simp [GeminiRequest.sentWeight, GeminiRequest.isTo, GeminiRequest.sentIn, hstage]
    · cases hs
  | count k commands =>
    simp only [Fleet.step, Option.bind_eq_bind] at hs
    obtain ⟨r, hr, hs⟩ := Option.bind_eq_some_iff.mp hs
    split at hs
    · next hstage =>
      obtain rfl := Option.some.inj hs
      exact h.count hr hstage
    · cases hs
  | fail k =>
    simp only [Fleet.step, Option.bind_eq_bind] at hs
    obtain ⟨r, hr, hs⟩ := Option.bind_eq_some_iff.mp hs
    split at hs
    · next b hstage =>
      obtain rfl := Option.some.inj hs
      refine hsame hr (fun _ hm => (by cases hm)) (fun _ _ _ _ hc => (by cases hc)) rfl ?_ ?_
      · have hzero : GeminiRequest.loadWeight p model f.minute
            { r with stage := .ended b none false } = 0 := if_neg fun hc => by
          simp [GeminiRequest.sentIn, GeminiRequest.isPicked] at hc
        omega
      · intro m _
        have hzero : GeminiRequest.sentWeight p model m { r with stage := .ended b none false } =
            0 := if_neg fun hc => by cases hc.2
        omega
    · next b sent hstage =>
      obtain rfl := Option.some.inj hs
      refine hsame hr ?_ (fun _ _ _ _ hc => (by cases hc)) rfl ?_ ?_
      · intro m hm
        exact h.recorded r (List.mem_of_getElem? hr) m (by simpa [GeminiRequest.sentIn, hstage] using hm)
      · simp [GeminiRequest.loadWeight, GeminiRequest.isTo, GeminiRequest.isPicked,
          GeminiRequest.sentIn, hstage]
      · intro m _
        simp [GeminiRequest.sentWeight, GeminiRequest.isTo, GeminiRequest.sentIn, hstage]
    · cases hs
  | expire key =>
    simp only [Fleet.step, Option.bind_eq_bind] at hs
    obtain ⟨d, hd, hs⟩ := Option.bind_eq_some_iff.mp hs
    split at hs
    · next hnow =>
      obtain rfl := Option.some.inj hs
      exact h.expire hd hnow
    · cases hs

theorem within_init (p : ProviderId) (model : String) (limit now : ℕ) :
    (init now).Within p model limit where
  recorded := fun _ hr => absurd hr List.not_mem_nil
  buckets := fun _ hr => absurd hr List.not_mem_nil
  counted := Nat.zero_le _
  deadline := fun _ _ hd => (by cases hd)
  load := Nat.zero_le _
  past := fun _ => Nat.zero_le _

end Keep

def freeProvider : LlmProvider := { id := 1, providerType := .gemini, isFreeTier := true }

/-- One free provider, on which every model has a limit of one request a minute. -/
def onePerMinute : GeminiSetup where
  ports := { listAll := some [freeProvider], ollamaModelRepo := none, modelSelectionRepo := none
             globalModelSettingsRepo := none, isPreloadExcluded := fun _ _ => false }
  policyFor := fun _ => some { rpmLimit := 1, rpdLimit := 0, availableOnFreeTier := true }
  hasValkey := true

/-- A request on the direct path, a pick that finds the counter full, and one in the next minute. -/
def minuteApart : List GeminiAction :=
  [.route "m" none, .pick 0 (fun _ => true), .send 0, .finish 0, .count 0 4, .route "m" none,
    .pick 1 (fun _ => true), .tick 60, .route "m" none, .pick 2 (fun _ => true), .send 2]

end Fleet

end Veronex
