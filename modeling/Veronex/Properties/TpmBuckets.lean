import Veronex.Inference.RateLimiter
import Veronex.Properties.TpmBooks
import Mathlib.Data.List.Flatten

/-! # The token buckets of a key

The limiter reserves `TPM_ESTIMATED_TOKENS` once for a request; `record_tpm` puts the real count in
its place once for a job, and only where the job runs to its end.

`tpm_reconciled`: where every request of the key makes one job in the minute it was admitted in, and
the job runs once and to its end, a bucket whose jobs have all ended holds the tokens they produced.
-/
namespace Veronex
open Concurrency
set_option autoImplicit false

/-! ## What a bucket is to hold -/

def Task.tokensOf (j : Uuid) : Task → ℕ
  | .run v => if v.uuid = j then v.ts.tokenCount else 0
  | _ => 0

/-- The tokens a job produced. -/
def Config.tokensOf (c : Config) (j : Uuid) : ℕ := weight (Task.tokensOf j) c.tasks

/-- The row of a job has ended, or its worker lost it to another instance; nobody runs it. -/
def Config.JobEnded (c : Config) (j : Uuid) : Prop :=
  (c.world.RowEnded j ∨ ∃ v, .run v ∈ c.tasks ∧ v.uuid = j ∧ v.pc = .returned .ownershipLost) ∧
    ∀ v, .run v ∈ c.tasks → v.uuid = j → (Task.run v).ended = true

def Request.ChargedTo (key : Uuid) (minute : ℕ) (r : Request) : Prop :=
  r.key.id = key ∧ r.charged = some minute

instance (key : Uuid) (minute : ℕ) : DecidablePred (Request.ChargedTo key minute) := fun r => by
  unfold Request.ChargedTo
  exact inferInstance

namespace Gateway

/-- The requests admitted into a bucket. -/
def admitted (g : Gateway) (key : Uuid) (minute : ℕ) : List Request :=
  g.requests.filter (Request.ChargedTo key minute)

/-- The tokens that the jobs of these requests produced. -/
def produced (g : Gateway) (key : Uuid) (minute : ℕ) : ℕ :=
  weight g.config.tokensOf ((g.admitted key minute).flatMap Request.jobs)

/-- These requests are answered, and their jobs have ended. -/
def AllEnded (g : Gateway) (key : Uuid) (minute : ℕ) : Prop :=
  ∀ r ∈ g.admitted key minute, r.pc = .responded ∧ ∀ j ∈ r.jobs, g.config.JobEnded j

/-- The reservation of a job is in the bucket of this minute. -/
def Due (g : Gateway) (key : Uuid) (minute : ℕ) (j : Uuid) : Prop :=
  ∃ r ∈ g.requests, r.ChargedTo key minute ∧ j ∈ r.jobs

/-- What a step must find, for the requests and the jobs of a key. -/
def Reconciles (key : Uuid) (g : Gateway) : GatewayAction → Prop
  -- the key has a limit
  | .arrive _ k => k.id = key → 0 < k.rateLimitTpm
  -- a permit is free for a request that has its reservation
  | .limit k _ => ∀ r, g.requests[k]? = some r → r.key.id = key → r.pc = .acquire →
      g.inFlight r.inst key < MAX_KEY_CONCURRENT
  -- a handler submits one job
  | .submit k _ => ∀ r, g.requests[k]? = some r → r.key.id = key → r.jobs = []
  | .respond k => ∀ r, g.requests[k]? = some r → r.key.id = key → r.jobs ≠ []
  -- the counter does not expire
  | .expire k _ => k ≠ key
  | .act a => g.config.Reconciles key (g.Due key) a ∧ match a with
    | .restart inst => ∀ r ∈ g.requests, r.inst = inst → r.key.id = key → r.charged.isSome →
        r.jobs ≠ []
    | _ => True

end Gateway

/-! ## The steps of a gateway -/

section Steps
variable {g g' : Gateway} {k : ℕ} {r : Request} {req : SubmitJobRequest}

/-- The step that makes the id of a job. -/
theorem submit_creates (w : World) (inst : InstanceId) (req : SubmitJobRequest) :
    ∃ s : Submit, Submit.step w { inst, req, pc := .create } =
        some { access := .newJob inst req, next := s } ∧ s.req = req ∧ s.pc ≠ .create ∧
      ∀ jobs : List Uuid, s.pc.building = some w.nextJob ∧ (match buildJob w.nextJob req w.now with
          | .ok _ => jobs ++ [w.nextJob]
          | .error _ => jobs) = jobs ++ [w.nextJob] ∨
        s.pc.building = none ∧ (match buildJob w.nextJob req w.now with
          | .ok _ => jobs ++ [w.nextJob]
          | .error _ => jobs) = jobs := by
  cases hbuild : buildJob w.nextJob req w.now with
  | error e =>
    refine ⟨{ inst, req, pc := .returned (.error e) }, ?_, rfl, by rintro ⟨⟩,
      fun jobs => .inr ⟨rfl, rfl⟩⟩
    simp [Submit.step, hbuild, Submit.goto]
  | ok job =>
    have hid : job.id = w.nextJob := by
      obtain ⟨prompt, modelName, -, -, rfl⟩ := buildJob_ok hbuild
      rfl
    refine ⟨{ inst, req, pc := .save job }, ?_, rfl, by rintro ⟨⟩, fun jobs => .inl ⟨?_, rfl⟩⟩
    · simp [Submit.step, hbuild, Submit.goto]
    · rw [← hid]
      rfl

/-- `submit` up to the id of its job. -/
theorem submitStep_eq (h : g.submitStep k r req = some g') :
    ∃ s : Submit, ∃ jobs, r.pc = .handling ∧ req.apiKeyId = some r.key.id ∧ s.req = req ∧
      s.pc ≠ .create ∧
      (s.pc.building = some g.config.world.nextJob ∧ jobs = r.jobs ++ [g.config.world.nextJob] ∨
        s.pc.building = none ∧ jobs = r.jobs) ∧
      g' = { g.put k { r with jobs } with config :=
        { world := g.config.world.apply (.newJob r.inst req)
          tasks := g.config.tasks ++ [.submit s] } } := by
  unfold Gateway.submitStep at h
  split at h
  · next hcond =>
    obtain ⟨started, hstarted, h⟩ := Option.bind_eq_some_iff.mp h
    obtain ⟨config, hconfig, h⟩ := Option.bind_eq_some_iff.mp h
    have hstart : g.config.step (.start (.submit r.inst req)) = some { g.config with
        tasks := g.config.tasks ++ [.submit { inst := r.inst, req, pc := .create }] } := by
      simp [Config.step, Config.CanStart, Config.started]
    obtain rfl := Option.some.inj (hstart.symm.trans hstarted)
    obtain ⟨s, hs, hreq, hpc, hjobs⟩ := submit_creates g.config.world r.inst req
    have hrun : Config.step { g.config with
          tasks := g.config.tasks ++ [.submit { inst := r.inst, req, pc := .create }] }
        (.run g.config.tasks.length .go) = some
          { world := g.config.world.apply (.newJob r.inst req)
            tasks := g.config.tasks ++ [.submit s] } := by
      simp [Config.step, Task.step, hs, Moved.map, advance]
    obtain rfl := Option.some.inj (hrun.symm.trans hconfig)
    obtain rfl := Option.some.inj h
    exact ⟨s, _, hcond.1, hcond.2, hreq, hpc, hjobs r.jobs, rfl⟩
  · cases h

/-- What an action of the jobs does to the requests. -/
theorem act_eq {a : Action} (h : g.act a = some g') :
    ∃ config, g.config.step a = some config ∧
      ((∀ inst, a ≠ .restart inst) ∧ (∀ inst req, a = .start (.submit inst req) → req.apiKeyId = none) ∧
          g' = { g with config } ∨
        ∃ inst, a = .restart inst ∧
          g' = { g with config, requests := g.requests.map (Gateway.endRequests inst) }) := by
  obtain ⟨config, hconfig, h⟩ := Option.bind_eq_some_iff.mp h
  refine ⟨config, hconfig, ?_⟩
  split at h
  · next inst req =>
    obtain ⟨hnone, h⟩ := Option.ite_none_left_eq_some.mp h
    refine .inl ⟨fun inst' heq => ?_, fun inst' req' heq => ?_, (Option.some.inj h).symm⟩
    · cases heq
    · cases heq
      simpa using hnone
  · next inst _ => exact .inr ⟨inst, rfl, (Option.some.inj h).symm⟩
  · next hsubmit hrestart =>
    exact .inl ⟨fun inst heq => hrestart inst heq, fun inst req heq => absurd heq (hsubmit inst req),
      (Option.some.inj h).symm⟩

theorem limitStep_config {rpmOk : Bool} (h : g.limitStep k r rpmOk = some g') :
    g'.config = g.config := by
  unfold Gateway.limitStep at h
  repeat' split at h
  all_goals first
    | (obtain rfl := Option.some.inj h; rfl)
    | cases h

/-- A run of a gateway is a run of its jobs. -/
theorem config_run {ok : Gateway → GatewayAction → Prop} {d : Deployment}
    (h : Run Gateway.step ok (Gateway.init d) g) :
    Run Config.step (fun _ _ => True) (Config.init d) g.config := by
  refine h.invariant (I := fun x => Run Config.step (fun _ _ => True) (Config.init d) x.config)
    (.refl _) fun x y a _ hx _ hs => ?_
  cases a with
  | arrive inst key => obtain rfl := Option.some.inj hs; exact hx
  | limit k rpmOk =>
    obtain ⟨r, -, hs⟩ := Option.bind_eq_some_iff.mp hs
    rw [limitStep_config hs]
    exact hx
  | submit k req =>
    obtain ⟨r, -, hs⟩ := Option.bind_eq_some_iff.mp hs
    unfold Gateway.submitStep at hs
    split at hs
    · obtain ⟨started, hstarted, hs⟩ := Option.bind_eq_some_iff.mp hs
      obtain ⟨config, hconfig, hs⟩ := Option.bind_eq_some_iff.mp hs
      obtain rfl := Option.some.inj hs
      exact (hx.snoc trivial hstarted).snoc trivial hconfig
    · cases hs
  | respond k =>
    obtain ⟨r, -, hs⟩ := Option.bind_eq_some_iff.mp hs
    split at hs
    · obtain rfl := Option.some.inj hs; exact hx
    · cases hs
  | expire key minute =>
    obtain ⟨deadline, -, hs⟩ := Option.bind_eq_some_iff.mp hs
    split at hs
    · obtain rfl := Option.some.inj hs; exact hx
    · cases hs
  | act a =>
    obtain ⟨config, hconfig, ⟨-, -, rfl⟩ | ⟨inst, -, rfl⟩⟩ := act_eq hs
    · exact hx.snoc trivial hconfig
    · exact hx.snoc trivial hconfig

end Steps

/-! ## The books of the requests -/

/-- What a request has put into a bucket. -/
def Request.reservation (key : Uuid) (minute : ℕ) (r : Request) : ℤ :=
  if r.ChargedTo key minute then TPM_ESTIMATED_TOKENS else 0

structure Request.OnBooks (r : Request) : Prop where
  limited : 0 < r.key.rateLimitTpm
  one : r.jobs.length ≤ 1
  charged : match r.pc with
    | .checkRpm | .readMinute | .checkTpm _ => r.charged = none ∧ r.jobs = []
    | .acquire | .handling => r.charged.isSome
    | .responded => r.charged.isSome ↔ r.jobs ≠ []

structure Gateway.Books (key : Uuid) (g : Gateway) : Prop where
  requests : ∀ r ∈ g.requests, r.key.id = key → r.OnBooks
  made : ∀ r ∈ g.requests, ∀ j ∈ r.jobs, j < g.config.world.nextJob
  once : (g.requests.flatMap Request.jobs).Nodup
  reserved : ∀ minute, g.reserved key minute = weight (Request.reservation key minute) g.requests
  config : g.config.Books key (g.Due key)

section Books
variable {key : Uuid} {g g' : Gateway} {k : ℕ} {r r' : Request} {others requests : List Request}

/-- A reservation is in one bucket. -/
theorem due_unique {minute minute' : ℕ} {j : Uuid} (hg : g.Books key) (h : g.Due key minute j)
    (h' : g.Due key minute' j) : minute' = minute := by
  obtain ⟨r, hr, ⟨-, hcharged⟩, hj⟩ := h
  obtain ⟨r', hr', ⟨-, hcharged'⟩, hj'⟩ := h'
  by_cases heq : r = r'
  · subst heq
    exact Option.some.inj (hcharged'.symm.trans hcharged)
  · have hdisjoint := (List.nodup_flatMap.mp hg.once).2
    have : Std.Symm (Function.onFun List.Disjoint Request.jobs) :=
      ⟨fun _ _ hd _ hmine hother => hd hother hmine⟩
    have hapart := hdisjoint.forall hr hr' heq
    exact absurd hj' (hapart hj)

/-- A step of a request that submits nothing. -/
theorem Gateway.Books.moved (hg : g.Books key) (hreplaced : Replaced g.requests r r' [] others requests)
    (hkey : r'.key = r.key) (hjobs : r'.jobs = r.jobs) (hr' : r'.key.id = key → r'.OnBooks)
    (hcharged : r.key.id = key → r.jobs ≠ [] → r'.charged = r.charged)
    (hrequests : g'.requests = requests) (hconfig : g'.config = g.config)
    (hreserved : ∀ minute, g'.reserved key minute + r.reservation key minute =
      g.reserved key minute + r'.reservation key minute) : g'.Books key := by
  have hdue : g'.Due key = g.Due key := by
    funext minute j
    have hsame : r'.ChargedTo key minute ∧ j ∈ r'.jobs ↔ r.ChargedTo key minute ∧ j ∈ r.jobs := by
      rw [hjobs]
      refine and_congr_left fun hj => ?_
      unfold Request.ChargedTo
      rw [hkey]
      refine and_congr_right fun hid => ?_
      rw [hcharged hid (List.ne_nil_of_mem hj)]
    refine propext ⟨?_, ?_⟩
    · rintro ⟨u, hu, hrest⟩
      rw [hrequests] at hu
      rcases hreplaced.mem_after.mp hu with rfl | hother | hnew
      · exact ⟨r, hreplaced.task_mem, hsame.mp hrest⟩
      · exact ⟨u, hreplaced.other_mem_before hother, hrest⟩
      · cases hnew
    · rintro ⟨u, hu, hrest⟩
      rcases hreplaced.mem_before.mp hu with rfl | hother
      · exact ⟨r', hrequests ▸ hreplaced.successor_mem, hsame.mpr hrest⟩
      · exact ⟨u, hrequests ▸ hreplaced.other_mem hother, hrest⟩
  refine ⟨?_, ?_, ?_, fun minute => ?_, ?_⟩
  · rw [hrequests]
    exact hreplaced.forall_mem (fun u hu => hg.requests u (hreplaced.other_mem_before hu)) hr'
      (by rintro _ ⟨⟩)
  · rw [hrequests, hconfig]
    refine hreplaced.forall_mem (fun u hu => hg.made u (hreplaced.other_mem_before hu))
      ?_ (by rintro _ ⟨⟩)
    rw [hjobs]
    exact hg.made r hreplaced.task_mem
  · have hbefore : (g.requests.flatMap Request.jobs).Perm
        ((r :: others).flatMap Request.jobs) := hreplaced.1.flatMap_right _
    have hafter : (requests.flatMap Request.jobs).Perm
        ((r' :: (others ++ [])).flatMap Request.jobs) := hreplaced.2.flatMap_right _
    rw [hrequests, hafter.nodup_iff, List.append_nil, List.flatMap_cons, hjobs, ← List.flatMap_cons,
      ← hbefore.nodup_iff]
    exact hg.once
  · have hbefore := hreplaced.weight_before (Request.reservation key minute)
    have hafter := hreplaced.weight_after (Request.reservation key minute)
    rw [weight_nil, add_zero] at hafter
    have hstep := hreserved minute
    have hledger := hg.reserved minute
    rw [hrequests]
    omega
  · rw [hconfig, hdue]
    exact hg.config

/-- A handler submits: the books of the jobs go on with the new one. -/
theorem Config.Books.submitted {c : Config} {due due' : ℕ → Uuid → Prop} {s : Submit}
    {inst : InstanceId} {req : SubmitJobRequest} (hc : c.Books key due)
    (hids : c.world.Made ∧ ∀ t ∈ c.tasks, t.Made c.world)
    (hsame : ∀ minute j, j ≠ c.world.nextJob → (due' minute j ↔ due minute j))
    (hcreate : s.pc ≠ .create)
    (hbuilding : ∀ j, s.pc.building = some j → (s.req.apiKeyId = some key ↔ ∃ minute, due' minute j)) :
    Config.Books key due' { world := c.world.apply (.newJob inst req)
                            tasks := c.tasks ++ [.submit s] } := by
  obtain ⟨hworld, htasks⟩ := hids
  have hne : ∀ {j}, j < c.world.nextJob → j ≠ c.world.nextJob := fun hlt => Nat.ne_of_lt hlt
  have hex : ∀ {j}, j ≠ c.world.nextJob → ((∃ minute, due' minute j) ↔ ∃ minute, due minute j) :=
    fun hj => exists_congr fun minute => hsame minute _ hj
  -- nobody runs the new job
  have hfresh : ∀ t ∈ c.tasks, t.startedOn c.world.nextJob = 0 := by
    intro t ht
    cases t with
    | run v => exact if_neg fun hcond => hne (htasks _ ht) hcond.1
    | _ => rfl
  refine ⟨fun minute j hdue => ?_, fun t ht => ?_, fun i j e he => ?_, fun j hj => ?_,
    fun j hj hended => ?_, fun minute => ?_⟩
  · show j < c.world.nextJob + 1
    by_cases hj : j = c.world.nextJob
    · exact Nat.lt_succ_of_le hj.le
    · exact Nat.lt_succ_of_lt (hc.made minute j ((hsame minute j hj).mp hdue))
  · rcases List.mem_append.mp ht with ht | ht
    · have hbooks := hc.tasks t ht
      have hmade := htasks t ht
      cases t with
      | submit u =>
        refine ⟨hbooks.create, fun j hj => ?_⟩
        rw [hex (hne (hmade j hj))]
        exact hbooks.building j hj
      | run v =>
        have hv : v.uuid ≠ c.world.nextJob := hne hmade
        refine ⟨hbooks.fresh, fun hstage => ?_, fun hkey => ?_, hbooks.kept, hbooks.failed⟩
        · rw [hex hv]
          exact hbooks.keyed hstage
        · obtain ⟨minute, hm, hdue⟩ := hbooks.dated hkey
          exact ⟨minute, hm, (hsame minute _ hv).mpr hdue⟩
      | _ => trivial
    · obtain rfl := List.mem_singleton.mp ht
      exact ⟨fun hpc => absurd hpc hcreate, hbuilding⟩
  · have hj : j ≠ c.world.nextJob := hne (hworld.entries i j e he)
    have hentry := hc.entries i j e he
    refine ⟨fun minute hm => ?_, fun minute hm hdue => ?_⟩
    · rw [hex hj]
      exact hentry.keyed minute hm
    · exact (hsame minute j hj).mpr (hentry.dated minute hm ((hex hj).mp hdue))
  · rw [weight_append, weight_cons, weight_nil]
    show weight (Task.startedOn j) c.tasks + 0 ≤ 1
    by_cases hnew : j = c.world.nextJob
    · subst hnew
      rw [(weight_eq_zero _).mpr hfresh]
      omega
    · exact hc.once j ((hex hnew).mp hj)
  · have hlt : j < c.world.nextJob := by
      obtain ⟨row, hrow, -⟩ := hended
      exact (hworld.rows j row hrow).2
    obtain ⟨v, hv, hrest⟩ := hc.rows j ((hex (hne hlt)).mp hj) hended
    exact ⟨v, List.mem_append_left _ hv, hrest⟩
  · rw [weight_append, weight_cons, weight_nil]
    have hledger := hc.ledger minute
    show c.world.tpm key minute = weight (Task.adjusted key minute) c.tasks + (0 + 0)
    omega

theorem limit_books {rpmOk : Bool} (hg : g.Books key) (hr : g.requests[k]? = some r)
    (hok : r.key.id = key → r.pc = .acquire → g.inFlight r.inst key < MAX_KEY_CONCURRENT)
    (h : g.limitStep k r rpmOk = some g') : g'.Books key := by
  have hmem : r ∈ g.requests := List.mem_of_getElem? hr
  -- a step that reserves nothing
  have hgoes : ∀ pc, (r.key.id = key → r.OnBooks → (r.goto pc).OnBooks) →
      (g.put k (r.goto pc)).Books key := by
    intro pc hpc
    obtain ⟨others, hreplaced, -⟩ := advance_replaced hr (r.goto pc) []
    refine hg.moved hreplaced rfl rfl (fun hkey => hpc hkey (hg.requests r hmem hkey))
      (fun _ _ => rfl) ?_ rfl fun minute => rfl
    simp [Gateway.put, advance]
  unfold Gateway.limitStep at h
  cases hpc : r.pc with
  | checkRpm =>
    rw [hpc] at h
    obtain rfl := Option.some.inj h
    refine hgoes _ fun _ hbooks => ⟨hbooks.limited, hbooks.one, ?_⟩
    have hcharged := hbooks.charged
    rw [hpc] at hcharged
    by_cases hrpm : 0 < r.key.rateLimitRpm ∧ rpmOk = false
    · simp [Request.goto, hrpm, hcharged.1, hcharged.2]
    · simp [Request.goto, hrpm, hbooks.limited, hcharged.1, hcharged.2]
  | readMinute =>
    rw [hpc] at h
    obtain rfl := Option.some.inj h
    refine hgoes _ fun _ hbooks => ⟨hbooks.limited, hbooks.one, ?_⟩
    have hcharged := hbooks.charged
    rw [hpc] at hcharged
    exact hcharged
  | checkTpm minute =>
    rw [hpc] at h
    dsimp only at h
    split at h
    · obtain rfl := Option.some.inj h
      refine hgoes _ fun _ hbooks => ⟨hbooks.limited, hbooks.one, ?_⟩
      have hcharged := hbooks.charged
      rw [hpc] at hcharged
      simp [Request.goto, hcharged.1, hcharged.2]
    · obtain rfl := Option.some.inj h
      obtain ⟨others, hreplaced, -⟩ :=
        advance_replaced hr { r with charged := some minute, pc := .acquire } []
      have hbefore : r.key.id = key → r.charged = none ∧ r.jobs = [] := by
        intro hkey
        have hcharged := (hg.requests r hmem hkey).charged
        rwa [hpc] at hcharged
      refine hg.moved hreplaced rfl rfl (fun hkey => ?_) (fun hkey hjobs => ?_) ?_ rfl fun minute' => ?_
      · have hbooks := hg.requests r hmem hkey
        exact ⟨hbooks.limited, hbooks.one, rfl⟩
      · exact absurd (hbefore hkey).2 hjobs
      · simp [Gateway.put, Gateway.reserve, advance]
      · by_cases hkey : r.key.id = key
        · have hnone : r.reservation key minute' = 0 := by
            refine if_neg fun hcond => ?_
            rw [Request.ChargedTo, (hbefore hkey).1] at hcond
            cases hcond.2
          subst hkey
          rw [hnone]
          by_cases hminute : minute' = minute
          · subst hminute
            simp [Gateway.put, Gateway.reserve, Request.reservation, Request.ChargedTo]
          · simp [Gateway.put, Gateway.reserve, Request.reservation, Request.ChargedTo,
              Function.update_of_ne hminute, Ne.symm hminute]
        · have hother : ∀ u : Request, u.key = r.key → u.reservation key minute' = 0 := by
            intro u hu
            exact if_neg fun hcond => hkey (hu ▸ hcond.1)
          have hsame : r.reservation key minute' = 0 := hother r rfl
          rw [hother { r with charged := some minute, pc := .acquire } rfl, hsame]
          simp [Gateway.put, Gateway.reserve, Function.update_of_ne (Ne.symm hkey)]
  | acquire =>
    rw [hpc] at h
    obtain rfl := Option.some.inj h
    refine hgoes _ fun hkey hbooks => ⟨hbooks.limited, hbooks.one, ?_⟩
    have hcharged := hbooks.charged
    rw [hpc] at hcharged
    have hfree := hok hkey hpc
    rw [← hkey] at hfree
    simp only [Request.goto]
    rw [if_pos hfree]
    exact hcharged
  | handling => rw [hpc] at h; cases h
  | responded => rw [hpc] at h; cases h

theorem submit_books {req : SubmitJobRequest} (hg : g.Books key)
    (hids : g.config.world.Made ∧ ∀ t ∈ g.config.tasks, t.Made g.config.world)
    (hr : g.requests[k]? = some r) (hok : r.key.id = key → r.jobs = [])
    (h : g.submitStep k r req = some g') : g'.Books key := by
  obtain ⟨s, jobs, hpc, hkeyed, rfl, hcreate, hjobs, rfl⟩ := submitStep_eq h
  have hmem : r ∈ g.requests := List.mem_of_getElem? hr
  obtain ⟨new, rfl, hnew, hbuilding⟩ : ∃ new, jobs = r.jobs ++ new ∧
      (new = [] ∨ new = [g.config.world.nextJob]) ∧
      ∀ j, s.pc.building = some j → j = g.config.world.nextJob ∧ j ∈ new := by
    rcases hjobs with ⟨hb, rfl⟩ | ⟨hb, rfl⟩
    · refine ⟨[g.config.world.nextJob], rfl, .inr rfl, fun j hj => ?_⟩
      obtain rfl := Option.some.inj (hb.symm.trans hj)
      exact ⟨rfl, List.mem_singleton.mpr rfl⟩
    · refine ⟨[], (List.append_nil _).symm, .inl rfl, fun j hj => ?_⟩
      rw [hb] at hj
      cases hj
  have hfresh : ∀ j ∈ new, j = g.config.world.nextJob := by
    intro j hj
    rcases hnew with rfl | rfl
    · cases hj
    · exact List.mem_singleton.mp hj
  obtain ⟨others, hreplaced, -⟩ := advance_replaced hr { r with jobs := r.jobs ++ new } []
  have hset : advance g.requests k { r with jobs := r.jobs ++ new } [] =
      g.requests.set k { r with jobs := r.jobs ++ new } := by simp [advance]
  rw [hset] at hreplaced
  have hbooks : r.key.id = key → r.OnBooks := hg.requests r hmem
  have hcharged : r.key.id = key → r.charged.isSome := by
    intro hkey
    have hcharged := (hbooks hkey).charged
    rwa [hpc] at hcharged
  have hdue : ∀ minute j, Gateway.Due { g.put k { r with jobs := r.jobs ++ new } with
      config := { world := g.config.world.apply (.newJob r.inst s.req)
                  tasks := g.config.tasks ++ [.submit s] } } key minute j ↔
      g.Due key minute j ∨ r.ChargedTo key minute ∧ j ∈ new := by
    intro minute j
    constructor
    · rintro ⟨u, hu, hto, hj⟩
      rcases hreplaced.mem_after.mp hu with rfl | hother | hnone
      · rcases List.mem_append.mp hj with hj | hj
        · exact .inl ⟨r, hmem, hto, hj⟩
        · exact .inr ⟨hto, hj⟩
      · exact .inl ⟨u, hreplaced.other_mem_before hother, hto, hj⟩
      · cases hnone
    · rintro (⟨u, hu, hto, hj⟩ | ⟨hto, hj⟩)
      · rcases hreplaced.mem_before.mp hu with rfl | hother
        · exact ⟨_, hreplaced.successor_mem, hto, List.mem_append_left _ hj⟩
        · exact ⟨u, hreplaced.other_mem hother, hto, hj⟩
      · exact ⟨_, hreplaced.successor_mem, hto, List.mem_append_right _ hj⟩
  refine ⟨?_, ?_, ?_, fun minute => ?_, ?_⟩
  · refine hreplaced.forall_mem (fun u hu => hg.requests u (hreplaced.other_mem_before hu))
      (fun hkey => ?_) (by rintro _ ⟨⟩)
    refine ⟨(hbooks hkey).limited, ?_, ?_⟩
    · rw [hok hkey]
      rcases hnew with rfl | rfl <;> simp
    · have hold := hcharged hkey
      simpa [hpc] using hold
  · refine hreplaced.forall_mem (fun u hu j hj => ?_) (fun j hj => ?_) (by rintro _ ⟨⟩)
    · exact Nat.lt_succ_of_lt (hg.made u (hreplaced.other_mem_before hu) j hj)
    · rcases List.mem_append.mp hj with hj | hj
      · exact Nat.lt_succ_of_lt (hg.made r hmem j hj)
      · exact Nat.lt_succ_of_le (hfresh j hj).le
  · have hbefore : (g.requests.flatMap Request.jobs).Perm
        ((r :: others).flatMap Request.jobs) := hreplaced.1.flatMap_right _
    have hafter := hreplaced.2.flatMap_right Request.jobs
    have hmoved : ((g.requests.set k { r with jobs := r.jobs ++ new }).flatMap Request.jobs).Perm
        (new ++ g.requests.flatMap Request.jobs) := by
      refine hafter.trans ?_
      rw [List.append_nil, List.flatMap_cons, List.append_assoc]
      refine (List.perm_append_comm_assoc ..).trans (List.Perm.append_left new ?_)
      rw [← List.flatMap_cons]
      exact hbefore.symm
    refine hmoved.nodup_iff.mpr (List.nodup_append.mpr ⟨?_, hg.once, fun j hj j' hj' => ?_⟩)
    · rcases hnew with rfl | rfl <;> simp
    · obtain ⟨u, hu, hmine⟩ := List.mem_flatMap.mp hj'
      rw [hfresh j hj]
      exact (Nat.ne_of_lt (hg.made u hu j' hmine)).symm
  · have hbefore := hreplaced.weight_before (Request.reservation key minute)
    have hafter := hreplaced.weight_after (Request.reservation key minute)
    rw [weight_nil, add_zero] at hafter
    have hledger := hg.reserved minute
    have hsame : Request.reservation key minute { r with jobs := r.jobs ++ new } =
        r.reservation key minute := rfl
    show g.reserved key minute = weight _ (g.requests.set k _)
    omega
  · refine hg.config.submitted hids (fun minute j hj => ?_) hcreate fun j hj => ?_
    · rw [hdue]
      exact or_iff_left fun hnewjob => hj (hfresh j hnewjob.2)
    · obtain ⟨rfl, hjnew⟩ := hbuilding j hj
      rw [hkeyed]
      constructor
      · intro hkey
        obtain ⟨minute, hminute⟩ := Option.isSome_iff_exists.mp (hcharged (Option.some.inj hkey))
        exact ⟨minute, (hdue minute _).mpr (.inr ⟨⟨Option.some.inj hkey, hminute⟩, hjnew⟩)⟩
      · rintro ⟨minute, hdue'⟩
        rcases (hdue minute _).mp hdue' with ⟨u, hu, -, hj'⟩ | ⟨⟨hid, -⟩, -⟩
        · exact absurd (hg.made u hu _ hj') (Nat.lt_irrefl _)
        · rw [hid]

/-- A step of the jobs, whose requests stay or end with their instance. -/
theorem Gateway.Books.acted {c : Config} {f : Request → Request} (hg : g.Books key)
    (hf : ∀ u, (f u).key = u.key ∧ (f u).jobs = u.jobs ∧ (f u).charged = u.charged)
    (hbooks : ∀ u ∈ g.requests, u.key.id = key → u.OnBooks → (f u).OnBooks)
    (hle : g.config.world.nextJob ≤ c.world.nextJob) (hc : c.Books key (g.Due key)) :
    Gateway.Books key { g with config := c, requests := g.requests.map f } := by
  have hto : ∀ u minute, (f u).ChargedTo key minute ↔ u.ChargedTo key minute := by
    intro u minute
    obtain ⟨hkey, -, hcharged⟩ := hf u
    rw [Request.ChargedTo, Request.ChargedTo, hkey, hcharged]
  have hdue : Gateway.Due { g with config := c, requests := g.requests.map f } key = g.Due key := by
    funext minute j
    refine propext ⟨?_, ?_⟩
    · rintro ⟨u', hu', hcharged, hj⟩
      obtain ⟨u, hu, rfl⟩ := List.mem_map.mp hu'
      rw [(hf u).2.1] at hj
      exact ⟨u, hu, (hto u minute).mp hcharged, hj⟩
    · rintro ⟨u, hu, hcharged, hj⟩
      refine ⟨f u, List.mem_map_of_mem hu, (hto u minute).mpr hcharged, ?_⟩
      rw [(hf u).2.1]
      exact hj
  refine ⟨fun u' hu' hkey => ?_, fun u' hu' j hj => ?_, ?_, fun minute => ?_, ?_⟩
  · obtain ⟨u, hu, rfl⟩ := List.mem_map.mp hu'
    rw [(hf u).1] at hkey
    exact hbooks u hu hkey (hg.requests u hu hkey)
  · obtain ⟨u, hu, rfl⟩ := List.mem_map.mp hu'
    rw [(hf u).2.1] at hj
    exact Nat.lt_of_lt_of_le (hg.made u hu j hj) hle
  · have hjobs : (g.requests.map f).flatMap Request.jobs = g.requests.flatMap Request.jobs := by
      rw [List.flatMap_map]
      exact congrArg (g.requests.flatMap ·) (funext fun u => (hf u).2.1)
    rw [hjobs]
    exact hg.once
  · rw [hg.reserved minute]
    show weight _ g.requests = weight _ (g.requests.map f)
    rw [weight, weight, List.map_map]
    refine congrArg List.sum (List.map_congr_left fun u _ => ?_)
    show u.reservation key minute = (f u).reservation key minute
    rw [Request.reservation, Request.reservation]
    simp only [hto u minute]
  · rw [hdue]
    exact hc

theorem Gateway.Books.arrived {inst : InstanceId} {apiKey : ApiKey} (hg : g.Books key)
    (hlimit : apiKey.id = key → 0 < apiKey.rateLimitTpm) :
    Gateway.Books key { g with requests := g.requests ++
      [{ inst, key := apiKey, charged := none, jobs := [], pc := .checkRpm }] } := by
  have hdue : Gateway.Due { g with requests := g.requests ++
      [{ inst, key := apiKey, charged := none, jobs := [], pc := .checkRpm }] } key = g.Due key := by
    funext minute j
    refine propext ⟨?_, ?_⟩
    · rintro ⟨u, hu, hcharged, hj⟩
      rcases List.mem_append.mp hu with hu | hu
      · exact ⟨u, hu, hcharged, hj⟩
      · obtain rfl := List.mem_singleton.mp hu
        cases hj
    · rintro ⟨u, hu, hrest⟩
      exact ⟨u, List.mem_append_left _ hu, hrest⟩
  refine ⟨fun u hu hkey => ?_, fun u hu j hj => ?_, ?_, fun minute => ?_, hdue ▸ hg.config⟩
  · rcases List.mem_append.mp hu with hu | hu
    · exact hg.requests u hu hkey
    · obtain rfl := List.mem_singleton.mp hu
      exact ⟨hlimit hkey, Nat.zero_le _, rfl, rfl⟩
  · rcases List.mem_append.mp hu with hu | hu
    · exact hg.made u hu j hj
    · obtain rfl := List.mem_singleton.mp hu
      cases hj
  · rw [List.flatMap_append, List.flatMap_cons, List.flatMap_nil, List.append_nil, List.append_nil]
    exact hg.once
  · have hnone : Request.reservation key minute
        { inst, key := apiKey, charged := none, jobs := [], pc := .checkRpm } = 0 :=
      if_neg fun hcond => by cases hcond.2
    rw [weight_append, weight_cons, weight_nil, hnone, add_zero, add_zero]
    exact hg.reserved minute

/-- What a restart requires of its requests, for one of them. -/
theorem endRequests_onBooks {inst : InstanceId} (hr : r.OnBooks)
    (hjobs : r.inst = inst → r.charged.isSome → r.jobs ≠ []) :
    (Gateway.endRequests inst r).OnBooks := by
  unfold Gateway.endRequests
  split
  · next hinst =>
    refine ⟨hr.limited, hr.one, ?_⟩
    have hcharged := hr.charged
    show r.charged.isSome ↔ r.jobs ≠ []
    cases hpc : r.pc with
    | acquire => rw [hpc] at hcharged; exact iff_of_true hcharged (hjobs hinst hcharged)
    | handling => rw [hpc] at hcharged; exact iff_of_true hcharged (hjobs hinst hcharged)
    | responded => rw [hpc] at hcharged; exact hcharged
    | _ => rw [hpc] at hcharged; simp [hcharged.1, hcharged.2]
  · exact hr

theorem act_books {ok : Config → Action → Prop} {d : Deployment} {a : Action} (hg : g.Books key)
    (hrun : Run Config.step ok (Config.init d) g.config) (hok : g.Reconciles key (.act a))
    (h : g.act a = some g') : g'.Books key := by
  obtain ⟨hconfigOk, hrequestsOk⟩ := hok
  obtain ⟨config, hconfig, hg'⟩ := act_eq h
  have hmoved := Config.step_moved hconfig
  have hle : g.config.world.nextJob ≤ config.world.nextJob := by
    cases hmoved with
    | run ht hm hreplaced hothers => exact nextJob_le_apply _ _
    | _ => exact le_rfl
  have hsession : ∀ inst req, a = .start (.submit inst req) → req.apiKeyId ≠ some key := by
    intro inst req ha
    rcases hg' with ⟨-, hnone, -⟩ | ⟨inst', rfl, -⟩
    · rw [hnone inst req ha]
      rintro ⟨⟩
    · cases ha
  have hbooks : config.Books key (g.Due key) := by
    cases hmoved with
    | @run k choice t m others tasks ht hm hreplaced hothers =>
      exact hg.config.run (savesPending hrun t hreplaced.task_mem) (hconfigOk t ht) hm hreplaced
    | start hs =>
      exact hg.config.env hconfigOk (.start hs) (fun k choice heq => by cases heq) hsession
    | tick elapsed =>
      exact hg.config.env hconfigOk (.tick elapsed) (fun k choice heq => by cases heq) hsession
    | restart inst =>
      exact hg.config.env hconfigOk (.restart inst) (fun k choice heq => by cases heq) hsession
    | owner id inst =>
      exact hg.config.env hconfigOk (.owner id inst) (fun k choice heq => by cases heq) hsession
    | heartbeat inst alive =>
      exact hg.config.env hconfigOk (.heartbeat inst alive) (fun k choice heq => by cases heq) hsession
  rcases hg' with ⟨-, -, rfl⟩ | ⟨inst, rfl, rfl⟩
  · have hacted := hg.acted (f := id) (fun u => ⟨rfl, rfl, rfl⟩) (fun u _ _ hu => hu) hle hbooks
    rwa [List.map_id] at hacted
  · refine hg.acted (fun u => ?_) (fun u hu hkey hon => ?_) hle hbooks
    · unfold Gateway.endRequests
      split <;> exact ⟨rfl, rfl, rfl⟩
    · exact endRequests_onBooks hon fun hinst => hrequestsOk u hu hinst hkey

theorem Gateway.Books.step {ok : Config → Action → Prop} {d : Deployment} {a : GatewayAction}
    (hg : g.Books key) (hrun : Run Config.step ok (Config.init d) g.config)
    (hok : g.Reconciles key a) (h : g.step a = some g') : g'.Books key := by
  cases a with
  | arrive inst apiKey =>
    obtain rfl := Option.some.inj h
    exact hg.arrived hok
  | limit k rpmOk =>
    obtain ⟨r, hr, h⟩ := Option.bind_eq_some_iff.mp h
    exact limit_books hg hr (hok r hr) h
  | submit k req =>
    obtain ⟨r, hr, h⟩ := Option.bind_eq_some_iff.mp h
    exact submit_books hg (ids_made hrun) hr (hok r hr) h
  | respond k =>
    obtain ⟨r, hr, h⟩ := Option.bind_eq_some_iff.mp h
    split at h
    · next hpc =>
      obtain rfl := Option.some.inj h
      obtain ⟨others, hreplaced, -⟩ := advance_replaced hr (r.goto .responded) []
      refine hg.moved hreplaced rfl rfl (fun hkey => ?_) (fun _ _ => rfl) ?_ rfl fun _ => rfl
      · have hon := hg.requests r (List.mem_of_getElem? hr) hkey
        have hcharged := hon.charged
        rw [hpc] at hcharged
        exact ⟨hon.limited, hon.one, iff_of_true hcharged (hok r hr hkey)⟩
      · simp [Gateway.put, advance]
    · cases h
  | expire apiKey minute =>
    obtain ⟨deadline, -, h⟩ := Option.bind_eq_some_iff.mp h
    dsimp only at h
    split at h
    · obtain rfl := Option.some.inj h
      refine ⟨hg.requests, hg.made, hg.once, fun minute' => ?_, hg.config⟩
      rw [← hg.reserved minute']
      simp [Function.update_of_ne (Ne.symm hok)]
    · cases h
  | act a => exact act_books hg hrun hok h

theorem books_init (key : Uuid) (d : Deployment) : (Gateway.init d).Books key := by
  have hnone : ∀ minute j, ¬ (Gateway.init d).Due key minute j := by
    rintro minute j ⟨r, hr, -⟩
    cases hr
  refine ⟨fun r hr => ?_, fun r hr => ?_, List.nodup_nil, fun minute => rfl, ?_⟩
  · cases hr
  · cases hr
  refine ⟨fun minute j hdue => absurd hdue (hnone minute j), fun t ht => ?_, fun i j e he => ?_,
    fun j hj => ?_, fun j hj => ?_, fun minute => rfl⟩
  · cases ht
  · cases he
  · exact Nat.zero_le _
  · obtain ⟨minute, hdue⟩ := hj
    exact absurd hdue (hnone minute j)

theorem books_reachable {d : Deployment}
    (h : Run Gateway.step (Gateway.Reconciles key) (Gateway.init d) g) : g.Books key :=
  h.invariant (books_init key d) fun _ _ _ hx hbooks hok hs => hbooks.step (config_run hx) hok hs

/-! ## A bucket whose jobs have ended -/

/-- The job a task runs. -/
def Task.runs : Task → Uuid
  | .run v => v.uuid
  | _ => 0

theorem booked_of_ended {v : Worker} (hstage : v.stage.ended = true)
    (hended : (Task.run v).ended = true) : v.stage.booked = true := by
  obtain ⟨args, job, stop, apiKeyId, tpmMinute, startedAt, cancelNotify, ts, log, pc⟩ := v
  cases pc with
  | returned exit => cases exit <;> first | rfl | cases hstage
  | panicked => cases hstage
  | _ => cases hended

/-- The worker of an ended job whose reservation is in the bucket has recorded its tokens there. -/
theorem booked_worker {minute : ℕ} {j : Uuid} (hg : g.Books key) (hdue : g.Due key minute j)
    (hended : g.config.JobEnded j) : ∃ v, .run v ∈ g.config.tasks ∧ v.uuid = j ∧
      v.stage.booked = true ∧ v.apiKeyId = some key ∧ v.tpmMinute = some minute := by
  obtain ⟨hrow, hreturned⟩ := hended
  have howned : ∃ minute, g.Due key minute j := ⟨minute, hdue⟩
  obtain ⟨v, hv, rfl, hstage⟩ : ∃ v, .run v ∈ g.config.tasks ∧ v.uuid = j ∧
      v.stage.ended = true := by
    rcases hrow with hrow | ⟨v, hv, rfl, hpc⟩
    · exact hg.config.rows j howned hrow
    · -- a worker of an owned job never loses it
      have hlost : v.stage = .lost := by rw [Worker.stage, hpc]; rfl
      have hbooks := hg.config.tasks _ hv
      exact absurd hlost (hbooks.kept ((hbooks.keyed (by rw [hlost]; rintro ⟨⟩)).mpr howned))
  have hbooks := hg.config.tasks _ hv
  have hbooked := booked_of_ended hstage (hreturned v hv rfl)
  have hpast : v.stage ≠ .fresh := by
    intro hfresh
    rw [hfresh] at hstage
    cases hstage
  have hkey := (hbooks.keyed hpast).mpr howned
  obtain ⟨minute', hminute, hdue'⟩ := hbooks.dated hkey
  refine ⟨v, hv, rfl, hbooked, hkey, ?_⟩
  rw [hminute, due_unique hg hdue hdue']

/-- A reservation and what the worker of its job put in its place come to the tokens of the job. -/
theorem job_reconciled {minute : ℕ} {j : Uuid} (hg : g.Books key) (hdue : g.Due key minute j)
    (hended : g.config.JobEnded j) :
    TPM_ESTIMATED_TOKENS + weight (fun t => if t.runs = j then t.adjusted key minute else 0)
      g.config.tasks = (g.config.tokensOf j : ℤ) := by
  obtain ⟨v, hv, rfl, hbooked, hkey, hminute⟩ := booked_worker hg hdue hended
  have hbooks := hg.config.tasks _ hv
  have honce := hg.config.once v.uuid ⟨minute, hdue⟩
  have hpast : v.stage ≠ .fresh := by
    intro hfresh
    rw [hfresh] at hbooked
    cases hbooked
  have hone : (Task.run v).startedOn v.uuid = 1 := if_pos ⟨rfl, hpast⟩
  -- what a worker in its setup weighs
  have hidle : ∀ u ∈ g.config.tasks, u.startedOn v.uuid = 0 →
      (if u.runs = v.uuid then u.adjusted key minute else 0) = 0 ∧ u.tokensOf v.uuid = 0 := by
    intro u hu hzero
    cases u with
    | run x =>
      by_cases hx : x.uuid = v.uuid
      · have hfresh : x.stage = .fresh := by
          by_contra hne
          rw [Task.startedOn, if_pos ⟨hx, hne⟩] at hzero
          cases hzero
        have htokens := ((hg.config.tasks _ hu).fresh hfresh).2
        refine ⟨?_, ?_⟩
        · rw [show (Task.run x).adjusted key minute = 0 from adjusted_zero (by rw [hfresh]; rfl),
            ite_self]
        · show (if _ then _ else _) = 0
          rw [htokens, ite_self]
      · exact ⟨if_neg hx, if_neg hx⟩
    | _ => exact ⟨ite_self _, rfl⟩
  have hadjusted := weight_eq_of_once (f := fun t => if t.runs = v.uuid then t.adjusted key minute else 0)
    honce hv hone fun u hu hzero => (hidle u hu hzero).1
  have htokens := weight_eq_of_once (f := Task.tokensOf v.uuid) honce hv hone
    fun u hu hzero => (hidle u hu hzero).2
  have hcount : (Task.run v).tokensOf v.uuid = v.ts.tokenCount := if_pos rfl
  rw [Config.tokensOf, htokens, hcount, hadjusted,
    if_pos (show (Task.run v).runs = v.uuid from rfl)]
  show TPM_ESTIMATED_TOKENS + v.adjusted key minute = v.ts.tokenCount
  rw [Worker.adjusted, if_pos ⟨hkey, hminute⟩]
  cases hstage : v.stage with
  | recorded =>
    dsimp only
    omega
  | refunded =>
    have hzero := hbooks.failed hkey (by rw [hstage]; rfl)
    dsimp only
    omega
  | _ => rw [hstage] at hbooked; cases hbooked

/-- The jobs of the requests admitted into a bucket, one for each. -/
theorem admitted_jobs {minute : ℕ} (hg : g.Books key) (hended : g.AllEnded key minute) :
    weight (Request.reservation key minute) g.requests =
      weight (fun _ => TPM_ESTIMATED_TOKENS) ((g.admitted key minute).flatMap Request.jobs) := by
  rw [weight_flatMap, Gateway.admitted]
  refine (weight_filter (Request.ChargedTo key minute) (fun _ => TPM_ESTIMATED_TOKENS) g.requests).symm.trans
    (weight_congr fun r hr => ?_)
  obtain ⟨hmem, hto⟩ := List.mem_filter.mp hr
  obtain ⟨hkey, hcharged⟩ := of_decide_eq_true hto
  have hbooks := hg.requests r hmem hkey
  have hanswered := hbooks.charged
  rw [(hended r hr).1] at hanswered
  have hsome := hanswered.mp (by rw [hcharged]; rfl)
  have hone := hbooks.one
  cases hjobs : r.jobs with
  | nil => exact absurd hjobs hsome
  | cons j rest =>
    rw [hjobs, List.length_cons] at hone
    obtain rfl : rest = [] := List.eq_nil_of_length_eq_zero (by omega)
    rw [weight_cons, weight_nil, add_zero]

end Books

/-- A worker whose next step leads on to its `record_tpm`. -/
def Config.runsOn (c : Config) (v : Worker) : Bool :=
  match v.pc with
  | .setup => ((c.world.jobs v.inst v.uuid).any fun e =>
      decide (e.status ≠ .cancelled) && e.tpmReservationMinute.isSome) &&
        c.tasks.all fun t => decide (t.startedOn v.uuid = 0)
  | .lifecycle => !c.world.lifecyclePhase v.inst
  | .select => !c.world.permit v.cancelNotify
  | .received (.ok token) => (c.world.jobs v.inst v.uuid).any fun e =>
      decide (e.status ≠ .cancelled) && (Worker.consume v.ts token c.world.now v.startedAt).isSome
  | .received (.error _) => false
  | .final _ .readOwner => decide (c.world.owner v.uuid = some v.inst)
  | _ => true

theorem runsOn_ok {c : Config} {v : Worker} (choice : Choice) (h : c.runsOn v = true) :
    v.Reconciles c choice := by
  rw [Config.runsOn] at h
  rw [Worker.Reconciles, Worker.Loses]
  cases hpc : v.pc
  case setup =>
    simp only [hpc, Bool.and_eq_true, Option.any_eq_true, decide_eq_true_eq, List.all_eq_true] at h
    obtain ⟨⟨e, he, hopen, hminute⟩, hnone⟩ := h
    exact ⟨id, ⟨e, he, hopen, hminute⟩, hnone⟩
  case lifecycle =>
    rw [hpc] at h
    refine ⟨fun hlost => ?_, trivial⟩
    rw [hlost.1] at h
    cases h
  case select =>
    rw [hpc] at h
    refine ⟨fun hlost => ?_, trivial⟩
    have hpermit : c.world.permit v.cancelNotify = true := hlost
    rw [hpermit] at h
    cases h
  case received result =>
    cases result with
    | error message => rw [hpc] at h; cases h
    | ok token =>
      simp only [hpc, Bool.and_eq_true, Option.any_eq_true, decide_eq_true_eq] at h
      obtain ⟨e, he, hopen, hsome⟩ := h
      refine ⟨fun hlost => ?_, trivial⟩
      obtain ⟨e', he', hwhy⟩ := hlost
      obtain rfl : e = e' := Option.some.inj (he.symm.trans he')
      rcases hwhy with hcancelled | ⟨token', heq, hpanic⟩
      · exact hopen hcancelled
      · obtain rfl := Except.ok.inj heq
        rw [hpanic] at hsome
        cases hsome
  case final completedAt pc =>
    refine ⟨fun hlost => ?_, trivial⟩
    cases pc with
    | readOwner =>
      simp only [hpc, decide_eq_true_eq] at h
      obtain ⟨i, hi, hne⟩ := hlost
      exact hne (Option.some.inj (hi.symm.trans h))
    | _ => exact hlost
  all_goals exact ⟨id, trivial⟩

/-- A step of requests with one job each, whose job runs on. -/
def reconcilingStep (g : Gateway) : GatewayAction → Bool
  | .arrive _ k => decide (0 < k.rateLimitTpm)
  | .limit k _ => (g.requests[k]?).all fun r =>
      decide (g.inFlight r.inst r.key.id < MAX_KEY_CONCURRENT)
  | .submit k _ => (g.requests[k]?).all fun r => r.jobs.isEmpty
  | .respond k => (g.requests[k]?).all fun r => !r.jobs.isEmpty
  | .expire _ _ => false
  | .act (.run k _) => (g.config.tasks[k]?).all fun t => match t with
    | .run v => g.config.runsOn v
    | .submit s => match s.pc with
      | .insertEntry _ _ => g.requests.all fun r =>
          decide (r.charged = some (g.config.world.now / 60000))
      | _ => t.failsRow.isNone
    | _ => t.failsRow.isNone
  | .act (.restart _) => false
  | .act _ => true

theorem reconcilingStep_ok (key : Uuid) (g : Gateway) (a : GatewayAction)
    (h : reconcilingStep g a = true) : g.Reconciles key a := by
  cases a with
  | arrive inst k => exact fun _ => of_decide_eq_true h
  | limit k rpmOk =>
    intro r hr hkey _
    simp only [reconcilingStep, hr, Option.all_some, decide_eq_true_eq] at h
    rwa [hkey] at h
  | submit k req =>
    intro r hr _
    simpa [reconcilingStep, hr] using h
  | respond k =>
    intro r hr _
    simpa [reconcilingStep, hr] using h
  | expire k minute => cases h
  | act a =>
    cases a with
    | run k choice =>
      refine ⟨fun t ht => ?_, trivial⟩
      simp only [reconcilingStep, ht, Option.all_some] at h
      refine ⟨fun s job cell hs hpc minute hdue => ?_, fun v hv _ => ?_, fun j hrun hfails _ => ?_⟩
      · subst hs
        simp only [hpc, List.all_eq_true, decide_eq_true_eq] at h
        obtain ⟨r, hr, ⟨-, hminute⟩, -⟩ := hdue
        exact Option.some.inj (hminute.symm.trans (h r hr))
      · subst hv
        exact runsOn_ok choice h
      · cases t with
        | run v => exact absurd rfl (hrun v)
        | submit s =>
          cases hpc : s.pc with
          | insertEntry job cell => rw [Task.failsRow, hpc] at hfails; cases hfails
          | _ => simp [hpc, hfails] at h
        | _ => simp [hfails] at h
    | restart inst => cases h
    | _ => exact ⟨trivial, trivial⟩

/-- Every request is answered, every job they made has ended, and nobody runs one. -/
def Gateway.quiet (g : Gateway) : Bool :=
  (g.requests.all fun r => decide (r.pc = .responded) && r.jobs.all fun j =>
    (g.config.world.rows j).any fun row => row.status.isTerminal) &&
    !g.config.anyWorker fun v => !(Task.run v).ended

theorem quiet_ended {g : Gateway} (h : g.quiet = true) (key : Uuid) (minute : ℕ) :
    g.AllEnded key minute := by
  simp only [Gateway.quiet, Bool.and_eq_true, List.all_eq_true, decide_eq_true_eq,
    Option.any_eq_true, Bool.not_eq_true'] at h
  obtain ⟨hrequests, hidle⟩ := h
  have hworkers : ∀ v, .run v ∈ g.config.tasks → (Task.run v).ended = true := by
    intro v hv
    by_contra hopen
    rw [Bool.not_eq_true] at hopen
    have hbusy : g.config.anyWorker (fun v => !(Task.run v).ended) = true :=
      List.any_eq_true.mpr ⟨.run v, hv, by simp [hopen]⟩
    rw [hbusy] at hidle
    cases hidle
  intro r hr
  obtain ⟨hpc, hjobs⟩ := hrequests r (List.mem_of_mem_filter hr)
  refine ⟨hpc, fun j hj => ⟨.inl ?_, fun v hv _ => hworkers v hv⟩⟩
  obtain ⟨row, hrow, hterminal⟩ := hjobs j hj
  exact ⟨row, hrow, hterminal⟩

/-- A request of key 7 at instance 0 and the submission of its job. -/
def admitAndSubmit : List GatewayAction :=
  GatewayAction.arrive 0 { id := 7, rateLimitRpm := 0, rateLimitTpm := 1000 } ::
    List.replicate 4 (GatewayAction.limit 0 true) ++
    GatewayAction.submit 0 { plainRequest "hi" with apiKeyId := some 7 } ::
      List.replicate 5 (GatewayAction.act (.run 0 .go))

/-- A pass of the dispatcher that claims the job, and a worker that gets one token and the end of
the stream. -/
def dispatchToItsEnd : List Action :=
  Action.start (.dispatch 0) :: List.replicate 4 (Action.run 1 .go) ++
    [Action.run 1 (.scores (fun _ => false) 1), Action.run 1 (.provider 1 false)] ++
    List.replicate 4 (Action.run 1 .go) ++
    [Action.run 2 .go, Action.run 2 .go, Action.run 2 .pendingFirst, Action.run 2 .go,
      Action.run 2 .go, Action.run 2 .go, Action.run 2 (.item (some (.ok (.text "hello")))),
      Action.run 2 .go, Action.run 2 .go, Action.run 2 .go, Action.run 2 (.item none)] ++
    List.replicate 14 (Action.run 2 .go)

/-- A request whose job is cancelled in the queue. -/
def cancelInQueue : List GatewayAction :=
  admitAndSubmit ++
    GatewayAction.act (.start (.cancel 0 0)) :: List.replicate 9 (GatewayAction.act (.run 1 .go)) ++
    [GatewayAction.respond 0]

end Veronex
