import Veronex.Inference.Invariants

/-! # The job handed to `run_job`

A dispatcher loads a job either from an entry `submit` made on its own instance or, through the
row, from Postgres. The first path gives back the request; the second gives back what the row
stores (`rowInput`). The invariant follows both kinds of jobs through entries, rows, dispatchers and
recovery, on every instance and through restarts.
-/
namespace Veronex
open Concurrency
set_option autoImplicit false

/-! ## What the two load paths give back -/

/-- What a job rebuilt from the row of a request asks for. -/
def rowInput (req : SubmitJobRequest) : GenerationInput :=
  { prompt := promptPreview req.prompt, messages := none, tools := none, images := none
    stop := none, seed := none, responseFormat := none, frequencyPenalty := none
    presencePenalty := none, maxTokens := none }

/-- The row loses nothing of the request: its prompt is its own preview and it sets nothing that
has no column. -/
def SurvivesRow (req : SubmitJobRequest) : Prop :=
  promptPreview req.prompt = req.prompt ∧ req.messages = none ∧ req.tools = none ∧
    req.images = none ∧ req.stop = none ∧ req.seed = none ∧ req.responseFormat = none ∧
    req.frequencyPenalty = none ∧ req.presencePenalty = none ∧ req.maxTokens = none

theorem SurvivesRow.rowInput_eq {req : SubmitJobRequest} (h : SurvivesRow req) :
    rowInput req = req.generationInput := by
  obtain ⟨hp, hm, ht, hi, hs, hseed, hf, hfp, hpp, hmax⟩ := h
  simp [rowInput, SubmitJobRequest.generationInput, hp, hm, ht, hi, hs, hseed, hf, hfp, hpp, hmax]

theorem newJob_input {uuid : Uuid} {req : SubmitJobRequest} {prompt : Prompt}
    {modelName : ModelName} {now : Millis} (h : prompt.asStr = req.prompt) :
    (newJob uuid req prompt modelName now).generationInput = req.generationInput := by
  simp [newJob, InferenceJob.generationInput, SubmitJobRequest.generationInput, h]

theorem rowToJob_ok {row : JobRow} {job : InferenceJob} (h : rowToJob row = .ok job) :
    job.id = row.id ∧ job.generationInput =
      { prompt := row.promptPreview.getD "", messages := none, tools := none, images := none
        stop := none, seed := none, responseFormat := none, frequencyPenalty := none
        presencePenalty := none, maxTokens := none } := by
  unfold rowToJob at h
  cases hp : Prompt.new (row.promptPreview.getD "") with
  | error e => rw [hp] at h; cases h
  | ok prompt =>
    cases hm : ModelName.new row.modelName with
    | error e => rw [hp, hm] at h; cases h
    | ok modelName =>
      rw [hp, hm] at h
      cases h
      exact ⟨rfl, by simp [InferenceJob.generationInput, Prompt.new_ok hp]⟩

/-! ## The invariant -/

/-- The request logged under an id satisfies `P`. -/
def Requested (w : World) (id : Uuid) (P : InstanceId → SubmitJobRequest → Prop) : Prop :=
  ∃ inst req, w.requests id = some (inst, req) ∧ P inst req

/-- A job asks for what was submitted under the id. -/
def AsSubmitted (w : World) (id : Uuid) (job : InferenceJob) : Prop :=
  Requested w id fun _ req => job.generationInput = req.generationInput

/-- A job asks for what was submitted, or for what the row gives back of it. -/
def AsLoaded (w : World) (id : Uuid) (submitted : Bool) (job : InferenceJob) : Prop :=
  Requested w id fun _ req =>
    job.generationInput = if submitted then req.generationInput else rowInput req

def CandidatesLoaded (w : World) (candidates : List Candidate) : Prop :=
  ∀ c ∈ candidates, AsLoaded w c.uuid c.submitted c.job

/-- The jobs in the hands of a dispatcher. -/
def DispatchPc.Loaded (w : World) : DispatchPc → Prop
  | .load _ _ scored | .fetch _ _ _ _ scored | .dropMissing _ _ _ scored | .sort _ scored
  | .attempt scored => CandidatesLoaded w scored
  | .adopt _ id _ job _ scored => AsLoaded w id false job ∧ CandidatesLoaded w scored
  | .countMiss c rest | .claimToFail c rest | .failJob c rest _ | .resetMisses c _ rest
  | .claim c _ rest => CandidatesLoaded w (c :: rest)
  | .assign c _ | .setOwner c _ => AsSubmitted w c.uuid c.job
  | .len | .peek _ | .finished => True

def JobsLoaded (w : World) (jobs : List InferenceJob) : Prop :=
  ∀ job ∈ jobs, AsLoaded w job.id false job

def RecoverPc.Loaded (w : World) : RecoverPc → Prop
  | .each todo => JobsLoaded w todo
  | .readOwner job todo | .readHeartbeat _ job todo | .resetStatus job todo | .insertEntry job todo
  | .enqueue job todo => JobsLoaded w (job :: todo)
  | .list | .finished => True

/-- The job of a submission that has not inserted its entry yet. -/
def Submit.Built (w : World) (s : Submit) : Prop :=
  match s.pc with
  | .save job | .insertNotifier job | .insertEntry job _ =>
    w.requests job.id = some (s.inst, s.req) ∧ job.generationInput = s.req.generationInput ∧
      job.promptPreview = some (promptPreview s.req.prompt)
  | _ => True

def Task.Loaded (w : World) : Task → Prop
  | .submit s => s.Built w
  | .dispatch d => d.pc.Loaded w
  | .recover r => r.pc.Loaded w
  | .run v => AsSubmitted w v.uuid v.args.job
  | _ => True

structure World.Loaded (w : World) : Prop where
  made : RequestsMade w
  entries : ∀ i j e, w.jobs i j = some e → AsLoaded w j e.tpmReservationMinute.isSome e.job
  rows : ∀ j row, w.rows j = some row → row.id = j ∧
    Requested w j fun _ req => row.promptPreview = some (promptPreview req.prompt)

/-! ## Frames -/

section Frames
variable {w : World} {a : Access} (hw : w.Loaded)
include hw

theorem World.Loaded.requested {P : InstanceId → SubmitJobRequest → Prop} {id : Uuid}
    (h : Requested w id P) : Requested (w.apply a) id P := by
  obtain ⟨inst, req, hreq, hp⟩ := h
  exact ⟨inst, req, apply_requests a hw.made hreq, hp⟩

theorem World.Loaded.candidates {l : List Candidate} (h : CandidatesLoaded w l) :
    CandidatesLoaded (w.apply a) l :=
  fun c hc => hw.requested (h c hc)

theorem World.Loaded.jobs {l : List InferenceJob} (h : JobsLoaded w l) :
    JobsLoaded (w.apply a) l :=
  fun job hjob => hw.requested (h job hjob)

/-- No access changes what the other tasks hold. -/
theorem World.Loaded.task {t : Task} (h : t.Loaded w) : t.Loaded (w.apply a) := by
  cases t with
  | submit s =>
    obtain ⟨inst, req, pc⟩ := s
    cases pc with
    | save job => exact ⟨apply_requests a hw.made h.1, h.2⟩
    | insertNotifier job => exact ⟨apply_requests a hw.made h.1, h.2⟩
    | insertEntry job cell => exact ⟨apply_requests a hw.made h.1, h.2⟩
    | _ => trivial
  | dispatch d =>
    obtain ⟨inst, pc⟩ := d
    cases pc with
    | adopt now id score job todo scored => exact ⟨hw.requested h.1, hw.candidates h.2⟩
    | assign c provider => exact hw.requested h
    | setOwner c provider => exact hw.requested h
    | len => trivial
    | peek k => trivial
    | finished => trivial
    | _ => exact hw.candidates h
  | recover r =>
    obtain ⟨inst, pc⟩ := r
    cases pc with
    | list => trivial
    | finished => trivial
    | _ => exact hw.jobs h
  | run v => exact hw.requested h
  | _ => trivial

/-- What an access may make. -/
def Access.Loaded (w : World) : Access → Prop
  | .insertEntry _ j e | .orInsertEntry _ j e => AsLoaded w j e.tpmReservationMinute.isSome e.job
  | .saveRow row => Requested w row.id fun _ req => row.promptPreview = some (promptPreview req.prompt)
  | _ => True

omit hw in
/-- An access that makes neither an entry nor a row is fine. -/
theorem Access.loaded_of_kind (hentry : a.kind ≠ .makeEntry) (hrow : a.kind ≠ .saveRow) :
    a.Loaded w := by
  cases a <;> trivial

theorem World.Loaded.apply (ha : a.Loaded w) : (w.apply a).Loaded where
  made := hw.made.apply a
  entries i j e he := by
    rcases apply_jobs he with he | ⟨e₀, u, he₀, rfl, rfl⟩ | rfl | ⟨-, rfl⟩
    · exact hw.requested (hw.entries i j e he)
    · have hsame := u.sameOrigin e₀
      obtain ⟨inst, req, hreq, hin⟩ := hw.entries i j e₀ he₀
      refine hw.requested ⟨inst, req, hreq, ?_⟩
      rw [hsame.input, hsame.reserved]
      exact hin
    · exact hw.requested ha
    · exact hw.requested ha
  rows j row hrow := by
    rcases apply_rows hrow with ⟨row₀, hrow₀, hsame⟩ | ⟨-, hid, rfl⟩
    · obtain ⟨hid, hpreview⟩ := hw.rows j row₀ hrow₀
      refine ⟨hsame.id.trans hid, hw.requested ?_⟩
      rw [hsame.promptPreview]
      exact hpreview
    · subst hid
      exact ⟨rfl, hw.requested ha⟩

theorem World.Loaded.getJob {id : Uuid} {job : InferenceJob} (h : w.getJob id = .ok (some job)) :
    job.id = id ∧ AsLoaded w id false job := by
  unfold World.getJob at h
  cases hrow : w.rows id with
  | none => rw [hrow] at h; cases h
  | some row =>
    rw [hrow] at h
    cases hjob : rowToJob row with
    | error e =>
      simp only [hjob, Except.map] at h
      cases h
    | ok job' =>
      obtain rfl : job' = job := by simpa [hjob, Except.map] using h
      obtain ⟨hid, inst, req, hreq, hpreview⟩ := hw.rows id row hrow
      obtain ⟨hjobid, hin⟩ := rowToJob_ok hjob
      refine ⟨hjobid.trans hid, inst, req, hreq, ?_⟩
      simp [hin, hpreview, rowInput]

end Frames

theorem World.Loaded.listPending {w : World} (hw : w.Loaded) {jobs : List InferenceJob}
    (h : w.listPending = .ok jobs) : JobsLoaded w jobs := by
  intro job hjob
  obtain ⟨j, row, hj, hparse⟩ := listPending_mem h hjob
  have hget : w.getJob j = .ok (some job) := by
    simp [World.getJob, hj, hparse, Except.map]
  obtain ⟨rfl, hloaded⟩ := hw.getJob hget
  exact hloaded

/-! ## Steps -/

section Steps
variable {w : World} {choice : Choice} (hw : w.Loaded)
include hw

theorem submit_loaded {s : Submit} {m : Moved Submit} (hs : s.Built w) (h : s.step w = some m) :
    m.access.Loaded w ∧ m.next.Built (w.apply m.access) := by
  obtain ⟨inst, req, pc⟩ := s
  cases pc with
  | create =>
    simp only [Submit.step] at h
    split at h
    · obtain rfl := Option.some.inj h
      exact ⟨trivial, trivial⟩
    · next job hjob =>
      obtain rfl := Option.some.inj h
      obtain ⟨prompt, modelName, hprompt, -, rfl⟩ := buildJob_ok hjob
      refine ⟨trivial, ⟨?_, newJob_input hprompt, rfl⟩⟩
      exact Function.update_self ..
  | save job =>
    obtain rfl := Option.some.inj h
    obtain ⟨hreq, hin, hpreview⟩ := hs
    refine ⟨⟨inst, req, hreq, hpreview⟩, ⟨apply_requests _ hw.made hreq, hin, hpreview⟩⟩
  | insertNotifier job =>
    obtain rfl := Option.some.inj h
    obtain ⟨hreq, hin, hpreview⟩ := hs
    exact ⟨trivial, ⟨apply_requests _ hw.made hreq, hin, hpreview⟩⟩
  | insertEntry job cell =>
    obtain rfl := Option.some.inj h
    obtain ⟨hreq, hin, -⟩ := hs
    exact ⟨⟨inst, req, hreq, hin⟩, trivial⟩
  | returned result => cases h
  | enqueue job =>
    obtain rfl := Option.some.inj h
    refine ⟨trivial, ?_⟩
    simp only [Submit.goto]
    split <;> trivial
  | _ =>
    obtain rfl := Option.some.inj h
    exact ⟨trivial, trivial⟩

/-- Whether the claim a dispatcher is about to win is of a job it loaded from the entry of the
submission, or of a request that survives the row. -/
def ClaimLoaded (w : World) : DispatchPc → Prop
  | .claim c _ _ =>
    c.uuid ∈ w.queue.zset → c.submitted = true ∨ ∃ inst req, w.requests c.uuid = some (inst, req) ∧
      SurvivesRow req
  | _ => True

omit hw in
theorem AsLoaded.asSubmitted {id : Uuid} {submitted : Bool} {job : InferenceJob}
    (h : AsLoaded w id submitted job)
    (hclaim : submitted = true ∨ ∃ inst req, w.requests id = some (inst, req) ∧ SurvivesRow req) :
    AsSubmitted w id job := by
  obtain ⟨inst, req, hreq, hin⟩ := h
  refine ⟨inst, req, hreq, ?_⟩
  rcases hclaim with hsub | ⟨inst', req', hreq', hsurvives⟩
  · rw [hin, hsub]
    rfl
  · obtain ⟨-, rfl⟩ := Prod.mk.inj (Option.some.inj (hreq.symm.trans hreq'))
    rw [hin, hsurvives.rowInput_eq, ite_self]

theorem dispatch_loaded {d : Dispatch} {m : Moved Dispatch} (hd : d.pc.Loaded w)
    (hclaim : ClaimLoaded w d.pc) (h : d.step w choice = some m) :
    m.access.Loaded w ∧ m.next.pc.Loaded (w.apply m.access) ∧
      ∀ s ∈ m.spawned, s.task.Loaded (w.apply m.access) := by
  obtain ⟨inst, pc⟩ := d
  have hnone : ∀ w' : World, ∀ s ∈ ([] : List Spawn), s.task.Loaded w' := by
    intro w' s hs
    cases hs
  cases pc with
  | len => obtain rfl := Option.some.inj h; exact ⟨trivial, trivial, hnone _⟩
  | peek k =>
    obtain rfl := Option.some.inj h
    refine ⟨trivial, ?_, hnone _⟩
    simp only [Dispatch.goto]
    split
    · trivial
    · intro c hc
      cases hc
  | load now todo scored =>
    obtain rfl := Option.some.inj h
    cases todo with
    | nil =>
      refine ⟨trivial, ?_, hnone _⟩
      simp only [Dispatch.loadStep, Dispatch.goto]
      split
      · trivial
      · exact hw.candidates hd
    | cons entry todo =>
      obtain ⟨id, score⟩ := entry
      simp only [Dispatch.loadStep]
      cases hjob : w.jobs inst id with
      | none => exact ⟨trivial, hw.candidates hd, hnone _⟩
      | some e =>
        refine ⟨trivial, fun c hc => ?_, hnone _⟩
        rcases List.mem_append.mp hc with hc | hc
        · exact hw.requested (hd c hc)
        · obtain rfl := List.mem_singleton.mp hc
          exact hw.requested (hw.entries inst id e hjob)
  | fetch now id score todo scored =>
    simp only [Dispatch.step] at h
    split at h
    · next job hjob =>
      obtain rfl := Option.some.inj h
      exact ⟨trivial, ⟨hw.requested (hw.getJob hjob).2, hw.candidates hd⟩, hnone _⟩
    · obtain rfl := Option.some.inj h
      exact ⟨trivial, hw.candidates hd, hnone _⟩
    · obtain rfl := Option.some.inj h
      exact ⟨trivial, hw.candidates hd, hnone _⟩
  | dropMissing now id todo scored =>
    obtain rfl := Option.some.inj h
    exact ⟨trivial, hw.candidates hd, hnone _⟩
  | adopt now id score job todo scored =>
    obtain rfl := Option.some.inj h
    refine ⟨hd.1, fun c hc => ?_, hnone _⟩
    rcases List.mem_append.mp hc with hc | hc
    · exact hw.requested (hd.2 c hc)
    · obtain rfl := List.mem_singleton.mp hc
      exact hw.requested hd.1
  | sort now scored =>
    simp only [Dispatch.step] at h
    split at h
    · obtain rfl := Option.some.inj h
      refine ⟨trivial, fun c hc => ?_, hnone _⟩
      exact hw.requested (hd c ((List.perm_insertionSort _ _).mem_iff.mp hc))
    · cases h
  | attempt rest =>
    cases rest with
    | nil => obtain rfl := Option.some.inj h; exact ⟨trivial, trivial, hnone _⟩
    | cons c rest =>
      simp only [Dispatch.step, Dispatch.attemptStep] at h
      split at h
      · obtain rfl := Option.some.inj h; exact ⟨trivial, hw.candidates hd, hnone _⟩
      · obtain rfl := Option.some.inj h; exact ⟨trivial, hw.candidates hd, hnone _⟩
      · obtain rfl := Option.some.inj h; exact ⟨trivial, hw.candidates hd, hnone _⟩
      · cases h
  | countMiss c rest =>
    obtain rfl := Option.some.inj h
    refine ⟨trivial, ?_, hnone _⟩
    simp only [Dispatch.goto]
    split
    · exact hw.candidates fun x hx => hd x (List.mem_cons_of_mem _ hx)
    · exact hw.candidates hd
  | claimToFail c rest =>
    obtain rfl := Option.some.inj h
    refine ⟨trivial, ?_, hnone _⟩
    simp only [Dispatch.goto]
    split
    · exact hw.candidates hd
    · exact hw.candidates fun x hx => hd x (List.mem_cons_of_mem _ hx)
  | failJob c rest pc =>
    obtain rfl := Option.some.inj h
    have hrest : CandidatesLoaded w rest := fun x hx => hd x (List.mem_cons_of_mem _ hx)
    cases pc with
    | entry =>
      simp only [Dispatch.failStep]
      split <;> exact ⟨trivial, hw.candidates hd, hnone _⟩
    | row =>
      refine ⟨trivial, hw.candidates hrest, fun s hs => ?_⟩
      obtain rfl := List.mem_singleton.mp hs
      trivial
    | _ => exact ⟨trivial, hw.candidates hd, hnone _⟩
  | resetMisses c provider rest =>
    obtain rfl := Option.some.inj h
    refine ⟨trivial, ?_, hnone _⟩
    cases provider with
    | none => exact hw.candidates fun x hx => hd x (List.mem_cons_of_mem _ hx)
    | some p => exact hw.candidates hd
  | claim c provider rest =>
    obtain rfl := Option.some.inj h
    refine ⟨trivial, ?_, hnone _⟩
    simp only [Dispatch.goto, Queue.zsetClaim_eq]
    by_cases hm : c.uuid ∈ w.queue.zset
    · simp only [hm, if_true]
      exact hw.requested ((hd c (List.mem_cons_self ..)).asSubmitted (hclaim hm))
    · simp only [hm, if_false]
      exact hw.candidates fun x hx => hd x (List.mem_cons_of_mem _ hx)
  | assign c provider =>
    obtain rfl := Option.some.inj h
    exact ⟨trivial, hw.requested hd, hnone _⟩
  | setOwner c provider =>
    obtain rfl := Option.some.inj h
    refine ⟨trivial, trivial, fun s hs => ?_⟩
    obtain rfl := List.mem_singleton.mp hs
    exact hw.requested hd
  | finished => cases h

theorem recover_loaded {r : Recover} {m : Moved Recover} (hr : r.pc.Loaded w)
    (h : r.step w = some m) :
    m.access.Loaded w ∧ m.next.pc.Loaded (w.apply m.access) := by
  obtain ⟨inst, pc⟩ := r
  cases pc with
  | list =>
    simp only [Recover.step] at h
    split at h
    · obtain rfl := Option.some.inj h
      exact ⟨trivial, trivial⟩
    · next jobs hjobs =>
      obtain rfl := Option.some.inj h
      exact ⟨trivial, hw.jobs (hw.listPending hjobs)⟩
  | each todo =>
    obtain rfl := Option.some.inj h
    refine ⟨trivial, ?_⟩
    cases todo with
    | nil => trivial
    | cons job todo =>
      simp only [Recover.each, Recover.goto]
      split <;> exact hw.jobs hr
  | readOwner job todo =>
    simp only [Recover.step] at h
    split at h
    · obtain rfl := Option.some.inj h
      refine ⟨trivial, ?_⟩
      simp only [Recover.goto]
      split <;> exact hw.jobs hr
    · obtain rfl := Option.some.inj h
      exact ⟨trivial, hw.jobs hr⟩
  | readHeartbeat owner job todo =>
    obtain rfl := Option.some.inj h
    refine ⟨trivial, ?_⟩
    simp only [Recover.goto]
    split
    · exact hw.jobs fun x hx => hr x (List.mem_cons_of_mem _ hx)
    · exact hw.jobs hr
  | resetStatus job todo =>
    obtain rfl := Option.some.inj h
    refine ⟨trivial, hw.jobs fun x hx => ?_⟩
    rcases List.mem_cons.mp hx with rfl | hx
    · exact hr job (List.mem_cons_self ..)
    · exact hr x (List.mem_cons_of_mem _ hx)
  | insertEntry job todo =>
    obtain rfl := Option.some.inj h
    exact ⟨hr job (List.mem_cons_self ..), hw.jobs hr⟩
  | enqueue job todo =>
    obtain rfl := Option.some.inj h
    exact ⟨trivial, hw.jobs fun x hx => hr x (List.mem_cons_of_mem _ hx)⟩
  | finished => cases h

omit hw in
/-- A step that spawns no worker spawns nothing that holds a job. -/
theorem plain_loaded {M : Type} {m : Moved M} (h : m.Plain) :
    ∀ s ∈ m.spawned, s.task.Loaded (w.apply m.access) := by
  intro s hs
  cases s with
  | run args => exact absurd rfl (h _ hs args)
  | _ => trivial

end Steps

/-! ## Runs -/

/-- Every claim is of a job that was loaded from the entry of its submission, or whose request
survives the row. -/
def ClaimsLoaded (c : Config) : Action → Prop
  | .run k _ => ∀ d, c.tasks[k]? = some (.dispatch d) → ClaimLoaded c.world d.pc
  | _ => True

theorem World.Env.loaded {w w' : World} (h : World.Env w w') (hw : w.Loaded) :
    w'.Loaded ∧ ∀ t : Task, t.Loaded w → t.Loaded w' := by
  have hreq : w'.requests = w.requests ∧ w'.nextJob = w.nextJob ∧ w'.rows = w.rows := by
    cases h <;> exact ⟨rfl, rfl, rfl⟩
  have hjobs : ∀ i j e, w'.jobs i j = some e → w.jobs i j = some e := by
    intro i j e he
    cases h with
    | restart inst =>
      by_cases hi : i = inst
      · subst hi
        simp at he
      · simpa [Function.update_of_ne hi] using he
    | _ => exact he
  obtain ⟨hreq, hnext, hrows⟩ := hreq
  have hR : ∀ {id P}, Requested w id P → Requested w' id P := by
    intro id P ⟨inst, req, h, hp⟩
    exact ⟨inst, req, by rw [hreq]; exact h, hp⟩
  refine ⟨⟨?_, fun i j e he => hR (hw.entries i j e (hjobs i j e he)), fun j row hrow => ?_⟩, ?_⟩
  · intro j r h
    rw [hreq] at h
    rw [hnext]
    exact hw.made j r h
  · rw [hrows] at hrow
    exact ⟨(hw.rows j row hrow).1, hR (hw.rows j row hrow).2⟩
  · intro t ht
    cases t with
    | submit s =>
      obtain ⟨inst, req, pc⟩ := s
      cases pc <;> first | exact ⟨by rw [hreq]; exact ht.1, ht.2⟩ | trivial
    | dispatch d =>
      obtain ⟨inst, pc⟩ := d
      cases pc <;> first
        | trivial
        | exact ⟨hR ht.1, fun c hc => hR (ht.2 c hc)⟩
        | exact fun c hc => hR (ht c hc)
        | exact hR ht
    | recover r =>
      obtain ⟨inst, pc⟩ := r
      cases pc <;> first | trivial | exact fun c hc => hR (ht c hc)
    | run v => exact hR ht
    | _ => trivial

/-- Every job handed to `run_job` asks for exactly what was submitted under its id. -/
theorem handed_job_as_submitted {d : Deployment} {c : Config}
    (h : Run Config.step ClaimsLoaded (Config.init d) c) :
    ∀ v, .run v ∈ c.tasks → ∃ inst req, c.world.requests v.uuid = some (inst, req) ∧
      v.args.job.generationInput = req.generationInput := by
  have hinv : c.world.Loaded ∧ ∀ t ∈ c.tasks, t.Loaded c.world := by
    refine local_invariant ?_ ?_ (fun _ => trivial) (fun w w' henv hw => henv.loaded hw) ?_ h
    · exact ⟨(fun j r h => by cases h), (fun i j e h => by cases h), (fun j row h => by cases h)⟩
    · intro c s
      cases s <;> trivial
    · intro c k choice t m hw ht hok hk hm
      have hothers : ∀ u : Task, u.Loaded c.world → u.Loaded (c.world.apply m.access) :=
        fun u hu => hw.task hu
      have hquiet : t.mayAccess .makeEntry = false → t.mayAccess .saveRow = false →
          m.access.Loaded c.world := fun hentry hrow =>
        Access.loaded_of_kind (ne_of_mayAccess (task_mayAccess hm) hentry)
          (ne_of_mayAccess (task_mayAccess hm) hrow)
      have hspawned : t.isDispatch = false →
          ∀ s ∈ m.spawned, s.task.Loaded (c.world.apply m.access) :=
        fun hd => plain_loaded (task_plain hm hd)
      have hpost : m.access.Loaded c.world ∧ m.next.Loaded (c.world.apply m.access) ∧
          ∀ s ∈ m.spawned, s.task.Loaded (c.world.apply m.access) := by
        cases Task.step_moved hm with
        | submit hs =>
          obtain ⟨ha, hnext⟩ := submit_loaded hw ht hs
          exact ⟨ha, hnext, hspawned rfl⟩
        | dispatch hs => exact dispatch_loaded hw ht (hok _ hk) hs
        | recover hs =>
          obtain ⟨ha, hnext⟩ := recover_loaded hw ht hs
          exact ⟨ha, hnext, hspawned rfl⟩
        | @run v n hs =>
          have hkeep : AsSubmitted (c.world.apply n.access) v.uuid v.args.job := hw.requested ht
          have hnext : n.next.uuid = v.uuid ∧ n.next.args.job = v.args.job := by
            simp only [Worker.uuid, step_args hs, and_self]
          refine ⟨hquiet rfl rfl, ?_, hspawned rfl⟩
          show AsSubmitted (c.world.apply n.access) n.next.uuid n.next.args.job
          rw [hnext.1, hnext.2]
          exact hkeep
        | _ => exact ⟨hquiet rfl rfl, trivial, hspawned rfl⟩
      exact ⟨hw.apply hpost.1, hpost.2.1, hpost.2.2, hothers⟩
  intro v hv
  obtain ⟨inst, req, hreq, hin⟩ := hinv.2 _ hv
  exact ⟨inst, req, hreq, hin⟩

/-- Whether every claim is of a job its dispatcher loaded from the entry of the submission. -/
def claimsSubmitted (c : Config) : Action → Bool
  | .run k _ =>
    match c.tasks[k]? with
    | some (.dispatch d) =>
      match d.pc with
      | .claim c _ _ => c.submitted
      | _ => true
    | _ => true
  | _ => true

theorem claimsLoaded_of_claimsSubmitted (c : Config) (a : Action)
    (h : claimsSubmitted c a = true) : ClaimsLoaded c a := by
  cases a with
  | run k choice =>
    intro d hd
    simp only [claimsSubmitted, hd] at h
    obtain ⟨inst, pc⟩ := d
    cases pc with
    | claim c provider rest => exact fun _ => .inl h
    | _ => trivial
  | _ => trivial

/-- A prompt of more than ten characters reaches `run_job` whole at the submitting instance. -/
theorem handed_job_as_submitted_at_home :
    ∃ c v, Run Config.step ClaimsLoaded (Config.init twoInstances) c ∧ .run v ∈ c.tasks ∧
      v.args.job.prompt.asStr = "tell me about the sea" ∧
      ∃ inst req, c.world.requests v.uuid = some (inst, req) ∧
        v.args.job.generationInput = req.generationInput := by
  have hexec : (exec Config.step claimsSubmitted (Config.init twoInstances)
      (submitThenDispatch (plainRequest "tell me about the sea") 0 2)).any (fun c =>
        c.anyWorker fun v => v.args.job.prompt.asStr = "tell me about the sea") = true := by
    decide +kernel
  obtain ⟨c, hrun, hc⟩ := Run.exists_of_exec claimsLoaded_of_claimsSubmitted hexec
  obtain ⟨v, hv, hp⟩ := Config.mem_of_anyWorker hc
  exact ⟨c, v, hrun, hv, of_decide_eq_true hp, handed_job_as_submitted hrun v hv⟩

/-- Claimed by the other instance, the same job reaches `run_job` with its preview as prompt. -/
theorem handed_job_loses_prompt :
    ∃ c v, Run Config.step (fun _ _ => True) (Config.init twoInstances) c ∧ .run v ∈ c.tasks ∧
      v.args.job.prompt.asStr = "tell me a…" ∧
      ¬ ∃ inst req, c.world.requests v.uuid = some (inst, req) ∧
        v.args.job.generationInput = req.generationInput := by
  have hexec : (exec Config.step (fun _ _ => true) (Config.init twoInstances)
      (submitThenDispatch (plainRequest "tell me about the sea") 1 4)).any (fun c =>
        c.anyWorker fun v => v.args.job.prompt.asStr = "tell me a…" ∧
          (c.world.requests v.uuid).all fun r => r.2.prompt = "tell me about the sea") = true := by
    decide +kernel
  obtain ⟨c, hrun, hc⟩ : ∃ c, Run Config.step (fun _ _ => True) _ c ∧ _ = true :=
    Run.exists_of_exec (fun _ _ _ => trivial) hexec
  obtain ⟨v, hv, hp⟩ := Config.mem_of_anyWorker hc
  obtain ⟨hprompt, hreqs⟩ := of_decide_eq_true hp
  refine ⟨c, v, hrun, hv, hprompt, ?_⟩
  rintro ⟨inst, req, hreq, hin⟩
  have hreqPrompt : req.prompt = "tell me about the sea" := by simpa [hreq] using hreqs
  have hsame : v.args.job.prompt.asStr = req.prompt := congrArg GenerationInput.prompt hin
  rw [hprompt, hreqPrompt] at hsame
  exact absurd hsame (by decide)

end Veronex
