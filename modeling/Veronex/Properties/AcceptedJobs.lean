import Veronex.Inference.Invariants

/-! # Accepted jobs come back

A job is stored with a preview of its prompt, and `row_to_job` rebuilds the prompt from the preview,
which it rejects if it is empty. `list_pending` converts the rows of a recovery together.

`accepted_jobs_parse_iff`: in every run a stored job comes back exactly if its prompt is not only
`/no_think`, and the pending jobs come back exactly if this holds for each of them.
-/
namespace Veronex
open Concurrency
set_option autoImplicit false

def NO_THINK : List Char := ['/', 'n', 'o', '_', 't', 'h', 'i', 'n', 'k']

/-- A prompt of `/no_think`s and whitespace after them. -/
def OnlyNoThink (prompt : String) : Prop :=
  ∃ (n : ℕ) (rest : List Char), prompt.toList = (List.replicate n NO_THINK).flatten ++ rest ∧
    ∀ c ∈ rest, isWhitespace c = true

/-- The rows `list_pending` fetches. -/
def World.pendingRows (w : World) : List JobRow :=
  let rows := ((List.range w.nextJob).filterMap w.rows).filter fun row =>
    row.status = .pending ∨ row.status = .running
  (rows.insertionSort fun a b => a.createdAt ≤ b.createdAt).take 1000

/-! ## Empty previews -/

/-- What is trimmed are copies of the pattern. -/
theorem trimStartMatchesAux_split (pat : List Char) (fuel : ℕ) (s : List Char) :
    ∃ n, s = (List.replicate n pat).flatten ++ trimStartMatchesAux pat fuel s := by
  induction fuel generalizing s with
  | zero => exact ⟨0, rfl⟩
  | succ fuel ih =>
    unfold trimStartMatchesAux
    split
    · next hprefix =>
      obtain ⟨tail, rfl⟩ := List.isPrefixOf_iff_prefix.mp hprefix
      rw [List.drop_left]
      obtain ⟨n, hn⟩ := ih tail
      refine ⟨n + 1, ?_⟩
      rw [List.replicate_succ, List.flatten_cons, List.append_assoc, ← hn]
    · exact ⟨0, rfl⟩

/-- Copies of the pattern are trimmed as far as the fuel goes. -/
theorem trimStartMatchesAux_copies {pat rest : List Char} (hrest : ¬ pat <+: rest) (n fuel : ℕ)
    (hfuel : n ≤ fuel) :
    trimStartMatchesAux pat fuel ((List.replicate n pat).flatten ++ rest) = rest := by
  induction n generalizing fuel with
  | zero =>
    cases fuel with
    | zero => rfl
    | succ fuel =>
      rw [List.replicate_zero, List.flatten_nil, List.nil_append, trimStartMatchesAux,
        if_neg (by simpa using hrest)]
  | succ n ih =>
    obtain ⟨fuel, rfl⟩ : ∃ f, fuel = f + 1 := ⟨fuel - 1, by omega⟩
    rw [List.replicate_succ, List.flatten_cons, List.append_assoc, trimStartMatchesAux,
      if_pos (by simp), List.drop_left]
    exact ih fuel (by omega)

theorem trimStartMatches_copies {pat rest : List Char} (hpat : pat ≠ []) (hrest : ¬ pat <+: rest)
    (n : ℕ) : trimStartMatches pat ((List.replicate n pat).flatten ++ rest) = rest := by
  refine trimStartMatchesAux_copies hrest n _ ?_
  have hlen : 1 ≤ pat.length := List.length_pos_iff.mpr hpat
  have hmul : n * 1 ≤ n * pat.length := Nat.mul_le_mul_left n hlen
  rw [List.length_append, List.length_flatten, List.map_replicate, List.sum_replicate_nat]
  omega

theorem trim_eq_nil_iff (s : List Char) : trim s = [] ↔ ∀ c ∈ s, isWhitespace c = true := by
  rw [trim, List.rdropWhile_eq_nil_iff]
  constructor
  · intro h
    have hnil : s.dropWhile isWhitespace = [] := by
      by_contra hne
      have hhead := List.head_dropWhile_not isWhitespace hne
      have hspace := h _ (List.head_mem hne)
      exact absurd (hspace.symm.trans hhead) (by decide)
    exact List.dropWhile_eq_nil_iff.mp hnil
  · intro h c hc
    exact h c ((List.dropWhile_suffix isWhitespace).subset hc)

/-- Which prompts have an empty preview. -/
theorem promptPreview_eq_empty_iff (prompt : String) :
    promptPreview prompt = "" ↔ OnlyNoThink prompt := by
  have hempty : promptPreview prompt = "" ↔ trim (trimStartMatches NO_THINK prompt.toList) = [] := by
    have hpattern : "/no_think".toList = NO_THINK := by decide
    unfold promptPreview
    rw [hpattern]
    dsimp only
    split
    · exact String.ofList_eq_empty_iff
    · next hlong =>
      have hne : trim (trimStartMatches NO_THINK prompt.toList) ≠ [] := by
        intro hnil
        simp [hnil] at hlong
      rw [String.ofList_eq_empty_iff]
      simp [hne]
  rw [hempty, trim_eq_nil_iff]
  constructor
  · intro hspace
    obtain ⟨n, hn⟩ := trimStartMatchesAux_split NO_THINK prompt.toList.length prompt.toList
    exact ⟨n, _, hn, hspace⟩
  · rintro ⟨n, rest, hprompt, hspace⟩
    have hrest : ¬ NO_THINK <+: rest := by
      rintro ⟨tail, rfl⟩
      exact absurd (hspace '/' List.mem_cons_self) (by decide)
    rw [hprompt, trimStartMatches_copies (by decide) hrest]
    exact hspace

/-! ## Rows -/

theorem rowToJob_ok_iff (row : JobRow) :
    (∃ job, rowToJob row = .ok job) ↔ row.promptPreview.getD "" ≠ "" ∧ row.modelName ≠ "" := by
  unfold rowToJob Prompt.new ModelName.new
  by_cases hprompt : row.promptPreview.getD "" = ""
  · rw [dif_pos hprompt]
    refine iff_of_false ?_ fun h => h.1 hprompt
    rintro ⟨job, hjob⟩
    cases hjob
  · rw [dif_neg hprompt]
    by_cases hmodel : row.modelName = ""
    · rw [dif_pos hmodel]
      refine iff_of_false ?_ fun h => h.2 hmodel
      rintro ⟨job, hjob⟩
      cases hjob
    · rw [dif_neg hmodel]
      exact iff_of_true ⟨_, rfl⟩ ⟨hprompt, hmodel⟩

/-- Rows that are converted together all have to convert. -/
theorem mapM_rowToJob_iff (rows : List JobRow) :
    (∃ jobs, rows.mapM rowToJob = .ok jobs) ↔ ∀ row ∈ rows, ∃ job, rowToJob row = .ok job := by
  induction rows with
  | nil => exact iff_of_true ⟨[], rfl⟩ (by simp)
  | cons row rows ih =>
    rw [List.forall_mem_cons, ← ih, List.mapM_cons]
    cases hrow : rowToJob row with
    | error e =>
      refine iff_of_false ?_ ?_
      · rintro ⟨jobs, hjobs⟩
        cases hjobs
      · rintro ⟨⟨job, hjob⟩, -⟩
        cases hjob
    | ok job =>
      cases hrows : rows.mapM rowToJob with
      | error e =>
        refine iff_of_false ?_ ?_
        · rintro ⟨jobs, hjobs⟩
          cases hjobs
        · rintro ⟨-, jobs, hjobs⟩
          cases hjobs
      | ok jobs => exact iff_of_true ⟨job :: jobs, rfl⟩ ⟨⟨job, rfl⟩, jobs, rfl⟩

/-- The row stores the preview of its request, and a model name. -/
def RowStores (row : JobRow) (req : SubmitJobRequest) : Prop :=
  row.promptPreview = some (promptPreview req.prompt) ∧ row.modelName ≠ ""

theorem RowStores.rowToJob_iff {row : JobRow} {req : SubmitJobRequest} (h : RowStores row req) :
    (∃ job, rowToJob row = .ok job) ↔ ¬ OnlyNoThink req.prompt := by
  rw [rowToJob_ok_iff, h.1, Option.getD_some, ← promptPreview_eq_empty_iff]
  exact and_iff_left h.2

/-! ## Runs -/

/-- Every row stores the request of its id. -/
structure World.Saved (w : World) : Prop where
  made : RequestsMade w
  rows : ∀ id row, w.rows id = some row → row.id = id ∧
    ∃ inst req, w.requests id = some (inst, req) ∧ RowStores row req

/-- A submission that is about to save its job. -/
def Submit.Saves (w : World) (s : Submit) : Prop :=
  ∀ job, s.pc = .save job → w.requests job.id = some (s.inst, s.req) ∧
    RowStores (.ofJob w.messageHashes (jobForDb job)) s.req

def Task.Saves (w : World) : Task → Prop
  | .submit s => s.Saves w
  | _ => True

section Steps
variable {w w' : World} {a : Access}

/-- What a submission stores does not depend on the message hashes. -/
theorem stores_ofJob {req : SubmitJobRequest} {job : InferenceJob}
    (h : job.promptPreview = some (promptPreview req.prompt))
    (hashes : Json → Option (String × String)) :
    RowStores (.ofJob hashes (jobForDb job)) req :=
  ⟨h, job.modelName.property⟩

theorem Task.Saves.mono {t : Task} (h : t.Saves w)
    (hreq : ∀ id r, w.requests id = some r → w'.requests id = some r) : t.Saves w' := by
  cases t with
  | submit s =>
    intro job hpc
    obtain ⟨hjob, hstores⟩ := h job hpc
    exact ⟨hreq _ _ hjob, hstores⟩
  | _ => trivial

theorem World.Saved.apply (hw : w.Saved) (hrow : ∀ row, a = .saveRow row →
    ∃ inst req, w.requests row.id = some (inst, req) ∧ RowStores row req) : (w.apply a).Saved where
  made := hw.made.apply a
  rows id row h := by
    rcases apply_rows h with ⟨row₀, hrow₀, hsame⟩ | ⟨-, hid, rfl⟩
    · obtain ⟨hid, inst, req, hreq, hstores⟩ := hw.rows id row₀ hrow₀
      refine ⟨hsame.id.trans hid, inst, req, apply_requests a hw.made hreq, ?_⟩
      exact ⟨hsame.promptPreview.trans hstores.1, hsame.modelName ▸ hstores.2⟩
    · obtain ⟨inst, req, hreq, hstores⟩ := hrow row rfl
      exact ⟨hid, inst, req, hid ▸ apply_requests _ hw.made hreq, hstores⟩

theorem submit_saves {s : Submit} {m : Moved Submit} (hs : s.Saves w) (h : s.step w = some m) :
    (∀ row, m.access = .saveRow row →
      ∃ inst req, w.requests row.id = some (inst, req) ∧ RowStores row req) ∧
      m.next.Saves (w.apply m.access) := by
  obtain ⟨inst, req, pc⟩ := s
  cases pc with
  | create =>
    simp only [Submit.step] at h
    split at h
    · obtain rfl := Option.some.inj h
      refine ⟨fun row hrow => (by cases hrow), fun job hpc => (by cases hpc)⟩
    · next job hjob =>
      obtain rfl := Option.some.inj h
      obtain ⟨prompt, modelName, -, -, rfl⟩ := buildJob_ok hjob
      refine ⟨fun row hrow => (by cases hrow), fun job hpc => ?_⟩
      obtain rfl := SubmitPc.save.inj hpc
      exact ⟨Function.update_self .., stores_ofJob rfl _⟩
  | save job =>
    obtain rfl := Option.some.inj h
    obtain ⟨hreq, hstores⟩ := hs job rfl
    refine ⟨fun row hrow => ?_, fun job hpc => (by cases hpc)⟩
    obtain rfl := Access.saveRow.inj hrow
    exact ⟨inst, req, hreq, hstores⟩
  | enqueue job =>
    obtain rfl := Option.some.inj h
    refine ⟨fun row hrow => (by cases hrow), fun job hpc => ?_⟩
    simp only [Submit.goto] at hpc
    split at hpc <;> cases hpc
  | returned result => cases h
  | _ =>
    obtain rfl := Option.some.inj h
    exact ⟨fun row hrow => (by cases hrow), fun job hpc => (by cases hpc)⟩

end Steps

/-- In every run the rows store the requests of their ids. -/
theorem rows_saved {ok : Config → Action → Prop} {d : Deployment} {c : Config}
    (h : Run Config.step ok (Config.init d) c) : c.world.Saved := by
  refine (local_invariant (W := World.Saved) (T := fun w t => t.Saves w) ?_ ?_ (fun _ => trivial)
    ?_ ?_ h).1
  · exact ⟨fun j r h => (by cases h), fun id row h => (by cases h)⟩
  · intro c s
    cases s with
    | submit inst req =>
      intro job hpc
      cases hpc
    | _ => trivial
  · intro w w' henv hw
    have hsame : w'.requests = w.requests ∧ w'.nextJob = w.nextJob ∧ w'.rows = w.rows := by
      cases henv <;> exact ⟨rfl, rfl, rfl⟩
    obtain ⟨hreq, hnext, hrows⟩ := hsame
    refine ⟨⟨?_, ?_⟩, fun t ht => ht.mono fun id r hr => by rw [hreq, hr]⟩
    · intro j r hr
      rw [hnext]
      exact hw.made j r (hreq ▸ hr)
    · intro id row hrow
      rw [hrows] at hrow
      rw [hreq]
      exact hw.rows id row hrow
  · intro c k choice t m hw ht _ _ hm
    have hothers : ∀ u : Task, u.Saves c.world → u.Saves (c.world.apply m.access) :=
      fun u hu => hu.mono fun id r hr => apply_requests m.access hw.made hr
    have hspawned : ∀ s ∈ m.spawned, s.task.Saves (c.world.apply m.access) := by
      intro s _
      cases s <;> trivial
    have hquiet : t.mayAccess .saveRow = false → (c.world.apply m.access).Saved := by
      intro hkind
      refine hw.apply fun row hrow => ?_
      exact absurd (by rw [hrow]; rfl) (ne_of_mayAccess (task_mayAccess hm) hkind)
    cases Task.step_moved hm with
    | submit hs =>
      obtain ⟨hrow, hnext⟩ := submit_saves ht hs
      exact ⟨hw.apply hrow, hnext, hspawned, hothers⟩
    | _ => exact ⟨hquiet rfl, trivial, hspawned, hothers⟩

theorem mem_pendingRows {w : World} {row : JobRow} (h : row ∈ w.pendingRows) :
    ∃ id, w.rows id = some row := by
  have hmem := (List.perm_insertionSort _ _).mem_iff.mp (List.mem_of_mem_take h)
  obtain ⟨id, -, hid⟩ := List.mem_filterMap.mp (List.mem_filter.mp hmem).1
  exact ⟨id, hid⟩

/-- In every run: a stored job comes back from `get` exactly if its prompt is not only `/no_think`;
`list_pending` succeeds exactly if this holds for every job it fetches. -/
theorem accepted_jobs_parse_iff {d : Deployment} {c : Config}
    (h : Run Config.step (fun _ _ => True) (Config.init d) c) :
    (∀ id row, c.world.rows id = some row → ∃ inst req, c.world.requests id = some (inst, req) ∧
      ((∃ job, c.world.getJob id = .ok (some job)) ↔ ¬ OnlyNoThink req.prompt)) ∧
    ((∃ jobs, c.world.listPending = .ok jobs) ↔
      ∀ row ∈ c.world.pendingRows, ∀ inst req, c.world.requests row.id = some (inst, req) →
        ¬ OnlyNoThink req.prompt) := by
  have hw := rows_saved h
  constructor
  · intro id row hrow
    obtain ⟨-, inst, req, hreq, hstores⟩ := hw.rows id row hrow
    refine ⟨inst, req, hreq, ?_⟩
    rw [← hstores.rowToJob_iff, World.getJob, hrow]
    cases hparse : rowToJob row <;> simp [hparse, Except.map]
  · have hlist : c.world.listPending = c.world.pendingRows.mapM rowToJob := rfl
    rw [hlist, mapM_rowToJob_iff]
    refine forall₂_congr fun row hmem => ?_
    obtain ⟨id, hrow⟩ := mem_pendingRows hmem
    obtain ⟨rfl, inst, req, hreq, hstores⟩ := hw.rows id row hrow
    rw [hstores.rowToJob_iff, hreq]
    constructor
    · intro hprompt inst' req' heq
      obtain ⟨rfl, rfl⟩ := Prod.mk.inj (Option.some.inj heq)
      exact hprompt
    · exact fun hall => hall inst req rfl

/-- A submission on instance 0 that is accepted. -/
def submitOnly (k : ℕ) (prompt : String) : List Action :=
  .start (.submit 0 (plainRequest prompt)) :: List.replicate 6 (.run k .go)

theorem hello_comes_back :
    ∃ c, Run Config.step (fun _ _ => True) (Config.init twoInstances) c ∧
      ∃ job, c.world.getJob 0 = .ok (some job) := by
  have hexec : (exec Config.step (fun _ _ => true) (Config.init twoInstances)
      (submitOnly 0 "hello")).any (fun c => (c.world.rows 0).isSome ∧
        (c.world.requests 0).any fun r => r.2.prompt = "hello") = true := by decide +kernel
  obtain ⟨c, hrun, hc⟩ :=
    @Run.exists_of_exec _ _ _ _ (fun _ _ => True) (fun _ _ _ => trivial) _ _ _ hexec
  obtain ⟨hrow, hreq⟩ := of_decide_eq_true hc
  obtain ⟨row, hrow⟩ := Option.isSome_iff_exists.mp hrow
  obtain ⟨inst, req, hreq', hiff⟩ := (accepted_jobs_parse_iff hrun).1 0 row hrow
  have hprompt : req.prompt = "hello" := by simpa [hreq'] using hreq
  refine ⟨c, hrun, hiff.mpr ?_⟩
  rw [← promptPreview_eq_empty_iff, hprompt]
  decide

/-- A `submit` that has answered with an id. -/
def Task.submitted : Task → Bool
  | .submit s =>
    match s.pc with
    | .returned (.ok _) => true
    | _ => false
  | _ => false

/-- Two accepted jobs, of which the second cannot be listed because of the first. -/
theorem no_think_blocks_recovery :
    ¬ ∀ d c, Run Config.step (fun _ _ => True) (Config.init d) c →
      (∀ id row, c.world.rows id = some row → ∃ job, c.world.getJob id = .ok (some job)) ∧
        ∃ jobs, c.world.listPending = .ok jobs := by
  intro hall
  have hexec : (exec Config.step (fun _ _ => true) (Config.init twoInstances)
      (submitOnly 0 "/no_think" ++ submitOnly 1 "hello")).any (fun c =>
        !c.world.listPending.isOk && c.tasks.all Task.submitted) = true := by decide +kernel
  obtain ⟨c, hrun, hc⟩ :=
    @Run.exists_of_exec _ _ _ _ (fun _ _ => True) (fun _ _ _ => trivial) _ _ _ hexec
  obtain ⟨-, jobs, hjobs⟩ := hall twoInstances c hrun
  rw [hjobs] at hc
  cases hc

end Veronex
