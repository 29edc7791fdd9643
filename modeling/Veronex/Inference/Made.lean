import Veronex.Inference.Homes

/-! # The ids in use

`ids_made`: whatever an entry, a row, a loaded job or a worker is about, its id was made by a
submission before, in every run.
-/
namespace Veronex
open Concurrency
set_option autoImplicit false

structure World.Made (w : World) : Prop where
  entries : ∀ i j e, w.jobs i j = some e → j < w.nextJob
  rows : ∀ j row, w.rows j = some row → row.id = j ∧ j < w.nextJob

/-- The jobs a recovery has listed. -/
def RecoverPc.jobs : RecoverPc → List InferenceJob
  | .each todo => todo
  | .readOwner job todo | .readHeartbeat _ job todo | .resetStatus job todo | .insertEntry job todo
  | .enqueue job todo => job :: todo
  | .list | .finished => []

/-- The job a dispatcher is about to adopt. -/
def DispatchPc.adopting : DispatchPc → Option Uuid
  | .adopt _ id _ _ _ _ => some id
  | _ => none

def Task.Made (w : World) : Task → Prop
  | .submit s => ∀ j, s.pc.building = some j → j < w.nextJob
  | .dispatch d => (∀ c ∈ d.pc.candidates, c.uuid < w.nextJob) ∧
    ∀ j, d.pc.adopting = some j → j < w.nextJob
  | .run v => v.uuid < w.nextJob
  | .recover r => ∀ job ∈ r.pc.jobs, job.id < w.nextJob
  | _ => True

section Made
variable {w : World} {a : Access} {choice : Choice} {i : InstanceId} {j : Uuid}

theorem Task.Made.mono {w w' : World} {t : Task} (h : t.Made w) (hle : w.nextJob ≤ w'.nextJob) :
    t.Made w' := by
  cases t with
  | submit s => exact fun j hj => (h j hj).trans_le hle
  | dispatch d => exact ⟨fun c hc => (h.1 c hc).trans_le hle, fun j hj => (h.2 j hj).trans_le hle⟩
  | run v => exact Nat.lt_of_lt_of_le h hle
  | recover r => exact fun job hjob => (h job hjob).trans_le hle
  | _ => trivial

/-- The ids of what an access makes. -/
def Access.MakesMade (w : World) : Access → Prop
  | .insertEntry _ j _ | .orInsertEntry _ j _ => j < w.nextJob
  | .saveRow row => row.id < w.nextJob
  | _ => True

theorem makesMade_of_kind (hmake : a.kind ≠ .makeEntry) (hsave : a.kind ≠ .saveRow) :
    a.MakesMade w := by
  cases a with
  | insertEntry i j e => exact absurd rfl hmake
  | orInsertEntry i j e => exact absurd rfl hmake
  | saveRow row => exact absurd rfl hsave
  | _ => trivial

theorem World.Made.apply (hw : w.Made) (ha : a.MakesMade w) : (w.apply a).Made where
  entries i j e he := by
    refine Nat.lt_of_lt_of_le ?_ (nextJob_le_apply w a)
    rcases apply_jobs he with he | ⟨e₀, -, he₀, -, -⟩ | rfl | ⟨-, rfl⟩
    · exact hw.entries i j e he
    · exact hw.entries i j e₀ he₀
    · exact ha
    · exact ha
  rows j row hrow := by
    rcases apply_rows hrow with ⟨row₀, hrow₀, hsame⟩ | ⟨-, hid, rfl⟩
    · obtain ⟨hid, hlt⟩ := hw.rows j row₀ hrow₀
      exact ⟨hsame.id.trans hid, Nat.lt_of_lt_of_le hlt (nextJob_le_apply w a)⟩
    · subst hid
      exact ⟨rfl, Nat.lt_of_lt_of_le ha (nextJob_le_apply w _)⟩

theorem World.Made.getJob (hw : w.Made) {job : InferenceJob} (h : w.getJob j = .ok (some job)) :
    j < w.nextJob := by
  unfold World.getJob at h
  cases hrow : w.rows j with
  | none => rw [hrow] at h; cases h
  | some row => exact (hw.rows j row hrow).2

theorem rowToJob_id {row : JobRow} {job : InferenceJob} (h : rowToJob row = .ok job) :
    job.id = row.id := by
  unfold rowToJob at h
  cases hp : Prompt.new (row.promptPreview.getD "") with
  | error e => rw [hp] at h; cases h
  | ok prompt =>
    cases hm : ModelName.new row.modelName with
    | error e => rw [hp, hm] at h; cases h
    | ok modelName =>
      rw [hp, hm] at h
      cases h
      rfl

theorem World.Made.listPending (hw : w.Made) {jobs : List InferenceJob}
    (h : w.listPending = .ok jobs) {job : InferenceJob} (hjob : job ∈ jobs) : job.id < w.nextJob := by
  obtain ⟨j, row, hrow, hparse⟩ := listPending_mem h hjob
  obtain ⟨hid, hlt⟩ := hw.rows j row hrow
  rw [rowToJob_id hparse, hid]
  exact hlt

theorem submit_made {s : Submit} {m : Moved Submit} (hs : (Task.submit s).Made w)
    (h : s.step w = some m) :
    m.access.MakesMade w ∧ (Task.submit m.next).Made (w.apply m.access) := by
  refine ⟨?_, fun j hj => ?_⟩
  · obtain ⟨inst, req, pc⟩ := s
    cases pc with
    | save job => obtain rfl := Option.some.inj h; exact hs job.id rfl
    | insertEntry job cell => obtain rfl := Option.some.inj h; exact hs job.id rfl
    | create =>
      simp only [Submit.step] at h
      split at h <;> (obtain rfl := Option.some.inj h; trivial)
    | returned result => cases h
    | _ => obtain rfl := Option.some.inj h; trivial
  · obtain ⟨-, hold | ⟨ha, rfl⟩⟩ := submit_building h hj
    · exact Nat.lt_of_lt_of_le (hs j hold) (nextJob_le_apply w _)
    · rw [ha]
      exact Nat.lt_succ_self _

/-- A dispatcher adopts a job whose row it has read. -/
theorem dispatch_adopting {d : Dispatch} {m : Moved Dispatch} (h : d.step w choice = some m)
    (hj : m.next.pc.adopting = some j) : ∃ job, w.getJob j = .ok (some job) := by
  obtain ⟨inst, pc⟩ := d
  cases pc
  case fetch now id score todo scored =>
    simp only [Dispatch.step] at h
    split at h
    · next job hjob =>
      obtain rfl := Option.some.inj h
      obtain rfl := Option.some.inj hj
      exact ⟨job, hjob⟩
    · obtain rfl := Option.some.inj h
      cases hj
    · obtain rfl := Option.some.inj h
      cases hj
  case load now todo scored =>
    obtain rfl := Option.some.inj h
    cases todo with
    | nil => cases scored <;> cases hj
    | cons entry todo =>
      simp only [Dispatch.loadStep] at hj
      split at hj <;> cases hj
  case failJob c rest pc =>
    obtain rfl := Option.some.inj h
    cases pc
    case entry =>
      simp only [Dispatch.failStep] at hj
      split at hj <;> cases hj
    all_goals cases hj
  case resetMisses c provider rest =>
    obtain rfl := Option.some.inj h
    cases provider <;> cases hj
  all_goals simp only [Dispatch.step, Dispatch.attemptStep] at h
  all_goals repeat' (split at h)
  all_goals first
    | (obtain rfl := Option.some.inj h; cases hj)
    | cases h

theorem dispatch_made {d : Dispatch} {m : Moved Dispatch} (hw : w.Made)
    (hd : (Task.dispatch d).Made w) (h : d.step w choice = some m) :
    m.access.MakesMade w ∧ (Task.dispatch m.next).Made (w.apply m.access) := by
  have hle := nextJob_le_apply w m.access
  refine ⟨?_, fun c hc => Nat.lt_of_lt_of_le ?_ hle, fun j hj => Nat.lt_of_lt_of_le ?_ hle⟩
  · by_cases hkind : m.access.kind = .makeEntry
    · obtain ⟨now, id, score, job, todo, scored, hpc, ha⟩ := dispatch_adopts h hkind
      rw [ha]
      exact hd.2 id (by rw [hpc]; rfl)
    · exact makesMade_of_kind hkind (ne_of_mayAccess (dispatch_mayAccess h) rfl)
  · rcases dispatch_loads h hc with hold | ⟨e, he⟩ | ⟨now, score, job, todo, scored, hpc⟩
    · exact hd.1 c hold
    · exact hw.entries d.inst c.uuid e he
    · exact hd.2 c.uuid (by rw [hpc]; rfl)
  · obtain ⟨job, hjob⟩ := dispatch_adopting h hj
    exact hw.getJob hjob

/-- A recovery knows a job from its list. -/
theorem recover_lists {r : Recover} {m : Moved Recover} (h : r.step w = some m)
    {job : InferenceJob} (hjob : job ∈ m.next.pc.jobs) :
    (∃ job₀ ∈ r.pc.jobs, job₀.id = job.id) ∨ ∃ jobs, w.listPending = .ok jobs ∧ job ∈ jobs := by
  obtain ⟨inst, pc⟩ := r
  cases pc with
  | list =>
    simp only [Recover.step] at h
    split at h
    · obtain rfl := Option.some.inj h
      cases hjob
    · next jobs hjobs =>
      obtain rfl := Option.some.inj h
      exact .inr ⟨jobs, hjobs, hjob⟩
  | each todo =>
    obtain rfl := Option.some.inj h
    cases todo with
    | nil => cases hjob
    | cons first todo =>
      refine .inl ⟨job, ?_, rfl⟩
      simp only [Recover.each, Recover.goto] at hjob
      split at hjob <;> exact hjob
  | readOwner first todo =>
    refine .inl ⟨job, ?_, rfl⟩
    simp only [Recover.step] at h
    split at h
    · obtain rfl := Option.some.inj h
      simp only [Recover.goto] at hjob
      split at hjob <;> exact hjob
    · obtain rfl := Option.some.inj h
      exact hjob
  | readHeartbeat owner first todo =>
    obtain rfl := Option.some.inj h
    refine .inl ⟨job, ?_, rfl⟩
    simp only [Recover.goto] at hjob
    split at hjob
    · exact List.mem_cons_of_mem _ hjob
    · exact hjob
  | resetStatus first todo =>
    obtain rfl := Option.some.inj h
    -- The job goes on as pending, under the same id.
    rcases List.mem_cons.mp hjob with rfl | hjob
    · exact .inl ⟨first, List.mem_cons_self, rfl⟩
    · exact .inl ⟨job, List.mem_cons_of_mem _ hjob, rfl⟩
  | insertEntry first todo =>
    obtain rfl := Option.some.inj h
    exact .inl ⟨job, hjob, rfl⟩
  | enqueue first todo =>
    obtain rfl := Option.some.inj h
    exact .inl ⟨job, List.mem_cons_of_mem _ hjob, rfl⟩
  | finished => cases h

theorem recover_made {r : Recover} {m : Moved Recover} (hw : w.Made)
    (hr : (Task.recover r).Made w) (h : r.step w = some m) :
    m.access.MakesMade w ∧ (Task.recover m.next).Made (w.apply m.access) := by
  have hle := nextJob_le_apply w m.access
  refine ⟨?_, fun job hjob => Nat.lt_of_lt_of_le ?_ hle⟩
  · by_cases hkind : m.access.kind = .makeEntry
    · obtain ⟨job, todo, hpc, ha⟩ := recover_adopts h hkind
      rw [ha]
      exact hr job (by rw [hpc]; exact List.mem_cons_self)
    · exact makesMade_of_kind hkind (ne_of_mayAccess (recover_mayAccess h) rfl)
  · rcases recover_lists h hjob with ⟨job₀, hold, hid⟩ | ⟨jobs, hjobs, hmem⟩
    · rw [← hid]
      exact hr job₀ hold
    · exact hw.listPending hjobs hmem

theorem task_made {t : Task} {m : Moved Task} (hw : w.Made) (ht : t.Made w)
    (h : t.step w choice = some m) :
    m.access.MakesMade w ∧ m.next.Made (w.apply m.access) ∧
      ∀ s ∈ m.spawned, s.task.Made (w.apply m.access) := by
  have hkind := task_mayAccess h
  refine ⟨?_, ?_, fun s hs => ?_⟩
  · cases Task.step_moved h with
    | submit hs => exact (submit_made ht hs).1
    | dispatch hs => exact (dispatch_made hw ht hs).1
    | recover hs => exact (recover_made hw ht hs).1
    | _ => exact makesMade_of_kind (ne_of_mayAccess hkind rfl) (ne_of_mayAccess hkind rfl)
  · cases Task.step_moved h with
    | submit hs => exact (submit_made ht hs).2
    | dispatch hs => exact (dispatch_made hw ht hs).2
    | recover hs => exact (recover_made hw ht hs).2
    | @run v n hs =>
      have hargs := step_args hs
      have hsame : n.next.uuid = v.uuid := by rw [Worker.uuid, hargs, Worker.uuid]
      have hlt : v.uuid < w.nextJob := ht
      have hle := nextJob_le_apply w n.access
      show n.next.uuid < (w.apply n.access).nextJob
      rw [hsame]
      exact Nat.lt_of_lt_of_le hlt hle
    | _ => trivial
  · cases s with
    | run args =>
      cases hd : t.isDispatch with
      | false => exact absurd rfl (task_plain h hd _ hs args)
      | true =>
        cases Task.step_moved h with
        | @dispatch d n hstep =>
          rcases dispatch_spawned hstep with hplain | ⟨c, provider, hpc, -, hspawned⟩
          · exact absurd rfl (hplain _ hs args)
          · have hrun : Spawn.run args ∈ [Spawn.run (d.runArgs c provider)] := by
              simpa only [Moved.map, hspawned] using hs
            obtain rfl := Spawn.run.inj (List.mem_singleton.mp hrun)
            have hlt : c.uuid < w.nextJob := ht.1 c (by rw [hpc]; exact List.mem_singleton.mpr rfl)
            have hle := nextJob_le_apply w n.access
            show c.uuid < (w.apply n.access).nextJob
            exact Nat.lt_of_lt_of_le hlt hle
        | _ => cases hd
    | _ => trivial

end Made

theorem ids_made {ok : Config → Action → Prop} {d : Deployment} {c : Config}
    (h : Run Config.step ok (Config.init d) c) :
    c.world.Made ∧ ∀ t ∈ c.tasks, t.Made c.world := by
  refine local_invariant (W := World.Made) (T := fun w t => t.Made w) ⟨?_, ?_⟩
    (fun c s => ?_) (fun _ => trivial) (fun w w' henv hw => ?_) ?_ h
  · intro i j e he
    cases he
  · intro j row hrow
    cases hrow
  · cases s with
    | submit inst req =>
      intro j hj
      cases hj
    | dispatch inst =>
      refine ⟨fun x hx => ?_, fun j hj => ?_⟩
      · cases hx
      · cases hj
    | recover inst =>
      intro job hjob
      cases hjob
    | _ => trivial
  · cases henv with
    | restart inst =>
      refine ⟨⟨fun i j e he => ?_, hw.rows⟩, fun t ht => ht.mono le_rfl⟩
      by_cases hi : i = inst
      · subst hi
        simp at he
      · exact hw.entries i j e (by simpa [Function.update_of_ne hi] using he)
    | _ => exact ⟨⟨hw.entries, hw.rows⟩, fun t ht => ht.mono le_rfl⟩
  · intro c k choice t m hw ht _ _ hm
    obtain ⟨hmakes, hnext, hspawned⟩ := task_made hw ht hm
    exact ⟨hw.apply hmakes, hnext, hspawned, fun u hu => hu.mono (nextJob_le_apply _ _)⟩

end Veronex
