import Veronex.Inference.Homes

/-! # The turns of a job

A worker writes its turn in `persist_partial_conversation`, when it is cancelled or its stream fails,
or in `finalize_job`. Before either it takes the flag of its entry, so what it has written is a
function of its control point (`Worker.turns`).

`turn_written_once`: where a job is handed to one worker only, which does not panic, finds its entry
when it is cancelled or its stream fails, and keeps the owner key, the job has at most one turn, and
exactly one once it has ended with a text or a tool call.
-/
namespace Veronex
open Concurrency
set_option autoImplicit false

/-! ## Workers -/

/-- The run took a text or a tool call from the stream. -/
def Worker.captured (v : Worker) : Bool := !(v.ts.text.isEmpty && v.ts.toolCalls.isEmpty)

/-- The access writes a record. -/
def Access.putsTurn : Access → Bool
  | .putConversation _ _ => true
  | _ => false

/-- The access takes a flag of an entry. -/
def Access.takesFlag : Access → Bool
  | .setFlag cell => cell.role = .persistedToS3
  | _ => false

theorem takesFlag_iff {a : Access} :
    a.takesFlag = true ↔ ∃ flag, a = .setFlag flag ∧ flag.role = .persistedToS3 := by
  cases a with
  | setFlag cell => simp [Access.takesFlag]
  | _ => simp [Access.takesFlag]

/-- The worker is about to write its turn. -/
def WorkerPc.puts : WorkerPc → Bool
  | .persist _ (.put _) | .final _ (.putConversation _ _) => true
  | _ => false

/-- The worker has not reached its `compare_exchange`, and may still. -/
def WorkerPc.unflagged : WorkerPc → Bool
  | .spawned | .setup | .counters | .counterPending | .counterRunning | .lifecycle | .boundary
  | .capture | .select | .received _ | .refreshOwner | .signalFlag | .errorFlag _
  | .persist _ (.compareExchange _) | .finalEntry
  | .notify _ .boundary | .notify _ .token | .notify _ .budget | .notify _ (.completed _)
  | .final _ .decrRunning | .final _ .readOwner | .final _ .readFlag
  | .final _ (.compareExchange _) => true
  | _ => false

/-- The flag the worker is about to take. -/
def WorkerPc.flag : WorkerPc → Option Cell
  | .persist _ (.compareExchange flag) | .final _ (.compareExchange flag) => some flag
  | _ => none

/-- Nothing is captured on the way here. -/
def WorkerPc.silent : WorkerPc → Bool
  | .spawned | .setup | .earlyDecr | .counters | .counterPending | .counterRunning | .lifecycle
  | .boundary | .notify _ .boundary | .lifecycleRow _ | .lifecycleEntry _ | .notify _ .lifecycle
  | .lifecycleDecr | .capture | .final _ .lostEntry | .final _ .lostNotifier
  | .block .cancelledBeforeStart _ | .returned .cancelledBeforeStart
  | .block .lifecycleFailed _ | .returned .lifecycleFailed
  | .block .ownershipLost _ | .returned .ownershipLost | .panicked => true
  | _ => false

/-- The turns a worker has written when it is here. -/
def Worker.turns (v : Worker) : ℕ :=
  match v.pc with
  | .signalDecr | .statusDecr | .errorEntry _ | .notify _ (.error _) | .errorRow _ | .errorDecr
  | .errorTpm | .block .cancelSignal _ | .returned .cancelSignal | .block .cancelStatus _
  | .returned .cancelStatus | .block .streamError _ | .returned .streamError =>
    if v.captured then 1 else 0
  | .final _ .finalizeRow | .final _ .counters | .final _ .removeNotifier | .final _ .recordTpm
  | .block .completed _ | .returned .completed => if v.job.mcpLoopId.isNone then 1 else 0
  | _ => 0

/-- The worker loses what it captured: it panics, its entry is gone, or the owner key is another
instance's. -/
def Worker.Drops (w : World) (v : Worker) : Prop :=
  match v.pc with
  | .received (.ok token) => (∃ e, w.jobs v.inst v.uuid = some e ∧ e.status ≠ .cancelled) ∧
      Worker.consume v.ts token w.now v.startedAt = none
  | .signalFlag | .errorFlag _ => v.captured = true ∧ w.jobs v.inst v.uuid = none
  | .final _ .readOwner => v.captured = true ∧ ∃ id, w.owner v.uuid = some id ∧ id ≠ v.inst
  | _ => False

/-- The worker writes its turn in `persist_partial_conversation`. -/
def WorkerPc.persisting : WorkerPc → Bool
  | .persist _ .get | .persist _ (.put _) => true
  | _ => false

/-- The worker writes its turn in `finalize_job`. -/
def WorkerPc.finalizing : WorkerPc → Bool
  | .final _ .getConversation | .final _ (.readVision _) | .final _ (.putConversation _ _) => true
  | _ => false

/-- What holds of a worker on its way. -/
structure Worker.OnTurns (v : Worker) : Prop where
  stop : v.stop.role = .stop
  flag : ∀ flag, v.pc.flag = some flag → flag.role = .persistedToS3 ∧ flag.job = v.uuid
  silent : v.pc.silent = true → v.captured = false
  persisting : v.pc.persisting = true → v.captured = true
  finalizing : v.pc.finalizing = true → v.job.mcpLoopId.isNone = true

/-- The flags of the entries carry the job of the entry. -/
def World.Flagged (w : World) : Prop :=
  ∀ i j e, w.jobs i j = some e → e.persistedToS3.role = .persistedToS3 ∧ e.persistedToS3.job = j

/-- What a step of a worker does to its turns. -/
structure TurnsMoved (v : Worker) (m : Moved Worker) : Prop where
  turns : m.next.turns = v.turns + if v.pc.puts then 1 else 0
  kept : m.next.OnTurns
  unflagged : m.next.pc.unflagged = true → v.pc.unflagged = true ∧ v.pc.flag = none
  flagged : ∀ flag, m.access = .setFlag flag → flag.role = .persistedToS3 → v.pc.flag = some flag

/-- The entry a task makes has a flag of its job. -/
theorem made_flagged {w : World} {choice : Choice} {t : Task} {m : Moved Task} {i : InstanceId}
    {j : Uuid} {e : JobEntry} (h : t.step w choice = some m)
    (ha : m.access = .insertEntry i j e ∨ m.access = .orInsertEntry i j e) :
    e.persistedToS3.role = .persistedToS3 ∧ e.persistedToS3.job = j := by
  rcases entry_made h ha with ⟨s, job, cell, -, -, rfl, rfl⟩ | ⟨job, rfl⟩ | ⟨job, rfl, rfl⟩ <;>
    exact ⟨rfl, rfl⟩

theorem World.Flagged.step {w : World} {choice : Choice} {t : Task} {m : Moved Task}
    (hw : w.Flagged) (h : t.step w choice = some m) : (w.apply m.access).Flagged := by
  intro i j e he
  rcases apply_jobs he with hold | ⟨e₀, u, he₀, -, rfl⟩ | ha | ⟨-, ha⟩
  · exact hw i j e hold
  · rw [(u.sameOrigin e₀).persistedToS3]
    exact hw i j e₀ he₀
  · exact made_flagged h (.inl ha)
  · exact made_flagged h (.inr ha)

section Step
variable {w : World} {v : Worker}

/-- A step to a point where the worker takes no flag and writes no turn. -/
theorem TurnsMoved.plain {m : Moved Worker} (hstop : m.next.stop.role = .stop)
    (hflag : m.next.pc.flag = none) (hsilent : m.next.pc.silent = true → m.next.captured = false)
    (hpersisting : m.next.pc.persisting = false) (hfinalizing : m.next.pc.finalizing = false)
    (hturns : m.next.turns = v.turns + if v.pc.puts then 1 else 0)
    (hunflagged : m.next.pc.unflagged = true → v.pc.unflagged = true ∧ v.pc.flag = none)
    (htakes : m.access.takesFlag = false) : TurnsMoved v m where
  turns := hturns
  kept :=
    { stop := hstop
      flag := fun flag h => by rw [hflag] at h; cases h
      silent := hsilent
      persisting := fun h => by rw [hpersisting] at h; cases h
      finalizing := fun h => by rw [hfinalizing] at h; cases h }
  unflagged := hunflagged
  flagged flag hset hrole := by
    rw [takesFlag_iff.mpr ⟨flag, hset, hrole⟩] at htakes
    cases htakes

theorem tpmAccess_writes (v : Worker) (tokens : ℕ) :
    (∀ flag, v.tpmAccess w tokens ≠ .setFlag flag) ∧ (v.tpmAccess w tokens).putsTurn = false := by
  unfold Worker.tpmAccess
  split
  · exact ⟨by rintro _ ⟨⟩, rfl⟩
  · dsimp only
    split <;> exact ⟨by rintro _ ⟨⟩, rfl⟩

theorem persistStep_turns {site : PersistSite} {pc : PersistPc} (hv : v.OnTurns)
    (hpc : v.pc = .persist site pc) (hstore : w.messageStore = true)
    (hfree : ∀ flag, v.pc.flag = some flag → w.flag flag = false) :
    TurnsMoved v (v.persistStep w site pc) := by
  have hcaptured := hv.persisting
  rw [hpc] at hcaptured hfree
  -- what the worker has written when `persist_partial_conversation` returns
  have hafter : ∀ a : Access, (v.captured = true → v.pc.puts = true) →
      (v.pc.puts = true → v.captured = true) →
      (∀ flag, a = .setFlag flag → v.pc.flag = some flag) →
      TurnsMoved v { access := a, next := v.goto (Worker.afterPersist site) } := by
    intro a hput hputs ha
    have hturns : v.turns = 0 := by simp only [Worker.turns, hpc]
    have hone : (if v.captured then 1 else 0) = 0 + if v.pc.puts then 1 else 0 := by
      by_cases hc : v.captured = true
      · simp [hc, hput hc]
      · have hno : v.pc.puts = false := by
          simpa using fun h => hc (hputs h)
        simp [hc, hno]
    refine ⟨?_, ?_, ?_, fun flag hset _ => ha flag hset⟩
    · rw [hturns, ← hone]
      cases site <;> rfl
    · cases site <;> exact ⟨hv.stop, by rintro _ ⟨⟩, by rintro ⟨⟩, by rintro ⟨⟩, by rintro ⟨⟩⟩
    · cases site <;> rintro ⟨⟩
  cases pc with
  | compareExchange flag =>
    have hputs : v.pc.puts = false := by rw [hpc]; rfl
    have hmine : ∀ flag', Access.setFlag flag = .setFlag flag' → v.pc.flag = some flag' := by
      intro flag' h
      obtain rfl := Access.setFlag.inj h
      rw [hpc]
      rfl
    simp only [Worker.persistStep, hfree flag rfl, hstore]
    by_cases hskip : v.ts.text = [] ∧ v.ts.toolCalls.isEmpty = true
    · have hno : v.captured = false := by simp [Worker.captured, hskip]
      simp only [hskip, Bool.true_eq_false, false_or, and_self, if_true, if_false,
        Bool.false_eq_true]
      refine hafter _ (fun h => ?_) (fun h => ?_) hmine
      · rw [hno] at h
        cases h
      · rw [hputs] at h
        cases h
    · have hyes : v.captured = true := by
        simpa [Worker.captured, imp_iff_not_or] using hskip
      simp only [hskip, Bool.true_eq_false, false_or, if_false, Bool.false_eq_true]
      refine ⟨?_, ⟨hv.stop, by rintro _ ⟨⟩, by rintro ⟨⟩, fun _ => hyes, by rintro ⟨⟩⟩,
        by rintro ⟨⟩, fun flag' h _ => hmine flag' h⟩
      simp [Worker.turns, Worker.goto, hpc, WorkerPc.puts]
  | get =>
    have hyes := hcaptured rfl
    refine ⟨?_, ⟨hv.stop, by rintro _ ⟨⟩, by rintro ⟨⟩, fun _ => hyes, by rintro ⟨⟩⟩, by rintro ⟨⟩,
      by rintro _ ⟨⟩⟩
    simp [Worker.persistStep, Worker.turns, Worker.goto, hpc, WorkerPc.puts]
  | put turns =>
    have hputs : v.pc.puts = true := by rw [hpc]; rfl
    exact hafter _ (fun _ => hputs) (fun _ => hcaptured rfl) (by rintro _ ⟨⟩)

theorem finalStep_turns {completedAt : Millis} {pc : FinalPc} (hv : v.OnTurns)
    (hpc : v.pc = .final completedAt pc) (hstore : w.messageStore = true) (hdrops : ¬ v.Drops w)
    (hfree : ∀ flag, v.pc.flag = some flag → w.flag flag = false)
    (hflags : w.Flagged) : TurnsMoved v (v.finalStep w completedAt pc) := by
  have hsilent := hv.silent
  have hfinalizing := hv.finalizing
  rw [hpc] at hsilent hfinalizing hfree
  have hputs : v.pc.puts = (WorkerPc.final completedAt pc).puts := by rw [hpc]
  have hturns : v.turns = Worker.turns { v with pc := .final completedAt pc } := by rw [← hpc]
  cases pc with
  | decrRunning =>
    exact .plain hv.stop rfl (by rintro ⟨⟩) rfl rfl
      (by rw [hputs, hturns]; rfl) (fun _ => by rw [hpc]; exact ⟨rfl, rfl⟩) rfl
  | readOwner =>
    simp only [Worker.finalStep]
    split
    · next id howner =>
      by_cases hid : id = v.inst
      · subst hid
        simp only [bne_self_eq_false, Bool.false_eq_true, if_false]
        exact .plain hv.stop rfl (by rintro ⟨⟩) rfl rfl
          (by rw [hputs, hturns]; rfl) (fun _ => by rw [hpc]; exact ⟨rfl, rfl⟩) rfl
      · -- the owner key is another instance's: what was captured would be lost
        have hno : v.captured = false := by
          by_contra hc
          refine hdrops ?_
          rw [Worker.Drops, hpc]
          exact ⟨by simpa using hc, id, howner, hid⟩
        simp only [bne_iff_ne, ne_eq, hid, not_false_eq_true, if_true]
        exact .plain hv.stop rfl (fun _ => hno) rfl rfl (by rw [hputs, hturns]; rfl) (by rintro ⟨⟩)
          rfl
    · simp only [Bool.false_eq_true, if_false]
      exact .plain hv.stop rfl (by rintro ⟨⟩) rfl rfl
        (by rw [hputs, hturns]; rfl) (fun _ => by rw [hpc]; exact ⟨rfl, rfl⟩) rfl
  | readFlag =>
    simp only [Worker.finalStep, hstore, true_and]
    split
    · next e he =>
      refine ⟨by rw [hputs, hturns]; rfl, ⟨hv.stop, fun flag h => ?_, by rintro ⟨⟩, by rintro ⟨⟩,
        by rintro ⟨⟩⟩,
        fun _ => by rw [hpc]; exact ⟨rfl, rfl⟩, by rintro _ ⟨⟩⟩
      obtain rfl := Option.some.inj h
      exact hflags _ _ e he
    · by_cases hmcp : v.job.mcpLoopId.isNone = true
      · simp only [hmcp, if_true]
        exact ⟨by rw [hputs, hturns]; rfl, ⟨hv.stop, by rintro _ ⟨⟩, by rintro ⟨⟩, by rintro ⟨⟩,
          fun _ => hmcp⟩,
          (by rintro ⟨⟩), by rintro _ ⟨⟩⟩
      · simp only [hmcp, if_false, Bool.false_eq_true]
        refine ⟨?_, ⟨hv.stop, by rintro _ ⟨⟩, by rintro ⟨⟩, by rintro ⟨⟩, by rintro ⟨⟩⟩,
          by rintro ⟨⟩, by rintro _ ⟨⟩⟩
        rw [hputs, hturns]
        simp [Worker.turns, Worker.goto, WorkerPc.puts, hmcp]
  | compareExchange flag =>
    have hmine : ∀ flag', Access.setFlag flag = .setFlag flag' → v.pc.flag = some flag' := by
      intro flag' h
      obtain rfl := Access.setFlag.inj h
      rw [hpc]
      rfl
    simp only [Worker.finalStep, hfree flag rfl, hstore, true_and, Bool.false_eq_true, if_false]
    by_cases hmcp : v.job.mcpLoopId.isNone = true
    · simp only [hmcp, if_true]
      exact ⟨by rw [hputs, hturns]; rfl, ⟨hv.stop, by rintro _ ⟨⟩, by rintro ⟨⟩, by rintro ⟨⟩,
        fun _ => hmcp⟩,
        (by rintro ⟨⟩), fun flag' h _ => hmine flag' h⟩
    · simp only [hmcp, if_false, Bool.false_eq_true]
      refine ⟨?_, ⟨hv.stop, by rintro _ ⟨⟩, by rintro ⟨⟩, by rintro ⟨⟩, by rintro ⟨⟩⟩, by rintro ⟨⟩,
        fun flag' h _ => hmine flag' h⟩
      rw [hputs, hturns]
      simp [Worker.turns, Worker.goto, WorkerPc.puts, hmcp]
  | putConversation turns vision =>
    have hmcp := hfinalizing rfl
    refine ⟨?_, ⟨hv.stop, by rintro _ ⟨⟩, by rintro ⟨⟩, by rintro ⟨⟩, by rintro ⟨⟩⟩, by rintro ⟨⟩,
      by rintro _ ⟨⟩⟩
    rw [hputs, hturns]
    simp [Worker.finalStep, Worker.turns, Worker.goto, WorkerPc.puts, hmcp]
  | getConversation =>
    exact ⟨by rw [hputs, hturns]; rfl, ⟨hv.stop, by rintro _ ⟨⟩, by rintro ⟨⟩, by rintro ⟨⟩,
      fun _ => hfinalizing rfl⟩,
      (by rintro ⟨⟩), by rintro _ ⟨⟩⟩
  | readVision turns =>
    exact ⟨by rw [hputs, hturns]; rfl, ⟨hv.stop, by rintro _ ⟨⟩, by rintro ⟨⟩, by rintro ⟨⟩,
      fun _ => hfinalizing rfl⟩,
      (by rintro ⟨⟩), by rintro _ ⟨⟩⟩
  | lostEntry =>
    exact .plain hv.stop rfl (fun _ => hsilent rfl) rfl rfl (by rw [hputs, hturns]; rfl)
      (by rintro ⟨⟩) rfl
  | lostNotifier =>
    exact .plain hv.stop rfl (fun _ => hsilent rfl) rfl rfl (by rw [hputs, hturns]; rfl)
      (by rintro ⟨⟩) rfl
  | counters =>
    simp only [Worker.finalStep]
    refine ⟨by rw [hputs, hturns]; rfl, ⟨hv.stop, by rintro _ ⟨⟩, by rintro ⟨⟩, by rintro ⟨⟩,
      by rintro ⟨⟩⟩, by rintro ⟨⟩, ?_⟩
    repeat' split
    all_goals rintro _ ⟨⟩
  | recordTpm =>
    refine ⟨by rw [hputs, hturns]; rfl, ⟨hv.stop, by rintro _ ⟨⟩, by rintro ⟨⟩, by rintro ⟨⟩,
      by rintro ⟨⟩⟩, by rintro ⟨⟩, ?_⟩
    intro flag hset
    exact absurd hset ((tpmAccess_writes v _).1 flag)
  | finalizeRow =>
    exact .plain hv.stop rfl (by rintro ⟨⟩) rfl rfl (by rw [hputs, hturns]; rfl) (by rintro ⟨⟩) rfl
  | removeNotifier =>
    exact .plain hv.stop rfl (by rintro ⟨⟩) rfl rfl (by rw [hputs, hturns]; rfl) (by rintro ⟨⟩) rfl

theorem receiveStep_turns {result : Except String StreamToken} (hv : v.OnTurns)
    (hpc : v.pc = .received result) (hdrops : ¬ v.Drops w) (hflags : w.Flagged) :
    TurnsMoved v (v.receiveStep w result) := by
  have hputs : v.pc.puts = false := by rw [hpc]; rfl
  have hturns : v.turns = 0 := by simp only [Worker.turns, hpc]
  have hun : v.pc.unflagged = true ∧ v.pc.flag = none := by rw [hpc]; exact ⟨rfl, rfl⟩
  cases he : w.jobs v.inst v.uuid with
  | none =>
    simp only [Worker.receiveStep, he]
    exact .plain hv.stop rfl (by rintro ⟨⟩) rfl rfl (by rw [hputs, hturns]; rfl) (fun _ => hun) rfl
  | some e =>
    by_cases hcancelled : e.status = .cancelled
    · simp only [Worker.receiveStep, he, hcancelled, if_true]
      refine ⟨by rw [hputs, hturns]; rfl, ⟨hv.stop, fun flag h => ?_, by rintro ⟨⟩, by rintro ⟨⟩,
        by rintro ⟨⟩⟩,
        fun _ => hun, by rintro _ ⟨⟩⟩
      obtain rfl := Option.some.inj h
      exact hflags _ _ e he
    · cases result with
      | error message =>
        simp only [Worker.receiveStep, he, hcancelled, if_false]
        exact .plain hv.stop rfl (by rintro ⟨⟩) rfl rfl (by rw [hputs, hturns]; rfl) (fun _ => hun)
          rfl
      | ok token =>
        cases hconsume : Worker.consume v.ts token w.now v.startedAt with
        | none =>
          refine absurd ?_ hdrops
          rw [Worker.Drops, hpc]
          exact ⟨⟨e, he, hcancelled⟩, hconsume⟩
        | some r =>
          simp only [Worker.receiveStep, he, hcancelled, if_false, hconsume]
          split <;> exact .plain hv.stop rfl (by rintro ⟨⟩) rfl rfl
            (by rw [hputs, hturns]; rfl) (fun _ => hun) rfl

theorem blockStep_turns {exit : Exit} {pc : BlockPc} (hv : v.OnTurns)
    (hpc : v.pc = .block exit pc) : TurnsMoved v (v.blockStep exit pc) := by
  have hsilent := hv.silent
  rw [hpc] at hsilent
  have hputs : v.pc.puts = false := by rw [hpc]; rfl
  have hstop : ∀ flag, Access.setFlag v.stop = .setFlag flag → flag.role ≠ .persistedToS3 := by
    intro flag h
    obtain rfl := Access.setFlag.inj h
    rw [hv.stop]
    rintro ⟨⟩
  have hturns : v.turns = Worker.turns { v with pc := .block exit pc } := by rw [← hpc]
  have hmoved : ∀ (a : Access) (pc' : WorkerPc), (pc' = .returned exit ∨ ∃ q, pc' = .block exit q) →
      (∀ flag, a = .setFlag flag → flag.role ≠ .persistedToS3) →
      TurnsMoved v { access := a, next := v.goto pc' } := by
    intro a pc' hpc' ha
    have hquiet : pc'.silent = (WorkerPc.block exit pc).silent := by
      rcases hpc' with rfl | ⟨q, rfl⟩ <;> cases exit <;> rfl
    refine ⟨?_, ⟨hv.stop, ?_, fun h => hsilent (hquiet ▸ h), ?_, ?_⟩, ?_,
      fun flag h hrole => absurd hrole (ha flag h)⟩
    · rw [hputs, hturns]
      rcases hpc' with rfl | ⟨q, rfl⟩ <;> cases exit <;> rfl
    all_goals rcases hpc' with rfl | ⟨q, rfl⟩ <;> first | rintro _ ⟨⟩ | rintro ⟨⟩
  cases pc with
  | stopKeepalive => exact hmoved _ _ (.inr ⟨_, rfl⟩) hstop
  | leaseRemove => exact hmoved _ _ (.inr ⟨_, rfl⟩) (by rintro _ ⟨⟩)
  | removeAttempts => exact hmoved _ _ (.inr ⟨_, rfl⟩) (by rintro _ ⟨⟩)
  | removeOwner => exact hmoved _ _ (.inl rfl) (by rintro _ ⟨⟩)

theorem step_turns {choice : Choice} {m : Moved Worker} (hv : v.OnTurns)
    (hstore : w.messageStore = true) (hflags : w.Flagged) (hdrops : ¬ v.Drops w)
    (hfree : ∀ flag, v.pc.flag = some flag → w.flag flag = false)
    (h : v.step w choice = some m) : TurnsMoved v m := by
  have hlost : ¬ (v.captured = true) → (if v.captured then 1 else 0) = 0 := fun hno => if_neg hno
  obtain ⟨args, job, stop, apiKeyId, tpmMinute, startedAt, cancelNotify, ts, log, pc⟩ := v
  cases pc
  case persist site pc =>
    obtain rfl := Option.some.inj h
    exact persistStep_turns hv rfl hstore hfree
  case final completedAt pc =>
    obtain rfl := Option.some.inj h
    exact finalStep_turns hv rfl hstore hdrops hfree hflags
  case received result =>
    obtain rfl := Option.some.inj h
    exact receiveStep_turns hv rfl hdrops hflags
  case block exit pc =>
    obtain rfl := Option.some.inj h
    exact blockStep_turns hv rfl
  case spawned =>
    obtain rfl := Option.some.inj h
    exact ⟨rfl, ⟨rfl, by rintro _ ⟨⟩, fun _ => hv.silent rfl, by rintro ⟨⟩, by rintro ⟨⟩⟩,
      fun _ => ⟨rfl, rfl⟩, by rintro _ ⟨⟩⟩
  case signalFlag =>
    simp only [Worker.step] at h
    split at h
    · next e he =>
      obtain rfl := Option.some.inj h
      refine ⟨rfl, ⟨hv.stop, fun flag hflag => ?_, by rintro ⟨⟩, by rintro ⟨⟩, by rintro ⟨⟩⟩,
        fun _ => ⟨rfl, rfl⟩, by rintro _ ⟨⟩⟩
      obtain rfl := Option.some.inj hflag
      exact hflags _ _ e he
    · next hnone =>
      obtain rfl := Option.some.inj h
      exact .plain hv.stop rfl (by rintro ⟨⟩) rfl rfl (hlost (fun hc => hdrops ⟨hc, hnone⟩))
        (by rintro ⟨⟩) rfl
  case errorFlag message =>
    simp only [Worker.step] at h
    split at h
    · next e he =>
      obtain rfl := Option.some.inj h
      refine ⟨rfl, ⟨hv.stop, fun flag hflag => ?_, by rintro ⟨⟩, by rintro ⟨⟩, by rintro ⟨⟩⟩,
        fun _ => ⟨rfl, rfl⟩, by rintro _ ⟨⟩⟩
      obtain rfl := Option.some.inj hflag
      exact hflags _ _ e he
    · next hnone =>
      obtain rfl := Option.some.inj h
      exact .plain hv.stop rfl (by rintro ⟨⟩) rfl rfl (hlost (fun hc => hdrops ⟨hc, hnone⟩))
        (by rintro ⟨⟩) rfl
  case errorTpm =>
    obtain rfl := Option.some.inj h
    exact ⟨rfl, ⟨hv.stop, by rintro _ ⟨⟩, by rintro ⟨⟩, by rintro ⟨⟩, by rintro ⟨⟩⟩, by rintro ⟨⟩,
      fun flag hset => absurd hset ((tpmAccess_writes _ _).1 flag)⟩
  case notify cell site =>
    obtain rfl := Option.some.inj h
    cases site
    case boundary =>
      exact .plain hv.stop rfl (fun _ => hv.silent rfl) rfl rfl rfl (fun _ => ⟨rfl, rfl⟩) rfl
    case lifecycle =>
      exact .plain hv.stop rfl (fun _ => hv.silent rfl) rfl rfl rfl (by rintro ⟨⟩) rfl
    case error message => exact .plain hv.stop rfl (by rintro ⟨⟩) rfl rfl rfl (by rintro ⟨⟩) rfl
    all_goals exact .plain hv.stop rfl (by rintro ⟨⟩) rfl rfl rfl (fun _ => ⟨rfl, rfl⟩) rfl
  all_goals simp only [Worker.step] at h
  all_goals repeat' (split at h)
  all_goals first
    | (obtain rfl := Option.some.inj h
       exact .plain hv.stop rfl (fun _ => hv.silent rfl) rfl rfl rfl (fun _ => ⟨rfl, rfl⟩) rfl)
    | (obtain rfl := Option.some.inj h
       exact .plain hv.stop rfl (by rintro ⟨⟩) rfl rfl rfl (fun _ => ⟨rfl, rfl⟩) rfl)
    | (obtain rfl := Option.some.inj h
       exact .plain hv.stop rfl (fun _ => hv.silent rfl) rfl rfl rfl (by rintro ⟨⟩) rfl)
    | (obtain rfl := Option.some.inj h
       exact .plain hv.stop rfl (by rintro ⟨⟩) rfl rfl rfl (by rintro ⟨⟩) rfl)
    | cases h

/-- A turn is written where the worker is about to, and nowhere else. -/
theorem step_putsTurn {choice : Choice} {m : Moved Worker} (h : v.step w choice = some m) :
    m.access.putsTurn = v.pc.puts := by
  obtain ⟨args, job, stop, apiKeyId, tpmMinute, startedAt, cancelNotify, ts, log, pc⟩ := v
  cases pc
  case persist site pc =>
    obtain rfl := Option.some.inj h
    cases pc <;> simp only [Worker.persistStep] <;> (try split) <;> rfl
  case final completedAt pc =>
    obtain rfl := Option.some.inj h
    cases pc
    case recordTpm => exact (tpmAccess_writes _ _).2
    all_goals simp only [Worker.finalStep]
    all_goals repeat' split
    all_goals rfl
  case errorTpm =>
    obtain rfl := Option.some.inj h
    exact (tpmAccess_writes _ _).2
  case block exit pc =>
    obtain rfl := Option.some.inj h
    cases pc <;> rfl
  case notify cell site =>
    obtain rfl := Option.some.inj h
    rfl
  all_goals simp only [Worker.step, Worker.receiveStep] at h
  all_goals repeat' (split at h)
  all_goals first
    | (obtain rfl := Option.some.inj h; rfl)
    | cases h

/-- What a worker that has ended has written. -/
theorem turns_of_ended (hv : v.OnTurns) (hended : (Task.run v).ended = true)
    (hmcp : v.job.mcpLoopId.isNone = true) (hcaptured : v.captured = true) : v.turns = 1 := by
  have hsilent := hv.silent
  obtain ⟨args, job, stop, apiKeyId, tpmMinute, startedAt, cancelNotify, ts, log, pc⟩ := v
  cases pc
  case returned exit =>
    cases exit
    case cancelledBeforeStart => rw [hsilent rfl] at hcaptured; cases hcaptured
    case lifecycleFailed => rw [hsilent rfl] at hcaptured; cases hcaptured
    case ownershipLost => rw [hsilent rfl] at hcaptured; cases hcaptured
    case completed => exact if_pos hmcp
    all_goals exact if_pos hcaptured
  case panicked => rw [hsilent rfl] at hcaptured; cases hcaptured
  all_goals cases hended

theorem turns_le_one (v : Worker) : v.turns ≤ 1 := by
  unfold Worker.turns
  split <;> first
    | exact Nat.zero_le _
    | (split <;> omega)

theorem unflagged_open (h : v.pc.unflagged = true) : (Task.run v).ended = false := by
  obtain ⟨args, job, stop, apiKeyId, tpmMinute, startedAt, cancelNotify, ts, log, pc⟩ := v
  cases pc
  case returned exit => cases h
  case panicked => cases h
  all_goals rfl

theorem unflagged_of_flag {pc : WorkerPc} {flag : Cell} (h : pc.flag = some flag) :
    pc.unflagged = true := by
  unfold WorkerPc.flag at h
  split at h
  · rfl
  · rfl
  · cases h

end Step

/-! ## The ledger of a run -/

/-- A configuration and what the workers of each job have done so far. -/
structure TurnLedger where
  config : Config
  /-- The flags taken. -/
  taken : Uuid → ℕ
  /-- The turns written. -/
  written : Uuid → ℕ

/-- A step of a worker of the job whose access passes the test. -/
def Config.workerSteps (c : Config) (p : Access → Bool) (j : Uuid) : Action → ℕ
  | .run k choice =>
    match c.tasks[k]? with
    | some (.run v) => if v.uuid = j ∧ (v.step c.world choice).any (p ·.access) then 1 else 0
    | _ => 0
  | _ => 0

namespace TurnLedger

def init (d : Deployment) : TurnLedger :=
  { config := Config.init d, taken := fun _ => 0, written := fun _ => 0 }

def step (l : TurnLedger) (a : Action) : Option TurnLedger :=
  (l.config.step a).map fun config =>
    { config
      taken := fun j => l.taken j + l.config.workerSteps Access.takesFlag j a
      written := fun j => l.written j + l.config.workerSteps Access.putsTurn j a }

/-- No worker of the job runs, and none has taken its flag or written its turn. -/
structure Untouched (l : TurnLedger) (j : Uuid) : Prop where
  idle : ∀ t ∈ l.config.tasks, ∀ v, t = .run v → v.uuid = j → t.ended = true
  taken : l.taken j = 0
  written : l.written j = 0

/-- A job is handed to a worker where it is untouched, and no worker loses what it captured. -/
def Keeps (l : TurnLedger) : Action → Prop
  | .run k _ => ∀ t, l.config.tasks[k]? = some t → match t with
    | .dispatch d => ∀ c provider, d.pc = .setOwner c provider → l.Untouched c.uuid
    | .run v => ¬ v.Drops l.config.world
    | _ => True
  | _ => True

end TurnLedger

/-- A worker of the job that has not ended. -/
def Task.runsFor (j : Uuid) : Task → ℕ
  | .run v => if v.uuid = j ∧ (Task.run v).ended = false then 1 else 0
  | _ => 0

/-- What holds of every job between two steps. -/
structure TurnLedger.Kept (l : TurnLedger) : Prop where
  store : l.config.world.messageStore = true
  flags : l.config.world.Flagged
  workers : ∀ t ∈ l.config.tasks, ∀ v, t = .run v → v.OnTurns
  once : ∀ j, weight (Task.runsFor j) l.config.tasks ≤ 1
  atMost : ∀ j, l.written j ≤ 1
  running : ∀ t ∈ l.config.tasks, ∀ v, t = .run v → t.ended = false → l.written v.uuid = v.turns
  ended : ∀ t ∈ l.config.tasks, ∀ v, t = .run v → v.turns ≤ l.written v.uuid
  free : ∀ t ∈ l.config.tasks, ∀ v, t = .run v → v.pc.unflagged = true → l.taken v.uuid = 0
  taken : ∀ n, n.role = .persistedToS3 → l.config.world.flag n = true → 0 < l.taken n.job

section Ledger
variable {l l' : TurnLedger} {c : Config} {k : ℕ} {choice : Choice}

theorem apply_messageStore (w : World) (a : Access) : (w.apply a).messageStore = w.messageStore := by
  cases a <;> rfl

theorem apply_flag {w : World} {a : Access} (h : a.byWorker = false) :
    (w.apply a).flag = w.flag := by
  cases a with
  | setFlag cell => cases h
  | _ => rfl

theorem workerSteps_worker {v : Worker} {m : Moved Worker} (hk : c.tasks[k]? = some (.run v))
    (hs : v.step c.world choice = some m) (p : Access → Bool) (j : Uuid) :
    c.workerSteps p j (.run k choice) = if v.uuid = j ∧ p m.access = true then 1 else 0 := by
  simp only [Config.workerSteps, hk, hs, Option.any_some]

theorem workerSteps_other {t : Task} (hk : c.tasks[k]? = some t) (ht : ∀ v, t ≠ .run v)
    (p : Access → Bool) (j : Uuid) : c.workerSteps p j (.run k choice) = 0 := by
  cases t with
  | run v => exact absurd rfl (ht v)
  | _ => simp only [Config.workerSteps, hk]

theorem runs_le_one (t : Task) (j : Uuid) : t.runsFor j ≤ 1 := by
  cases t with
  | run v =>
    show (if _ then 1 else 0) ≤ 1
    split <;> omega
  | _ => exact Nat.zero_le _

theorem ended_of_runs {t : Task} {v : Worker} (ht : t = .run v) (h : t.runsFor v.uuid = 0) :
    t.ended = true := by
  subst ht
  by_contra hopen
  have hone : (Task.run v).runsFor v.uuid = 1 := if_pos ⟨rfl, by simpa using hopen⟩
  omega

/-- What the surroundings and the other tasks may do: every worker is an old one or a new one of an
untouched job. -/
theorem TurnLedger.Kept.of_workers (hl : l.Kept) {w : World} {tasks : List Task}
    (hstore : w.messageStore = l.config.world.messageStore) (hflags : w.Flagged)
    (hflag : w.flag = l.config.world.flag)
    (htasks : ∀ t ∈ tasks, ∀ v, t = .run v → t ∈ l.config.tasks ∨
      ∃ args, v = .start args ∧ l.Untouched args.uuid)
    (honce : ∀ j, weight (Task.runsFor j) tasks ≤ 1) :
    TurnLedger.Kept { config := { world := w, tasks }, taken := l.taken, written := l.written } where
  store := hstore.trans hl.store
  flags := hflags
  workers t ht v hv := by
    rcases htasks t ht v hv with hold | ⟨args, rfl, -⟩
    · exact hl.workers t hold v hv
    · exact ⟨rfl, by rintro _ ⟨⟩, fun _ => rfl, by rintro ⟨⟩, by rintro ⟨⟩⟩
  once := honce
  atMost := hl.atMost
  running t ht v hv hopen := by
    rcases htasks t ht v hv with hold | ⟨args, rfl, hnew⟩
    · exact hl.running t hold v hv hopen
    · exact hnew.written
  ended t ht v hv := by
    rcases htasks t ht v hv with hold | ⟨args, rfl, hnew⟩
    · exact hl.ended t hold v hv
    · exact Nat.zero_le _
  free t ht v hv hun := by
    rcases htasks t ht v hv with hold | ⟨args, rfl, hnew⟩
    · exact hl.free t hold v hv hun
    · exact hnew.taken
  taken n hrole hset := hl.taken n hrole (hflag ▸ hset)

/-- A step of a worker. -/
theorem TurnLedger.Kept.worker (hl : l.Kept) {v : Worker} {m : Moved Worker} {others tasks : List Task}
    (hk : l.config.tasks[k]? = some (.run v)) (hs : v.step l.config.world choice = some m)
    (hdrops : ¬ v.Drops l.config.world)
    (hreplaced : Replaced l.config.tasks (.run v) (.run m.next) (m.spawned.map Spawn.task) others
      tasks) :
    TurnLedger.Kept
      { config := { world := l.config.world.apply m.access, tasks }
        taken := fun j => l.taken j + l.config.workerSteps Access.takesFlag j (.run k choice)
        written := fun j => l.written j + l.config.workerSteps Access.putsTurn j (.run k choice) } := by
  have hmem := hreplaced.task_mem
  have hopen := worker_not_ended hs
  have huuid : m.next.uuid = v.uuid := by rw [Worker.uuid, step_args hs, Worker.uuid]
  have hv := hl.workers _ hmem v rfl
  -- the flag the worker is about to take is free
  have hfree : ∀ flag, v.pc.flag = some flag → l.config.world.flag flag = false := by
    intro flag hflag
    obtain ⟨hrole, hjob⟩ := hv.flag flag hflag
    have hzero := hl.free _ hmem v rfl (unflagged_of_flag hflag)
    by_contra hset
    have hpos := hl.taken flag hrole (by simpa using hset)
    rw [hjob] at hpos
    omega
  have hmoved := step_turns hv hl.store hl.flags hdrops hfree hs
  have hputs := step_putsTurn hs
  have hwritten : l.written v.uuid = v.turns := hl.running _ hmem v rfl hopen
  -- the other workers of the job have ended
  have hidle : ∀ t ∈ others, ∀ u, t = .run u → u.uuid = v.uuid → t.ended = true := by
    intro t ht u hu huv
    have honce := hl.once v.uuid
    rw [hreplaced.weight_before] at honce
    have hone : (Task.run v).runsFor v.uuid = 1 := if_pos ⟨rfl, hopen⟩
    have hle := le_weight_of_mem (Task.runsFor v.uuid) ht
    exact ended_of_runs hu (by rw [huv]; omega)
  have hnew : ∀ t ∈ m.spawned.map Spawn.task, ∀ u, t ≠ .run u := by
    intro t ht u hu
    obtain ⟨s, hmem', rfl⟩ := List.mem_map.mp ht
    cases s with
    | run args => exact worker_plain hs _ hmem' args rfl
    | _ => cases hu
  have hsame : ∀ j, ¬ v.uuid = j → l.config.workerSteps Access.putsTurn j (.run k choice) = 0 := by
    intro j hj
    rw [workerSteps_worker hk hs, if_neg fun h => hj h.1]
  have hmine : l.config.workerSteps Access.putsTurn v.uuid (.run k choice) =
      if v.pc.puts then 1 else 0 := by
    rw [workerSteps_worker hk hs, hputs]
    simp
  have hnext : m.next.turns =
      l.written v.uuid + l.config.workerSteps Access.putsTurn v.uuid (.run k choice) := by
    rw [hmoved.turns, hmine, hwritten]
  refine ⟨?_, hl.flags.step (t := .run v) (m := m.map .run) (by rw [Task.step, hs]; rfl), ?_,
    fun j => ?_, fun j => ?_, ?_, ?_, ?_, fun n hrole hset => ?_⟩
  · exact (apply_messageStore _ _).trans hl.store
  · refine hreplaced.forall_mem (fun t ht => hl.workers t (hreplaced.other_mem_before ht)) ?_ ?_
    · intro u hu
      obtain rfl := Task.run.inj hu
      exact hmoved.kept
    · exact fun t ht u hu => absurd hu (hnew t ht u)
  · have honce := hl.once j
    have hzero : weight (Task.runsFor j) (m.spawned.map Spawn.task) = 0 := by
      refine weight_zero fun t ht => ?_
      cases t with
      | run u => exact absurd rfl (hnew _ ht u)
      | _ => rfl
    have hle : (Task.run m.next).runsFor j ≤ (Task.run v).runsFor j := by
      by_cases hj : v.uuid = j
      · have hone : (Task.run v).runsFor j = 1 := if_pos ⟨hj, hopen⟩
        rw [hone]
        exact runs_le_one _ j
      · have hzero : (Task.run m.next).runsFor j = 0 := if_neg fun h => hj (huuid ▸ h.1)
        omega
    rw [hreplaced.weight_before] at honce
    show weight (Task.runsFor j) tasks ≤ 1
    rw [hreplaced.weight_after, hzero]
    omega
  · show l.written j + _ ≤ 1
    by_cases hj : v.uuid = j
    · subst hj
      rw [← hnext]
      exact turns_le_one _
    · rw [hsame j hj, Nat.add_zero]
      exact hl.atMost j
  · refine hreplaced.forall_mem (fun t ht u hu hrunning => ?_) (fun u hu _ => ?_)
      fun t ht u hu => absurd hu (hnew t ht u)
    · have hne : ¬ v.uuid = u.uuid := by
        intro huv
        rw [hidle t ht u hu huv.symm] at hrunning
        cases hrunning
      have hold := hl.running t (hreplaced.other_mem_before ht) u hu hrunning
      show l.written u.uuid + _ = u.turns
      rw [hsame _ hne, Nat.add_zero, hold]
    · obtain rfl := Task.run.inj hu
      rw [huuid, hnext]
  · refine hreplaced.forall_mem (fun t ht u hu => ?_) (fun u hu => ?_)
      fun t ht u hu => absurd hu (hnew t ht u)
    · have hold := hl.ended t (hreplaced.other_mem_before ht) u hu
      exact hold.trans (Nat.le_add_right _ _)
    · obtain rfl := Task.run.inj hu
      rw [huuid, hnext]
  · refine hreplaced.forall_mem (fun t ht u hu hun => ?_) (fun u hu hun => ?_)
      fun t ht u hu => absurd hu (hnew t ht u)
    · have hne : ¬ v.uuid = u.uuid := by
        intro huv
        have hended := hidle t ht u hu huv.symm
        rw [hu, unflagged_open hun] at hended
        cases hended
      have hold := hl.free t (hreplaced.other_mem_before ht) u hu hun
      show l.taken u.uuid + _ = 0
      rw [workerSteps_worker hk hs, if_neg fun h => hne h.1, hold]
    · obtain rfl := Task.run.inj hu
      obtain ⟨hbefore, hnone⟩ := hmoved.unflagged hun
      have htakes : m.access.takesFlag = false := by
        by_contra htakes
        obtain ⟨flag, hset, hrole⟩ := takesFlag_iff.mp (by simpa using htakes)
        rw [hmoved.flagged flag hset hrole] at hnone
        cases hnone
      show l.taken m.next.uuid + _ = 0
      rw [huuid, workerSteps_worker hk hs, htakes, hl.free _ hmem v rfl hbefore]
      simp
  · show 0 < l.taken n.job + _
    by_cases htaken : ∃ flag, m.access = .setFlag flag ∧ flag = n
    · obtain ⟨flag, hset', rfl⟩ := htaken
      obtain ⟨-, hjob⟩ := hv.flag flag (hmoved.flagged flag hset' hrole)
      have htakes : m.access.takesFlag = true := takesFlag_iff.mpr ⟨flag, hset', hrole⟩
      rw [hjob, workerSteps_worker hk hs, if_pos ⟨rfl, htakes⟩]
      omega
    · have hold : l.config.world.flag n = true := by
        rw [← hset]
        show _ = (l.config.world.apply m.access).flag n
        cases haccess : m.access with
        | setFlag flag =>
          have hne : n ≠ flag := fun h => htaken ⟨flag, haccess, h.symm⟩
          exact (Function.update_of_ne hne _ _).symm
        | _ => rfl
      have hpos := hl.taken n hrole hold
      omega

/-- A worker that a step of another task leaves in the pool was there, or it is new and its job
untouched. -/
theorem TurnLedger.workers_before {t : Task} {m : Moved Task} {others tasks : List Task}
    (hk : l.config.tasks[k]? = some t) (hs : t.step l.config.world choice = some m)
    (ht : ∀ v, t ≠ .run v) (hkeeps : l.Keeps (.run k choice))
    (hreplaced : Replaced l.config.tasks t m.next (m.spawned.map Spawn.task) others tasks) :
    (∀ u ∈ tasks, ∀ v, u = .run v → u ∈ l.config.tasks ∨
      ∃ args, v = .start args ∧ l.Untouched args.uuid) ∧
    ∀ j, weight (Task.runsFor j) tasks ≤ max (weight (Task.runsFor j) l.config.tasks) 1 := by
  have hnext : ∀ v, m.next ≠ .run v := by
    intro v hv
    cases Task.step_moved hs with
    | run _ => exact ht _ rfl
    | _ => cases hv
  have hzero : ∀ j, m.next.runsFor j = 0 := by
    intro j
    cases hm : m.next with
    | run v => exact absurd hm (hnext v)
    | _ => rfl
  have hspawned : m.Plain ∨ ∃ args, m.spawned = [.run args] ∧ l.Untouched args.uuid := by
    cases hd : t.isDispatch with
    | false => exact .inl (task_plain hs hd)
    | true =>
      cases Task.step_moved hs with
      | @dispatch d n hdis =>
        rcases dispatch_spawned hdis with hplain | ⟨c, provider, hpc, -, hspawned⟩
        · exact .inl hplain
        · exact .inr ⟨_, hspawned, hkeeps _ hk c provider hpc⟩
      | _ => cases hd
  have hplain : m.Plain → ∀ u ∈ m.spawned.map Spawn.task, ∀ v, u ≠ .run v := by
    intro hplain u hu v hv
    obtain ⟨s, hmem, rfl⟩ := List.mem_map.mp hu
    cases s with
    | run args => exact hplain _ hmem args rfl
    | _ => cases hv
  refine ⟨hreplaced.forall_mem (fun u hu v _ => .inl (hreplaced.other_mem_before hu))
    (fun v hv => absurd hv (hnext v)) fun u hu v hv => ?_, fun j => ?_⟩
  · rcases hspawned with hp | ⟨args, hspawned, hnew⟩
    · exact absurd hv (hplain hp u hu v)
    · rw [hspawned] at hu
      obtain rfl := List.mem_singleton.mp hu
      obtain rfl := Task.run.inj hv
      exact .inr ⟨args, rfl, hnew⟩
  · rw [hreplaced.weight_before, hreplaced.weight_after, hzero j]
    rcases hspawned with hp | ⟨args, hspawned, hnew⟩
    · have hnone : weight (Task.runsFor j) (m.spawned.map Spawn.task) = 0 := by
        refine weight_zero fun u hu => ?_
        cases u with
        | run v => exact absurd rfl (hplain hp _ hu v)
        | _ => rfl
      omega
    · have hone := runs_le_one (Spawn.task (.run args)) j
      rw [hspawned, List.map_singleton, weight_cons, weight_nil]
      by_cases hj : args.uuid = j
      · -- the workers of an untouched job have ended
        have hothers : weight (Task.runsFor j) others = 0 := by
          refine weight_zero fun u hu => ?_
          cases u with
          | run v =>
            refine if_neg fun h => ?_
            have hended := hnew.idle _ (hreplaced.other_mem_before hu) v rfl (h.1.trans hj.symm)
            rw [hended] at h
            cases h.2
          | _ => rfl
        omega
      · have hother : (Spawn.task (.run args)).runsFor j = 0 := if_neg fun h => hj h.1
        omega

theorem TurnLedger.Kept.other (hl : l.Kept) {t : Task} {m : Moved Task} {others tasks : List Task}
    (hk : l.config.tasks[k]? = some t) (hs : t.step l.config.world choice = some m)
    (ht : ∀ v, t ≠ .run v) (hkeeps : l.Keeps (.run k choice))
    (hreplaced : Replaced l.config.tasks t m.next (m.spawned.map Spawn.task) others tasks) :
    TurnLedger.Kept
      { config := { world := l.config.world.apply m.access, tasks }
        taken := l.taken, written := l.written } := by
  obtain ⟨hworkers, honce⟩ := TurnLedger.workers_before hk hs ht hkeeps hreplaced
  refine hl.of_workers (apply_messageStore _ _) (hl.flags.step hs)
    (apply_flag (task_byWorker hs ht)) hworkers fun j => ?_
  have hbefore := hl.once j
  exact (honce j).trans (by omega)

theorem started_not_run (c : Config) (s : Start) (v : Worker) : c.started s ≠ .run v := by
  cases s <;> rintro ⟨⟩

theorem kept_step {a : Action} (hl : l.Kept) (hkeeps : l.Keeps a) (h : l.step a = some l') :
    l'.Kept := by
  obtain ⟨config, hs, rfl⟩ := Option.map_eq_some_iff.mp h
  cases Config.step_moved hs with
  | @start s hcan =>
    refine hl.of_workers rfl hl.flags rfl (fun t ht v hv => ?_) fun j => ?_
    · rcases List.mem_append.mp ht with ht | ht
      · exact .inl ht
      · obtain rfl := List.mem_singleton.mp ht
        exact absurd hv (started_not_run _ s v)
    · have hzero : (l.config.started s).runsFor j = 0 := by
        cases s <;> rfl
      rw [weight_append, weight_cons, hzero, weight_nil]
      exact hl.once j
  | @run k choice t m others tasks hk hm hreplaced hothers =>
    by_cases hrun : ∃ v, t = .run v
    · obtain ⟨v, rfl⟩ := hrun
      cases Task.step_moved hm with
      | run hstep => exact hl.worker hk hstep (hkeeps _ hk) hreplaced
    · have ht : ∀ v, t ≠ .run v := fun v hv => hrun ⟨v, hv⟩
      have hkept := hl.other hk hm ht hkeeps hreplaced
      simpa only [workerSteps_other hk ht, Nat.add_zero] using hkept
  | restart inst =>
    refine hl.of_workers rfl (fun i j e he => ?_) rfl (fun t ht v hv => ?_) fun j => ?_
    · by_cases hi : i = inst
      · subst hi
        simp at he
      · exact hl.flags i j e (by simpa [Function.update_of_ne hi] using he)
    · obtain ⟨u, hu, rfl⟩ := List.mem_map.mp ht
      split
      · next hkilled => simp only [hkilled, and_self, if_true] at hv; cases hv
      · exact .inl hu
    · refine (weight_map_le _ fun t _ => ?_).trans (hl.once j)
      split
      · exact Nat.zero_le _
      · exact le_rfl
  | tick elapsed => exact hl.of_workers rfl hl.flags rfl (fun t ht v _ => .inl ht) hl.once
  | owner id inst => exact hl.of_workers rfl hl.flags rfl (fun t ht v _ => .inl ht) hl.once
  | heartbeat inst alive => exact hl.of_workers rfl hl.flags rfl (fun t ht v _ => .inl ht) hl.once

end Ledger

/-- Where jobs are handed over untouched and no worker loses what it captured, a job has at most one
turn, and one where a worker of it has ended with a text or a tool call. -/
theorem turn_written_once {d : Deployment} (hstore : d.messageStore = true) {l : TurnLedger}
    (h : Run TurnLedger.step TurnLedger.Keeps (.init d) l) :
    (∀ j, l.written j ≤ 1) ∧
    ∀ v, .run v ∈ l.config.tasks → v.job.mcpLoopId = none → (Task.run v).ended = true →
      v.captured = true → l.written v.uuid = 1 := by
  have hkept : l.Kept := by
    refine h.invariant ?_ fun x y a _ hx hok hs => kept_step hx hok hs
    have hnone : ∀ t, t ∉ (TurnLedger.init d).config.tasks := fun t => List.not_mem_nil
    exact
      { store := hstore
        flags := fun i j e he => by cases he
        workers := fun t ht => absurd ht (hnone t)
        once := fun j => Nat.zero_le _
        atMost := fun j => Nat.zero_le _
        running := fun t ht => absurd ht (hnone t)
        ended := fun t ht => absurd ht (hnone t)
        free := fun t ht => absurd ht (hnone t)
        taken := fun n _ hset => by cases hset }
  refine ⟨hkept.atMost, fun v hv hmcp hended hcaptured => ?_⟩
  have hone : v.turns = 1 :=
    turns_of_ended (hkept.workers _ hv v rfl) hended (by rw [hmcp]; rfl) hcaptured
  have hle := hkept.ended _ hv v rfl
  have hge := hkept.atMost v.uuid
  omega

/-- Whether the pool has no worker before a job is handed over, and a worker keeps what it captured. -/
def TurnLedger.keeps (l : TurnLedger) : Action → Bool
  | .run k _ => match l.config.tasks[k]? with
    | some (.dispatch d) => match d.pc with
      | .setOwner c _ => !(l.config.anyWorker fun _ => true) && l.taken c.uuid = 0 && l.written c.uuid = 0
      | _ => true
    | some (.run v) => match v.pc with
      | .received (.ok token) =>
        (Worker.consume v.ts token l.config.world.now v.startedAt).isSome
      | .signalFlag | .errorFlag _ => (l.config.world.jobs v.inst v.uuid).isSome
      | .final _ .readOwner => l.config.world.owner v.uuid = some v.inst
      | _ => true
    | _ => true
  | _ => true

theorem keeps_of_test (l : TurnLedger) (a : Action) (h : l.keeps a = true) : l.Keeps a := by
  cases a with
  | run k choice =>
    intro t ht
    simp only [TurnLedger.keeps, ht] at h
    cases t with
    | dispatch d =>
      intro c provider hpc
      simp only [hpc, Bool.and_eq_true, decide_eq_true_eq] at h
      obtain ⟨⟨hnone, htaken⟩, hwritten⟩ := h
      refine ⟨fun t ht v hv _ => ?_, htaken, hwritten⟩
      have hany : l.config.anyWorker (fun _ => true) = true :=
        List.any_eq_true.mpr ⟨t, ht, by rw [hv]⟩
      rw [hany] at hnone
      cases hnone
    | run v =>
      intro hdrops
      unfold Worker.Drops at hdrops
      split at hdrops
      · next token hpc =>
        simp only [hpc, hdrops.2] at h
        cases h
      · next hpc =>
        simp only [hpc, hdrops.2] at h
        cases h
      · next hpc =>
        simp only [hpc, hdrops.2] at h
        cases h
      · next hpc =>
        obtain ⟨-, id, howner, hid⟩ := hdrops
        simp only [hpc, howner, decide_eq_true_eq] at h
        exact hid (Option.some.inj h)
      · exact hdrops
    | _ => trivial
  | _ => trivial

/-- A worker streams a token and runs to its end. -/
def streamToEnd (k : ℕ) : List Action :=
  let choices : List Choice :=
    [.go, .go, .pendingFirst, .go, .go, .go, .item (some (.ok (.text "x"))), .go, .go, .go, .item none]
  (choices ++ List.replicate 17 Choice.go).map (Action.run k)

/-- A job that streams a token and ends has its turn. -/
theorem streamed_job_has_turn :
    ∃ l v, Run TurnLedger.step TurnLedger.Keeps
        (.init { twoInstances with messageStore := true }) l ∧ .run v ∈ l.config.tasks ∧
      v.uuid = 0 ∧ v.captured = true ∧ (Task.run v).ended = true ∧ l.written 0 = 1 := by
  let done : TurnLedger → Bool := fun l => l.config.anyWorker fun v =>
    v.captured && v.uuid = 0 && v.job.mcpLoopId.isNone && (Task.run v).ended
  have hexec : (exec TurnLedger.step TurnLedger.keeps
      (.init { twoInstances with messageStore := true })
      (.flatten [submitThenDispatch (plainRequest "hi") 0 2, streamToEnd 2])).any done = true := by
    decide +kernel
  obtain ⟨l, hrun, hl⟩ := Run.exists_of_exec keeps_of_test hexec
  obtain ⟨v, hv, hp⟩ := Config.mem_of_anyWorker hl
  simp only [Bool.and_eq_true, decide_eq_true_eq, Option.isNone_iff_eq_none] at hp
  obtain ⟨⟨⟨hcaptured, huuid⟩, hmcp⟩, hended⟩ := hp
  have hone := (turn_written_once rfl hrun).2 v hv hmcp hended hcaptured
  rw [huuid] at hone
  exact ⟨l, v, hrun, hv, huuid, hcaptured, hended, hone⟩

/-- The lease of a job runs out while its worker streams. The job is executed again on the other
instance, which writes the turn, and then the stream of the first worker fails. -/
theorem requeued_job_has_two_turns :
    ¬ ∀ d l, d.messageStore = true → Run TurnLedger.step (fun _ _ => True) (.init d) l →
      ∀ j, l.written j ≤ 1 := by
  intro hall
  let requeue : List Action :=
    .tick LEASE_TTL_MS :: .start (.reap 1) :: List.replicate 6 (Action.run 4 .go)
  let again : List Choice := List.replicate 6 Choice.go ++
    .scores (fun _ => false) 1 :: .provider 1 false :: List.replicate 4 Choice.go
  let fails : List Choice := .item (some (.error "gone")) :: List.replicate 5 Choice.go
  have hexec : (exec TurnLedger.step (fun _ _ => true)
      (.init { twoInstances with messageStore := true })
      (.flatten [submitThenDispatch (plainRequest "hi") 0 2, (streamToEnd 2).take 10, requeue,
        .start (.dispatch 1) :: again.map (Action.run 5), streamToEnd 6,
        fails.map (Action.run 2)])).any (fun l => l.written 0 = 2) = true := by
    decide +kernel
  obtain ⟨l, hrun, hl⟩ := @Run.exists_of_exec _ _ _ _ (fun _ _ => True) (fun _ _ _ => trivial) _ _ _ hexec
  have hle := hall _ l rfl hrun 0
  have htwo : l.written 0 = 2 := of_decide_eq_true hl
  omega

end Veronex
