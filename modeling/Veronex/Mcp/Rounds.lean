import Veronex.Mcp.Bridge

/-! # What the rounds of the tool loop keep

`runRound_outcome` says once what a round can do. The invariants of the loop follow from it: how many
tools were called (`called_before`), and what the last user message, the totals and the ids of the
jobs are (`books_runRounds`).
-/
namespace Veronex
set_option autoImplicit false
open Concurrency

/-- The exits an action leads to. -/
def LoopEnd.OnAction : LoopEnd → Prop
  | .final | .refuse | .loopDetected => True
  | .exhausted | .schemaFailed | .submitFailed | .roundFailed _ _ => False

namespace LoopState
variable (b : Bridge) (call : LoopCall) (round : ℕ) (s : LoopState)

/-! ## One round -/

/-- The state once a round is submitted. -/
def inFlight (jobId : Uuid) : LoopState :=
  { s with messages := s.roundMessages call round }.submitted jobId

/-- The request of a round under a schema. -/
def roundRequest (schema : Json) : SubmitJobRequest :=
  call.request (s.roundMessages call round) schema

/-- What a round can do. -/
inductive RoundOutcome : RoundEnd → Prop
  | schemaFailed (hschema : s.roundSchema call round = none) :
      RoundOutcome (.stop s .schemaFailed)
  | submitFailed {schema : Json} {err : DomainError}
      (hschema : s.roundSchema call round = some schema)
      (hsubmit : b.submit round (s.roundRequest call round schema) = .error err) :
      RoundOutcome (.stop { s with messages := s.roundMessages call round } .submitFailed)
  | roundFailed {schema : Json} {jobId : Uuid} {err : RoundError}
      (hschema : s.roundSchema call round = some schema)
      (hsubmit : b.submit round (s.roundRequest call round schema) = .ok jobId)
      (hcollect : b.collectRound round (s.roundRequest call round schema) = .error err) :
      RoundOutcome (.stop (s.inFlight call round jobId) (.roundFailed round err))
  | answered {schema : Json} {jobId : Uuid} {result : RoundResult}
      (hschema : s.roundSchema call round = some schema)
      (hsubmit : b.submit round (s.roundRequest call round schema) = .ok jobId)
      (hcollect : b.collectRound round (s.roundRequest call round schema) = .ok result) :
      RoundOutcome (((s.inFlight call round jobId).collected round result).acted b round jobId
        (parseForcedAction b.fromStr result.content))

theorem runRound_outcome : s.RoundOutcome b call round (s.runRound b call round) := by
  unfold runRound
  cases hschema : s.roundSchema call round with
  | none => exact .schemaFailed hschema
  | some schema =>
    dsimp only
    cases hsubmit : b.submit round (call.request (s.roundMessages call round) schema) with
    | error err => exact .submitFailed hschema hsubmit
    | ok jobId =>
      dsimp only
      cases hcollect : b.collectRound round (call.request (s.roundMessages call round) schema) with
      | error err => exact .roundFailed hschema hsubmit hcollect
      | ok result => exact .answered hschema hsubmit hcollect

/-- An action executes a tool, or leaves the loop with a content. -/
theorem acted_cases (jobId : Uuid) (action : ForcedAction) :
    (∃ name args, action = .tool name args ∧ s.acted b round jobId action =
        .next ((s.counted (name, b.quickArgsHash (b.toStr args))).executed b round jobId name args)) ∨
      ∃ counts content e, s.acted b round jobId action =
        .stop { s with callSigCounts := counts, content } e ∧ LoopEnd.OnAction e := by
  cases action with
  | final answer => exact .inr ⟨s.callSigCounts, answer, .final, rfl, trivial⟩
  | refuse reason => exact .inr ⟨s.callSigCounts, _, .refuse, rfl, trivial⟩
  | tool name args =>
    unfold acted
    dsimp only
    split
    · exact .inr ⟨_, _, .loopDetected, rfl, trivial⟩
    · exact .inl ⟨name, args, rfl, rfl⟩

end LoopState

/-! ## The last user message -/

theorem extractLastUserPrompt_user (messages : List Json) (content : String) :
    extractLastUserPrompt (messages ++ [chatMessage "user" content]) = content := by
  have hrole : hasRole "user" (chatMessage "user" content) = true := by
    simp [hasRole, chatMessage, Json.get, Json.asStr]
  rw [extractLastUserPrompt, List.reverse_append, List.reverse_singleton, List.singleton_append,
    List.find?_cons_of_pos hrole]
  rfl

theorem extractLastUserPrompt_other {m : Json} (hm : hasRole "user" m = false)
    (messages : List Json) :
    extractLastUserPrompt (messages ++ [m]) = extractLastUserPrompt messages := by
  rw [extractLastUserPrompt, List.reverse_append, List.reverse_singleton, List.singleton_append,
    List.find?_cons_of_neg (by rw [hm]; decide)]
  rfl

/-- A message in front counts only where there is no user message. -/
theorem extractLastUserPrompt_cons {m : Json} (hm : hasRole "user" m = false)
    (messages : List Json) :
    extractLastUserPrompt (m :: messages) = extractLastUserPrompt messages := by
  have hfind : [m].find? (hasRole "user") = none := by simp [hm]
  rw [extractLastUserPrompt, List.reverse_cons, List.find?_append, hfind, Option.or_none]
  rfl

/-! ## The books of a call -/

namespace LoopState

/-- The jobs of the loop, the first one first. -/
def jobIds (s : LoopState) : List Uuid := s.firstJobId.toList ++ s.intermediateJobIds

/-- What holds of the state before a round, and after the round that leaves the loop: the last user
message is the last observation, the totals are those of the finished rounds, and the jobs are
those submitted before the bound. `q` is the last user message of the call. -/
structure Books (b : Bridge) (q : String) (bound : ℕ) (s : LoopState) : Prop where
  prompt : extractLastUserPrompt s.messages = (s.observations.getLast?.map observationText).getD q
  promptTokens : s.totalPromptTokens = min (s.finished.map RoundResult.promptTokens).sum U32_MAX
  completionTokens :
    s.totalCompletionTokens = min (s.finished.map RoundResult.completionTokens).sum U32_MAX
  first : s.firstJobId = none → s.intermediateJobIds = []
  nodup : s.jobIds.Nodup
  made : ∀ id ∈ s.jobIds, ∃ i req, i < bound ∧ b.submit i req = .ok id

variable {b : Bridge} {call : LoopCall} {q : String} {round bound : ℕ} {s : LoopState}

theorem Books.mono (h : s.Books b q round) (hle : round ≤ bound) : s.Books b q bound :=
  { h with
    made := fun id hid => by
      obtain ⟨i, req, hi, hsubmit⟩ := h.made id hid
      exact ⟨i, req, by omega, hsubmit⟩ }

theorem books_start (b : Bridge) (systemPrompt : String) (messages : List Json) :
    (initialState systemPrompt messages).Books b (extractLastUserPrompt messages) 0 where
  prompt := extractLastUserPrompt_cons (by
    simp [hasRole, chatMessage, Json.get, Json.asStr, List.lookup_cons]) messages
  promptTokens := rfl
  completionTokens := rfl
  first := fun _ => rfl
  nodup := List.nodup_nil
  made := fun id hid => by cases hid

theorem Books.roundMessages (h : s.Books b q round) :
    { s with messages := s.roundMessages call round }.Books b q round := by
  have hprompt : extractLastUserPrompt (s.roundMessages call round) =
      extractLastUserPrompt s.messages := by
    unfold LoopState.roundMessages
    split
    · exact extractLastUserPrompt_other (by
        simp [hasRole, FINAL_SYNTHESIS, chatMessage, Json.get, Json.asStr, List.lookup_cons]) s.messages
    · rfl
  exact { h with prompt := hprompt.trans h.prompt }

theorem jobIds_submitted (hfirst : s.firstJobId = none → s.intermediateJobIds = []) (id : Uuid) :
    (s.submitted id).jobIds = s.jobIds ++ [id] := by
  cases hs : s.firstJobId with
  | none =>
    have hnone := hfirst hs
    simp [submitted, jobIds, hs, hnone]
  | some first => simp [submitted, jobIds, hs]

/-- A new job: its id is none of the earlier ones. -/
theorem Books.submitted (h : s.Books b q round) {id : Uuid} {req : SubmitJobRequest}
    (hsubmit : b.submit round req = .ok id) : (s.submitted id).Books b q (round + 1) := by
  have hids := jobIds_submitted h.first id
  have hnew : id ∉ s.jobIds := by
    intro hold
    obtain ⟨i, req', hi, hearlier⟩ := h.made id hold
    have hsame := b.submit_fresh i round req' req id hearlier hsubmit
    omega
  have hfields : (s.submitted id).messages = s.messages ∧
      (s.submitted id).observations = s.observations ∧ (s.submitted id).finished = s.finished ∧
      (s.submitted id).totalPromptTokens = s.totalPromptTokens ∧
      (s.submitted id).totalCompletionTokens = s.totalCompletionTokens := by
    unfold LoopState.submitted
    split
    · exact ⟨rfl, rfl, rfl, rfl, rfl⟩
    · exact ⟨rfl, rfl, rfl, rfl, rfl⟩
  obtain ⟨hmessages, hobservations, hfinished, hprompt, hcompletion⟩ := hfields
  constructor
  · rw [hmessages, hobservations]
    exact h.prompt
  · rw [hfinished, hprompt]
    exact h.promptTokens
  · rw [hfinished, hcompletion]
    exact h.completionTokens
  · intro hnone
    unfold LoopState.submitted at hnone
    split at hnone
    · cases hnone
    · next hsome => rw [hsome] at hnone; cases hnone
  · rw [hids]
    exact List.nodup_append.mpr ⟨h.nodup, List.nodup_singleton _, by
      intro x hx y hy
      rw [List.mem_singleton.mp hy]
      rintro rfl
      exact hnew hx⟩
  · intro x hx
    rw [hids] at hx
    cases List.mem_append.mp hx with
    | inl hold =>
      obtain ⟨i, req', hi, hearlier⟩ := h.made x hold
      exact ⟨i, req', by omega, hearlier⟩
    | inr hlast =>
      obtain rfl : x = id := List.mem_singleton.mp hlast
      exact ⟨round, req, by omega, hsubmit⟩

theorem Books.collected (h : s.Books b q bound) (round : ℕ) (result : RoundResult) :
    (s.collected round result).Books b q bound := by
  refine { h with promptTokens := ?_, completionTokens := ?_ }
  · have htotal := h.promptTokens
    simp only [LoopState.collected, List.map_append, List.sum_append, List.map_singleton,
      List.sum_singleton]
    omega
  · have htotal := h.completionTokens
    simp only [LoopState.collected, List.map_append, List.sum_append, List.map_singleton,
      List.sum_singleton]
    omega

theorem Books.counted (h : s.Books b q bound) (sig : String × String) :
    (s.counted sig).Books b q bound :=
  { h with }

/-- The observation is the last user message now. -/
theorem Books.executed (h : s.Books b q bound) (round : ℕ) (jobId : Uuid) (name : String)
    (args : Json) : (s.executed b round jobId name args).Books b q bound := by
  refine { h with prompt := ?_ }
  simp only [LoopState.executed, List.getLast?_append, List.getLast?_singleton, Option.some_or,
    Option.map_some, Option.getD_some]
  rw [List.append_cons, extractLastUserPrompt_user]

/-- A round keeps the books, whether it goes on or leaves the loop. -/
theorem Books.runRound (h : s.Books b q round) :
    (∀ t, s.runRound b call round = .next t → t.Books b q (round + 1)) ∧
      ∀ t e, s.runRound b call round = .stop t e → t.Books b q (round + 1) := by
  have hround := s.runRound_outcome b call round
  generalize s.runRound b call round = out at hround ⊢
  cases hround with
  | schemaFailed =>
    refine ⟨fun t ht => (nomatch ht), fun t e ht => ?_⟩
    obtain ⟨rfl, -⟩ := LoopStep.stop.inj ht
    exact h.mono (by omega)
  | submitFailed =>
    refine ⟨fun t ht => (nomatch ht), fun t e ht => ?_⟩
    obtain ⟨rfl, -⟩ := LoopStep.stop.inj ht
    exact h.roundMessages.mono (by omega)
  | roundFailed hschema hsubmit =>
    refine ⟨fun t ht => (nomatch ht), fun t e ht => ?_⟩
    obtain ⟨rfl, -⟩ := LoopStep.stop.inj ht
    exact h.roundMessages.submitted hsubmit
  | @answered schema jobId result hschema hsubmit =>
    have hanswer : ((s.inFlight call round jobId).collected round result).Books b q (round + 1) :=
      (h.roundMessages.submitted hsubmit).collected round result
    obtain ⟨name, args, -, hnext⟩ | ⟨counts, content, e, hstop, -⟩ := acted_cases b round
      ((s.inFlight call round jobId).collected round result) jobId
      (parseForcedAction b.fromStr result.content)
    · rw [hnext]
      refine ⟨fun t ht => ?_, fun t e ht => (nomatch ht)⟩
      obtain rfl := LoopStep.next.inj ht
      exact (hanswer.counted _).executed round jobId name args
    · rw [hstop]
      refine ⟨fun t ht => (nomatch ht), fun t e' ht => ?_⟩
      obtain ⟨rfl, -⟩ := LoopStep.stop.inj ht
      exact { hanswer with }

end LoopState

/-! ## Whole calls -/

section Calls
variable {b : Bridge} {call : LoopCall} {q : String} {round : ℕ} {s₀ s : LoopState}

theorem books_before (h₀ : s₀.Books b q 0) (h : before (loopBody b call) s₀ round = some s) :
    s.Books b q round :=
  before_invariant (I := fun round s => s.Books b q round) h₀
    (fun _ _ w _ hbooks hnext => hbooks.runRound.1 w hnext) h

/-- The books hold at the end of the loop, however it is left. -/
theorem books_runRounds (call : LoopCall) (h₀ : s₀.Books b q 0) :
    ∃ bound, (runRounds b call s₀).1.Books b q bound := by
  obtain ⟨t, ht, hloop⟩ | ⟨round, t, w, e, -, ht, hstop, hloop⟩ :=
    forLoop_cases (loopBody b call) call.maxRounds s₀
  · refine ⟨call.maxRounds, ?_⟩
    rw [runRounds, hloop]
    exact books_before h₀ ht
  · refine ⟨round + 1, ?_⟩
    rw [runRounds, hloop]
    exact (books_before h₀ ht).runRound.2 w e hstop

/-- How many tools were called, by both logs. -/
def LoopState.Called (n : ℕ) (s : LoopState) : Prop :=
  s.allMcpToolCalls.length = n ∧ s.observations.length = n

theorem called_inFlight {n : ℕ} (h : s.Called n) (call : LoopCall) (round : ℕ) (jobId : Uuid)
    (result : RoundResult) :
    ((s.inFlight call round jobId).collected round result).Called n := by
  unfold LoopState.inFlight LoopState.submitted
  split
  · exact h
  · exact h

/-- A round that goes on has executed a tool; one that leaves the loop has not. -/
theorem called_runRound {n : ℕ} (h : s.Called n) :
    (∀ t, s.runRound b call round = .next t → t.Called (n + 1)) ∧
      ∀ t e, s.runRound b call round = .stop t e →
        t.Called n ∧ (e.OnAction ∨ e = .schemaFailed ∨ e = .submitFailed ∨
          ∃ err, e = .roundFailed round err) := by
  have hround := s.runRound_outcome b call round
  generalize s.runRound b call round = out at hround ⊢
  cases hround with
  | schemaFailed =>
    refine ⟨fun t ht => (nomatch ht), fun t e ht => ?_⟩
    obtain ⟨rfl, rfl⟩ := LoopStep.stop.inj ht
    exact ⟨h, .inr (.inl rfl)⟩
  | submitFailed =>
    refine ⟨fun t ht => (nomatch ht), fun t e ht => ?_⟩
    obtain ⟨rfl, rfl⟩ := LoopStep.stop.inj ht
    exact ⟨h, .inr (.inr (.inl rfl))⟩
  | @roundFailed schema jobId err =>
    refine ⟨fun t ht => (nomatch ht), fun t e ht => ?_⟩
    obtain ⟨rfl, rfl⟩ := LoopStep.stop.inj ht
    have hcalled := called_inFlight h call round jobId ⟨"", 0, 0⟩
    exact ⟨hcalled, .inr (.inr (.inr ⟨err, rfl⟩))⟩
  | @answered schema jobId result =>
    have hcalled := called_inFlight h call round jobId result
    obtain ⟨name, args, -, hnext⟩ | ⟨counts, content, e, hstop, haction⟩ :=
      LoopState.acted_cases b round ((s.inFlight call round jobId).collected round result) jobId
        (parseForcedAction b.fromStr result.content)
    · rw [hnext]
      refine ⟨fun t ht => ?_, fun t e ht => (nomatch ht)⟩
      obtain rfl := LoopStep.next.inj ht
      constructor
      · simp [LoopState.executed, LoopState.counted, hcalled.1]
      · simp [LoopState.executed, LoopState.counted, hcalled.2]
    · rw [hstop]
      refine ⟨fun t ht => (nomatch ht), fun t e' ht => ?_⟩
      obtain ⟨rfl, rfl⟩ := LoopStep.stop.inj ht
      exact ⟨hcalled, .inl haction⟩

/-- Before a round, every round has called a tool. -/
theorem called_before (h₀ : s₀.Called 0) (h : before (loopBody b call) s₀ round = some s) :
    s.Called round :=
  before_invariant (I := LoopState.Called) h₀
    (fun _ _ t _ hcalled hnext => (called_runRound hcalled).1 t hnext) h

/-- A first round that goes on leaves an observation behind, whatever follows. -/
theorem observed_of_next {t : LoopState} (h₀ : s₀.Called 0) (hrounds : 0 < call.maxRounds)
    (hnext : s₀.runRound b call 0 = .next t) : (runRounds b call s₀).1.observations ≠ [] := by
  have hcount : ∀ {n : ℕ} {u : LoopState}, u.Called n → 0 < n → u.observations ≠ [] := by
    intro n u hcalled hn hnil
    have hlength := hcalled.2
    rw [hnil] at hlength
    simp at hlength
    omega
  rw [runRounds]
  obtain ⟨u, hu, hloop⟩ | ⟨round, u, w, e, -, hu, hstop, hloop⟩ :=
    forLoop_cases (loopBody b call) call.maxRounds s₀
  · rw [hloop]
    exact hcount (called_before h₀ hu) hrounds
  · rw [hloop]
    have hcalled := (called_runRound (called_before h₀ hu)).2 w e hstop
    have hround : 0 < round := by
      rcases Nat.eq_zero_or_pos round with rfl | hpos
      · obtain rfl : s₀ = u := by simpa [before] using hu
        rw [loopBody, hnext] at hstop
        cases hstop
      · exact hpos
    exact hcount hcalled.1 hround

/-- A first round that leaves the loop leaves no observation behind. -/
theorem unobserved_of_stop {t : LoopState} {e : LoopEnd} (h₀ : s₀.Called 0)
    (hrounds : 0 < call.maxRounds) (hstop : s₀.runRound b call 0 = .stop t e) :
    (runRounds b call s₀).1.observations = [] := by
  have hfirst : before (loopBody b call) s₀ 0 = some s₀ := rfl
  have hloop := forLoop_of_stop hfirst hrounds hstop
  rw [runRounds, hloop]
  exact List.eq_nil_of_length_eq_zero ((called_runRound h₀).2 t e hstop).1.2

end Calls

end Veronex
