import Veronex.Mcp.Rounds

/-! # What a call of the tool loop leaves behind

* `turn_prompt_iff`: the turn has the prompt of the call exactly when no tool was executed, or the
  last observation happens to be that prompt.
* `ends_on_action_iff`: under a model that keeps to the schemas, a call that stops ends on an action
  exactly when it had more than one round.
* `rolled_up_iff`: the jobs of a call are rolled up exactly when no submit and no round failed.
-/
namespace Veronex
set_option autoImplicit false
open Concurrency

section Calls
variable {b : Bridge} {call : LoopCall} {messages : List Json} {c : AfterLoop} {w : World}
  {run : LoopRun}

/-- The call reaches a round, in this state. -/
def Reaches (b : Bridge) (call : LoopCall) (messages : List Json) (round : ℕ) (s : LoopState) :
    Prop :=
  ∃ prompt, buildForcedJsonSystemPrompt call.allTools = some prompt ∧ round < call.maxRounds ∧
    before (loopBody b call) (initialState prompt messages) round = some s

theorem called_initial (prompt : String) (messages : List Json) :
    (initialState prompt messages).Called 0 :=
  ⟨rfl, rfl⟩

theorem runLoop_eq (h : runLoopForcedJson b call messages c w = some run) :
    ∃ prompt, buildForcedJsonSystemPrompt call.allTools = some prompt ∧
      run = (runRounds b call (initialState prompt messages)).1.returned b call c w
        (runRounds b call (initialState prompt messages)).2 := by
  obtain ⟨prompt, hprompt, hrun⟩ := Option.map_eq_some_iff.mp h
  exact ⟨prompt, hprompt, hrun.symm⟩

/-- The exits after which the loop is cleaned up. -/
theorem returned_cases (b : Bridge) (call : LoopCall) (c : AfterLoop) (w : World) (s : LoopState)
    (e : LoopEnd) :
    ((e.OnAction ∨ e = .exhausted) ∧ s.returned b call c w e =
        { state := s, ended := e
          result := some
            { content := s.content, toolCalls := [], promptTokens := s.totalPromptTokens
              completionTokens := s.totalCompletionTokens, finishReason := "stop"
              rounds := s.rounds, streamedViaTap := false }
          written := s.writtenTurn call c w, world := s.cleanUp call c w }) ∨
      (¬ (e.OnAction ∨ e = .exhausted) ∧ (s.returned b call c w e).state = s ∧
        (s.returned b call c w e).ended = e ∧ (s.returned b call c w e).written = none ∧
        (s.returned b call c w e).world = w ∧
        ∀ result, (s.returned b call c w e).result = some result → result.finishReason = "error") := by
  cases e with
  | final => exact .inl ⟨.inl trivial, rfl⟩
  | refuse => exact .inl ⟨.inl trivial, rfl⟩
  | loopDetected => exact .inl ⟨.inl trivial, rfl⟩
  | exhausted => exact .inl ⟨.inr rfl, rfl⟩
  | schemaFailed =>
    exact .inr ⟨by simp [LoopEnd.OnAction], rfl, rfl, rfl, rfl, fun result h => by cases h⟩
  | submitFailed =>
    exact .inr ⟨by simp [LoopEnd.OnAction], rfl, rfl, rfl, rfl, fun result h => by cases h⟩
  | roundFailed round err =>
    refine .inr ⟨by simp [LoopEnd.OnAction], rfl, rfl, rfl, rfl, fun result h => ?_⟩
    obtain rfl := Option.some.inj h
    rfl

/-! ## A sample call -/

/-- A tool without parameters. -/
def sampleTool : Json := .obj [("function", .obj [("name", .str "f")])]

def toolText : String := "\x7b\"action\":\"tool\",\"args\":\x7b\x7d,\"tool\":\"f\"\x7d"

def toolAnswer : Json := .obj [("action", .str "tool"), ("args", .obj []), ("tool", .str "f")]

def finalText : String := "\x7b\"action\":\"final\",\"answer\":\"42\"\x7d"

def finalAnswer : Json := .obj [("action", .str "final"), ("answer", .str "42")]

/-- Every round is submitted, and answered by `collect`. -/
def sampleBridge (collect : ℕ → Except RoundError RoundResult) : Bridge where
  fromStr text :=
    if text = toolText then some toolAnswer
    else if text = finalText then some finalAnswer
    else none
  toStr
    | .obj [] => "\x7b\x7d"
    | _ => toolText
  quickArgsHash _ := "44136fa3"
  debugStr s := "\"" ++ s ++ "\""
  submit round _ := .ok round
  submit_fresh _ _ _ _ _ hi hj := (Except.ok.inj hi).trans (Except.ok.inj hj).symm
  collectRound round _ := collect round
  executeOne round _ _ := ("42", ⟨round, "f", "success", false, 3, 2⟩)

/-- A tool call, then an answer. -/
def toolThenFinal (round : ℕ) : Except RoundError RoundResult :=
  .ok (if round = 0 then ⟨toolText, 10, 5⟩ else ⟨finalText, 20, 7⟩)

def sampleCall (maxRounds : ℕ) : LoopCall :=
  { caller := .apiKey 1 .paid, model := "m", allTools := [sampleTool], conversationId := some 9
    stop := none, seed := none, frequencyPenalty := none, presencePenalty := none, maxRounds
    mcpLoopId := 7 }

def sampleMessages : List Json := [chatMessage "user" "What is it?"]

/-- Every call after the loop succeeds. -/
def sampleCleanup : AfterLoop := { now := 0, succeeds := fun _ => true }

/-- A deployment with a message store, before anything happened. -/
def sampleWorld : World := World.init ⟨[0], fun _ => none, fun _ => false, true⟩

/-! ## The prompt of the turn -/

/-- The answer to the first round calls a tool. -/
def FirstAnswerIsTool (b : Bridge) (call : LoopCall) (messages : List Json) : Prop :=
  ∃ s schema result name args, Reaches b call messages 0 s ∧
    s.roundSchema call 0 = some schema ∧
    b.collectRound 0 (s.roundRequest call 0 schema) = .ok result ∧
    parseForcedAction b.fromStr result.content = .tool name args

/-- No tool is called often enough in the first round to be taken for a loop. -/
theorem first_acted (s : LoopState) (hcounts : s.callSigCounts = fun _ => 0) (jobId : Uuid)
    (name : String) (args : Json) : ∃ t, s.acted b 0 jobId (.tool name args) = .next t := by
  refine ⟨_, if_neg ?_⟩
  simp [LoopState.counted, hcounts, LOOP_DETECT_THRESHOLD]

/-- Where the loop is not left by a failure, every round it reaches is answered. -/
theorem answered_of_end {s₀ s : LoopState} {round : ℕ}
    (hend : (runRounds b call s₀).2.OnAction ∨ (runRounds b call s₀).2 = .exhausted)
    (hs : before (loopBody b call) s₀ round = some s) (hround : round < call.maxRounds) :
    ∃ schema jobId result, s.roundSchema call round = some schema ∧
      b.submit round (s.roundRequest call round schema) = .ok jobId ∧
      b.collectRound round (s.roundRequest call round schema) = .ok result ∧
      s.runRound b call round = ((s.inFlight call round jobId).collected round result).acted b round
        jobId (parseForcedAction b.fromStr result.content) := by
  have hleft : ∀ t e, s.runRound b call round = .stop t e → e.OnAction ∨ e = .exhausted := by
    intro t e hstop
    rw [runRounds, forLoop_of_stop hs hround hstop] at hend
    exact hend
  have hout := s.runRound_outcome b call round
  generalize s.runRound b call round = out at hout hleft ⊢
  cases hout with
  | schemaFailed => simpa [LoopEnd.OnAction] using hleft _ _ rfl
  | submitFailed => simpa [LoopEnd.OnAction] using hleft _ _ rfl
  | roundFailed => simpa [LoopEnd.OnAction] using hleft _ _ rfl
  | @answered schema jobId result hschema hsubmit hcollect =>
    exact ⟨schema, jobId, result, hschema, hsubmit, hcollect, rfl⟩

/-- Where the loop is not left by a failure, the first round goes on exactly when its answer calls a
tool. -/
theorem firstAnswerIsTool_iff {prompt : String}
    (hprompt : buildForcedJsonSystemPrompt call.allTools = some prompt)
    (hrounds : 0 < call.maxRounds)
    (hend : (runRounds b call (initialState prompt messages)).2.OnAction ∨
      (runRounds b call (initialState prompt messages)).2 = .exhausted) :
    FirstAnswerIsTool b call messages ↔
      ∃ t, (initialState prompt messages).runRound b call 0 = .next t := by
  have hstart : before (loopBody b call) (initialState prompt messages) 0 =
      some (initialState prompt messages) := rfl
  obtain ⟨schema, jobId, result, hschema, -, hcollect, hround⟩ :=
    answered_of_end hend hstart hrounds
  rw [hround]
  have hcounts : (((initialState prompt messages).inFlight call 0 jobId).collected 0
      result).callSigCounts = fun _ => 0 := by
    unfold LoopState.inFlight LoopState.submitted
    split <;> rfl
  constructor
  · rintro ⟨s, schema', result', name, args, ⟨prompt', hprompt', -, hs⟩, hschema', hcollect',
      haction⟩
    obtain rfl : prompt = prompt' := Option.some.inj (hprompt.symm.trans hprompt')
    obtain rfl : initialState prompt messages = s := by simpa [before] using hs
    obtain rfl : schema = schema' := Option.some.inj (hschema.symm.trans hschema')
    obtain rfl : result = result' := Except.ok.inj (hcollect.symm.trans hcollect')
    rw [haction]
    exact first_acted _ hcounts jobId name args
  · rintro ⟨t, hnext⟩
    obtain ⟨name, args, haction, -⟩ | ⟨counts, content, e, hstop, -⟩ := LoopState.acted_cases b 0
      (((initialState prompt messages).inFlight call 0 jobId).collected 0 result) jobId
      (parseForcedAction b.fromStr result.content)
    · exact ⟨_, schema, result, name, args, ⟨prompt, hprompt, hrounds, hstart⟩, hschema, hcollect,
        haction⟩
    · rw [hstop] at hnext
      cases hnext

/-- A call that submits has a round. -/
theorem maxRounds_pos {s₀ : LoopState} {fid : Uuid} (h₀ : s₀.firstJobId = none)
    (h : (runRounds b call s₀).1.firstJobId = some fid) : 0 < call.maxRounds := by
  rcases Nat.eq_zero_or_pos call.maxRounds with hzero | hpos
  · rw [runRounds, hzero, forLoop, h₀] at h
    cases h
  · exact hpos

theorem writtenTurn_eq {s : LoopState} {key : S3Key} {turn : TurnRecord}
    (h : s.writtenTurn call c w = some (key, turn)) :
    ∃ fid, s.firstJobId = some fid ∧ turn = s.turn call c fid := by
  unfold LoopState.writtenTurn at h
  split at h
  · obtain ⟨fid, hfid, hpair⟩ := Option.map_eq_some_iff.mp h
    exact ⟨fid, hfid, (Prod.mk.inj hpair).2.symm⟩
  · cases h

/-- The turn of a call has the prompt of the call exactly when no tool is executed, or the last tool
result reads like that prompt. -/
theorem turn_prompt_iff (hrun : runLoopForcedJson b call messages c w = some run)
    {key : S3Key} {turn : TurnRecord} (hwritten : run.written = some (key, turn)) :
    turn.prompt = extractLastUserPrompt messages ↔
      ¬ FirstAnswerIsTool b call messages ∨
        ∃ text, run.state.observations.getLast? = some text ∧
          observationText text = extractLastUserPrompt messages := by
  obtain ⟨prompt, hprompt, rfl⟩ := runLoop_eq hrun
  obtain ⟨hend, hreturn⟩ | ⟨-, -, -, hnone, -⟩ := returned_cases b call c w
    (runRounds b call (initialState prompt messages)).1 (runRounds b call (initialState prompt messages)).2
  · rw [hreturn] at hwritten ⊢
    obtain ⟨fid, hfid, hturn⟩ := writtenTurn_eq hwritten
    obtain ⟨bound, hbooks⟩ := books_runRounds call (LoopState.books_start b prompt messages)
    have hrounds := maxRounds_pos rfl hfid
    have hiff := firstAnswerIsTool_iff hprompt hrounds hend
    have hprompts : turn.prompt = extractLastUserPrompt
        (runRounds b call (initialState prompt messages)).1.messages := by rw [hturn]; rfl
    rw [hprompts, hbooks.prompt]
    cases hlast : (runRounds b call (initialState prompt messages)).1.observations.getLast? with
    | none =>
      have hnil := List.getLast?_eq_none_iff.mp hlast
      refine iff_of_true rfl (.inl fun htool => ?_)
      obtain ⟨t, hnext⟩ := hiff.mp htool
      exact observed_of_next (called_initial prompt messages) hrounds hnext hnil
    | some text =>
      have hcons : (runRounds b call (initialState prompt messages)).1.observations ≠ [] := by
        intro hnil
        rw [hnil] at hlast
        cases hlast
      constructor
      · intro hsame
        exact .inr ⟨text, rfl, hsame⟩
      · rintro (hnot | ⟨text', htext, hsame⟩)
        · exfalso
          cases hout : (initialState prompt messages).runRound b call 0 with
          | next t => exact hnot (hiff.mpr ⟨t, hout⟩)
          | stop t e =>
            exact hcons (unobserved_of_stop (called_initial prompt messages) hrounds hout)
        · obtain rfl := Option.some.inj htext
          exact hsame
  · rw [hnone] at hwritten
    cases hwritten

/-- An answer at once, in plain text. -/
theorem plain_answer_keeps_prompt :
    ∃ run key turn, runLoopForcedJson (sampleBridge fun _ => .ok ⟨"It is 42.", 10, 5⟩)
        (sampleCall 5) sampleMessages sampleCleanup sampleWorld = some run ∧
      run.written = some (key, turn) ∧ turn.prompt = "What is it?" := by
  have hnotTool : ¬ FirstAnswerIsTool (sampleBridge fun _ => .ok ⟨"It is 42.", 10, 5⟩)
      (sampleCall 5) sampleMessages := by
    rintro ⟨s, schema, result, name, args, -, -, hcollect, haction⟩
    obtain rfl := Except.ok.inj hcollect
    have hfinal : ∀ v, parseForcedAction (sampleBridge fun _ => .ok v).fromStr "It is 42." =
        .final "It is 42." := fun v => rfl
    rw [hfinal] at haction
    cases haction
  refine ⟨_, _, _, rfl, rfl, ?_⟩
  exact (turn_prompt_iff (c := sampleCleanup) (w := sampleWorld) rfl rfl).mpr (.inl hnotTool)

/-- After a tool the turn has the observation as its prompt. -/
theorem tool_result_replaces_prompt :
    ∃ b call messages c w run key turn, runLoopForcedJson b call messages c w = some run ∧
      run.written = some (key, turn) ∧ turn.prompt ≠ extractLastUserPrompt messages := by
  refine ⟨sampleBridge toolThenFinal, sampleCall 2, sampleMessages, sampleCleanup, sampleWorld,
    _, _, _, rfl, rfl, ?_⟩
  decide +kernel

/-! ## The last round -/

/-- Every answer of the call conforms to the schema of its round. -/
def ConformingRun (b : Bridge) (call : LoopCall) (messages : List Json) : Prop :=
  ∀ round s schema result, Reaches b call messages round s →
    s.roundSchema call round = some schema →
    b.collectRound round (s.roundRequest call round schema) = .ok result →
    ∃ v, b.fromStr (String.ofList (trim result.content.toList)) = some v ∧ Conforms schema v

theorem maxRounds_eq_one_iff {caller : InferCaller} {cap : Option ℕ} {n : ℕ}
    (h : maxRounds caller cap = some n) :
    n = 1 ↔ caller.apiKeyId.isSome = true ∧ cap = some 1 := by
  unfold maxRounds at h
  cases hkey : caller.apiKeyId with
  | none =>
    rw [hkey] at h
    obtain rfl := Option.some.inj h
    simp [MAX_ROUNDS]
  | some key =>
    rw [hkey] at h
    dsimp only at h
    split at h
    · cases h
    · obtain rfl := Option.some.inj h
      cases cap with
      | none => simp [MAX_ROUNDS]
      | some cap =>
        simp only [Option.map_some, Option.getD_some, Option.isSome_some, true_and, Option.some.injEq,
          MAX_ROUNDS]
        omega

theorem maxRounds_ne_zero {caller : InferCaller} {cap : Option ℕ} {n : ℕ}
    (h : maxRounds caller cap = some n) : 0 < n := by
  unfold maxRounds at h
  cases hkey : caller.apiKeyId with
  | none =>
    rw [hkey] at h
    obtain rfl := Option.some.inj h
    decide
  | some key =>
    rw [hkey] at h
    dsimp only at h
    split at h
    · cases h
    · next hcap =>
      obtain rfl := Option.some.inj h
      cases cap with
      | none => decide
      | some cap =>
        have hpos : cap ≠ 0 := fun hzero => hcap (by rw [hzero])
        simp only [Option.map_some, Option.getD_some, MAX_ROUNDS]
        omega

/-- The last round of several does not go on: its schema has no tools. -/
theorem last_round_stops (hconf : ConformingRun b call messages) {s : LoopState} {round : ℕ}
    (hreach : Reaches b call messages round s) (hlast : round + 1 = call.maxRounds)
    (hround : 0 < round) : ∀ t, s.runRound b call round ≠ .next t := by
  obtain ⟨prompt, -, -, hs⟩ := id hreach
  have hcalled := called_before (called_initial prompt messages) hs
  have hisLast : s.isLastRound call round = true := by
    have hne : s.allMcpToolCalls ≠ [] := by
      intro hnil
      have hlength := hcalled.1
      rw [hnil] at hlength
      simp at hlength
      omega
    simp [LoopState.isLastRound, hlast, hne]
  have hterminal : s.roundSchema call round = some buildTerminalSchema := if_pos hisLast
  intro t hnext
  have hout := s.runRound_outcome b call round
  rw [hnext] at hout
  generalize hstep : LoopStep.next t = out at hout
  cases hout with
  | schemaFailed => cases hstep
  | submitFailed => cases hstep
  | roundFailed => cases hstep
  | @answered schema jobId result hschema hsubmit hcollect =>
    obtain rfl : buildTerminalSchema = schema := Option.some.inj (hterminal.symm.trans hschema)
    obtain ⟨v, hv, hconforms⟩ := hconf round s _ result hreach hschema hcollect
    obtain ⟨answer, hfinal⟩ | ⟨reason, hrefuse⟩ := parse_terminal hv hconforms
    · rw [hfinal] at hstep
      cases hstep
    · rw [hrefuse] at hstep
      cases hstep

/-- The answer to the first round conforms to a schema of nothing but tools. -/
theorem first_answer_tool (hconf : ConformingRun b call messages) {prompt : String}
    (hprompt : buildForcedJsonSystemPrompt call.allTools = some prompt)
    (hrounds : 0 < call.maxRounds)
    (hend : (runRounds b call (initialState prompt messages)).2.OnAction ∨
      (runRounds b call (initialState prompt messages)).2 = .exhausted) :
    FirstAnswerIsTool b call messages := by
  have hstart : before (loopBody b call) (initialState prompt messages) 0 =
      some (initialState prompt messages) := rfl
  have hreach : Reaches b call messages 0 (initialState prompt messages) :=
    ⟨prompt, hprompt, hrounds, hstart⟩
  have hnotLast : (initialState prompt messages).isLastRound call 0 = false := by
    simp [LoopState.isLastRound, initialState, LoopState.start]
  obtain ⟨schema, hbuild⟩ := schema_of_systemPrompt hprompt false
  have hschema : (initialState prompt messages).roundSchema call 0 = some schema := by
    rw [LoopState.roundSchema, hnotLast]
    exact hbuild
  obtain ⟨schema', jobId, result, hschema', -, hcollect, -⟩ := answered_of_end hend hstart hrounds
  obtain rfl : schema = schema' := Option.some.inj (hschema.symm.trans hschema')
  obtain ⟨v, hv, hconforms⟩ := hconf 0 _ schema result hreach hschema hcollect
  obtain ⟨name, args, haction⟩ := parse_toolOnly hbuild hv hconforms
  exact ⟨_, schema, result, name, args, hreach, hschema, hcollect, haction⟩

/-- With one round the loop runs out of rounds, with more of them it does not. -/
theorem exhausted_iff (hconf : ConformingRun b call messages) {prompt : String}
    (hprompt : buildForcedJsonSystemPrompt call.allTools = some prompt)
    (hrounds : 0 < call.maxRounds)
    (hend : (runRounds b call (initialState prompt messages)).2.OnAction ∨
      (runRounds b call (initialState prompt messages)).2 = .exhausted) :
    (runRounds b call (initialState prompt messages)).2 = .exhausted ↔ call.maxRounds = 1 := by
  constructor
  · intro hexhausted
    by_contra hmany
    obtain ⟨t, ht, -⟩ | ⟨round, u, t, e, -, hu, hstop, hloop⟩ :=
      forLoop_cases (loopBody b call) call.maxRounds (initialState prompt messages)
    · obtain ⟨round, hround⟩ : ∃ round, call.maxRounds = round + 1 :=
        ⟨call.maxRounds - 1, by omega⟩
      rw [hround] at ht
      obtain ⟨u, hu, hnext⟩ := before_succ_iff.mp ht
      exact last_round_stops hconf ⟨prompt, hprompt, by omega, hu⟩ hround.symm (by omega) t hnext
    · rw [runRounds, hloop] at hexhausted
      obtain rfl : e = .exhausted := hexhausted
      have hcases := ((called_runRound (called_before (called_initial prompt messages) hu)).2 t _
        hstop).2
      simp [LoopEnd.OnAction] at hcases
  · intro hone
    have htool := first_answer_tool hconf hprompt hrounds hend
    obtain ⟨t, hnext⟩ := (firstAnswerIsTool_iff hprompt hrounds hend).mp htool
    rw [runRounds, hone, forLoop, loopBody, hnext]
    rfl

/-- A call that stops under a model that keeps to the schemas ends on an action exactly when the key
does not bound it to one round. -/
theorem ends_on_action_iff {cap : Option ℕ} (hcap : maxRounds call.caller cap = some call.maxRounds)
    (hconf : ConformingRun b call messages)
    (hrun : runLoopForcedJson b call messages c w = some run) {result : McpLoopResult}
    (hresult : run.result = some result) (hstop : result.finishReason = "stop") :
    run.ended.OnAction ↔ ¬ (call.caller.apiKeyId.isSome = true ∧ cap = some 1) := by
  obtain ⟨prompt, hprompt, rfl⟩ := runLoop_eq hrun
  obtain ⟨hend, hreturn⟩ | ⟨-, -, -, -, -, herror⟩ := returned_cases b call c w
    (runRounds b call (initialState prompt messages)).1 (runRounds b call (initialState prompt messages)).2
  · have hexhausted := exhausted_iff hconf hprompt (maxRounds_ne_zero hcap) hend
    rw [hreturn, ← maxRounds_eq_one_iff hcap, ← hexhausted]
    dsimp only
    constructor
    · intro haction hout
      rw [hout] at haction
      exact haction
    · exact hend.resolve_right
  · rw [herror result hresult] at hstop
    simp at hstop

theorem conforms_toolAnswer {schema : Json}
    (hschema : buildForcedJsonSchema [sampleTool] false = some schema) :
    Conforms schema toolAnswer := by
  obtain rfl := Option.some.inj hschema
  refine conforms_oneOf (List.mem_singleton_self _) (conforms_closedObject ?_ ?_)
  · intro p hp
    simp only [List.mem_cons, List.not_mem_nil, or_false] at hp
    rcases hp with rfl | rfl | rfl
    · exact ⟨_, rfl, conforms_constStr "tool"⟩
    · exact ⟨_, rfl, conforms_constStr "f"⟩
    · exact ⟨_, rfl, conforms_type (.obj [])⟩
  · intro field hfield
    simp only [List.mem_cons, List.not_mem_nil, or_false] at hfield
    rcases hfield with rfl | rfl | rfl <;> simp

theorem conforms_finalAnswer : Conforms buildTerminalSchema finalAnswer := by
  refine conforms_oneOf (List.mem_cons_self ..) (conforms_closedObject ?_ ?_)
  · intro p hp
    simp only [List.mem_cons, List.not_mem_nil, or_false] at hp
    rcases hp with rfl | rfl
    · exact ⟨_, rfl, conforms_constStr "final"⟩
    · exact ⟨_, rfl, conforms_type (.str "42")⟩
  · intro field hfield
    simp only [List.mem_cons, List.not_mem_nil, or_false] at hfield
    rcases hfield with rfl | rfl <;> simp

theorem fromStr_toolText (collect : ℕ → Except RoundError RoundResult) :
    (sampleBridge collect).fromStr (String.ofList (trim toolText.toList)) = some toolAnswer := by
  have htrim : String.ofList (trim toolText.toList) = toolText := by decide +kernel
  rw [htrim, sampleBridge]
  dsimp only
  rw [if_pos rfl]

theorem fromStr_finalText (collect : ℕ → Except RoundError RoundResult) :
    (sampleBridge collect).fromStr (String.ofList (trim finalText.toList)) = some finalAnswer := by
  have htrim : String.ofList (trim finalText.toList) = finalText := by decide +kernel
  have hother : finalText ≠ toolText := by decide +kernel
  rw [htrim, sampleBridge]
  dsimp only
  rw [if_neg hother, if_pos rfl]

/-- A bridge that answers as the sample does keeps to the schemas of one round or two. -/
theorem conforming_toolThenFinal {b : Bridge} {maxRounds : ℕ} (hrounds : maxRounds ≤ 2)
    (hfromStr : b.fromStr = (sampleBridge toolThenFinal).fromStr)
    (hcollectRound : ∀ round req, b.collectRound round req = toolThenFinal round) :
    ConformingRun b (sampleCall maxRounds) sampleMessages := by
  rintro round s schema result ⟨prompt, -, hround, hs⟩ hschema hcollect
  rw [hcollectRound] at hcollect
  rw [hfromStr]
  have hcalled := (called_before (called_initial prompt sampleMessages) hs).1
  change round < maxRounds at hround
  have hcases : round = 0 ∨ round = 1 ∧ maxRounds = 2 := by omega
  obtain rfl | ⟨rfl, rfl⟩ := hcases
  · have hnil : s.allMcpToolCalls = [] := List.eq_nil_of_length_eq_zero hcalled
    have hnotLast : s.isLastRound (sampleCall maxRounds) 0 = false := by
      simp [LoopState.isLastRound, hnil]
    rw [LoopState.roundSchema, hnotLast, hnil] at hschema
    obtain rfl := Except.ok.inj hcollect
    exact ⟨toolAnswer, fromStr_toolText toolThenFinal, conforms_toolAnswer hschema⟩
  · have hne : s.allMcpToolCalls ≠ [] := by
      intro hnil
      rw [hnil] at hcalled
      cases hcalled
    have hlast : s.isLastRound (sampleCall 2) 1 = true := by
      simp [LoopState.isLastRound, hne, sampleCall]
    rw [LoopState.roundSchema, hlast] at hschema
    obtain rfl := Option.some.inj hschema
    obtain rfl := Except.ok.inj hcollect
    exact ⟨finalAnswer, fromStr_finalText toolThenFinal, conforms_finalAnswer⟩

theorem conforming_sample {maxRounds : ℕ} (hrounds : maxRounds ≤ 2) :
    ConformingRun (sampleBridge toolThenFinal) (sampleCall maxRounds) sampleMessages :=
  conforming_toolThenFinal hrounds rfl fun _ _ => rfl

/-- Two rounds: a tool, and the answer. -/
theorem two_rounds_end_on_action :
    ∃ run result, runLoopForcedJson (sampleBridge toolThenFinal) (sampleCall 2) sampleMessages
        sampleCleanup sampleWorld = some run ∧
      run.result = some result ∧ result.finishReason = "stop" ∧ run.ended.OnAction := by
  refine ⟨_, _, rfl, rfl, rfl, ?_⟩
  exact (ends_on_action_iff (c := sampleCleanup) (w := sampleWorld) rfl
    (conforming_sample (by decide)) rfl rfl rfl).mpr
      (show ¬ (_ ∧ some 2 = some 1) by simp)

/-- One round: the tool is executed, and the content stays empty. -/
theorem one_round_ends_empty :
    ∃ b call messages c w run result cap, maxRounds call.caller cap = some call.maxRounds ∧
      ConformingRun b call messages ∧ runLoopForcedJson b call messages c w = some run ∧
      run.result = some result ∧ result.finishReason = "stop" ∧ result.content = "" ∧
      ¬ run.ended.OnAction :=
  ⟨sampleBridge toolThenFinal, sampleCall 1, sampleMessages, sampleCleanup, sampleWorld, _, _,
    some 1, rfl, conforming_sample (by decide), rfl, rfl, rfl, rfl, id⟩

/-! ## The roll-up -/

/-- In every round the call reaches, `submit` and `collect_round` succeed. -/
def Answered (b : Bridge) (call : LoopCall) (messages : List Json) : Prop :=
  ∀ round s schema, Reaches b call messages round s → s.roundSchema call round = some schema →
    (∃ jobId, b.submit round (s.roundRequest call round schema) = .ok jobId) ∧
      ∃ result, b.collectRound round (s.roundRequest call round schema) = .ok result

/-- The rows of the intermediate jobs are gone, the row of the first job has the totals of the
finished rounds, and the conversation has one more turn. `w` is the state at the end of the loop. -/
structure RolledUp (call : LoopCall) (w : World) (run : LoopRun) : Prop where
  deleted : ∀ id ∈ run.state.intermediateJobIds, run.world.rows id = none
  totals : ∀ fid row, run.state.firstJobId = some fid → w.rows fid = some row →
    run.world.rows fid = some
      { row with
        promptTokens := some (min (run.state.finished.map RoundResult.promptTokens).sum I32_MAX)
        completionTokens :=
          some (min (run.state.finished.map RoundResult.completionTokens).sum I32_MAX) }
  counted : ∀ conversation, call.conversationId = some conversation →
    (run.world.conversationCounters conversation).turnCount =
      (w.conversationCounters conversation).turnCount + 1

/-- A round always has a schema. -/
theorem roundSchema_of_prompt {prompt : String}
    (hprompt : buildForcedJsonSystemPrompt call.allTools = some prompt) (s : LoopState)
    (round : ℕ) : ∃ schema, s.roundSchema call round = some schema := by
  unfold LoopState.roundSchema
  split
  · exact ⟨_, rfl⟩
  · exact schema_of_systemPrompt hprompt _

/-- The loop is left by a failure exactly when a call it makes fails. -/
theorem answered_iff {prompt : String}
    (hprompt : buildForcedJsonSystemPrompt call.allTools = some prompt) :
    Answered b call messages ↔ (runRounds b call (initialState prompt messages)).2.OnAction ∨
      (runRounds b call (initialState prompt messages)).2 = .exhausted := by
  constructor
  · intro hanswered
    obtain ⟨t, -, hloop⟩ | ⟨round, u, t, e, hround, hu, hstop, hloop⟩ :=
      forLoop_cases (loopBody b call) call.maxRounds (initialState prompt messages)
    · right
      rw [runRounds, hloop]
      rfl
    · left
      rw [runRounds, hloop]
      have hreach : Reaches b call messages round u := ⟨prompt, hprompt, hround, hu⟩
      have hout := u.runRound_outcome b call round
      change u.runRound b call round = .stop t e at hstop
      rw [hstop] at hout
      generalize hstep : LoopStep.stop t e = out at hout
      cases hout with
      | schemaFailed hnone =>
        obtain ⟨schema, hschema⟩ := roundSchema_of_prompt hprompt u round
        rw [hschema] at hnone
        cases hnone
      | submitFailed hschema hsubmit =>
        obtain ⟨⟨jobId, hok⟩, -⟩ := hanswered round u _ hreach hschema
        rw [hok] at hsubmit
        cases hsubmit
      | roundFailed hschema hsubmit hcollect =>
        obtain ⟨-, result, hok⟩ := hanswered round u _ hreach hschema
        rw [hok] at hcollect
        cases hcollect
      | @answered schema jobId result hschema hsubmit hcollect =>
        obtain ⟨name, args, -, hnext⟩ | ⟨counts, content, e', hleave, haction⟩ :=
          LoopState.acted_cases b round ((u.inFlight call round jobId).collected round result) jobId
            (parseForcedAction b.fromStr result.content)
        · rw [hnext] at hstep
          cases hstep
        · rw [hleave] at hstep
          obtain ⟨-, rfl⟩ := LoopStep.stop.inj hstep
          exact haction
  · rintro hend round s schema ⟨prompt', hprompt', hround, hs⟩ hschema
    obtain rfl : prompt = prompt' := Option.some.inj (hprompt.symm.trans hprompt')
    obtain ⟨schema', jobId, result, hschema', hsubmit, hcollect, -⟩ := answered_of_end hend hs hround
    obtain rfl : schema = schema' := Option.some.inj (hschema.symm.trans hschema')
    exact ⟨⟨jobId, hsubmit⟩, result, hcollect⟩

section CleanUp
variable {s : LoopState} {fid : Uuid}

theorem writeTurn_tables (s : LoopState) (w : World) :
    (s.writeTurn call c w).rows = w.rows ∧
      (s.writeTurn call c w).conversationCounters = w.conversationCounters := by
  unfold LoopState.writeTurn
  split <;> exact ⟨rfl, rfl⟩

theorem countTurn_rows (s : LoopState) (w : World) : (s.countTurn call c w).rows = w.rows := by
  unfold LoopState.countTurn
  split
  · split <;> rfl
  · rfl

theorem cleanUp_rows (hc : ∀ x, c.succeeds x = true) (hfid : s.firstJobId = some fid) (id : Uuid) :
    (s.cleanUp call c w).rows id =
      if id ∈ s.intermediateJobIds then none
      else (w.updateRow fid fun row =>
        { row with
          promptTokens := some (min s.totalPromptTokens I32_MAX)
          completionTokens := some (min s.totalCompletionTokens I32_MAX) }).rows id := by
  rw [LoopState.cleanUp, hfid]
  dsimp only
  rw [countTurn_rows, (writeTurn_tables s _).1, LoopState.deleteIntermediate, LoopState.rollUp,
    if_pos (hc _), hc, Bool.and_true]
  cases hids : s.intermediateJobIds with
  | nil => simp
  | cons first rest => simp

theorem cleanUp_turnCount (hc : ∀ x, c.succeeds x = true) (hfid : s.firstJobId = some fid)
    {conversation : Uuid} (hconversation : call.conversationId = some conversation) :
    ((s.cleanUp call c w).conversationCounters conversation).turnCount =
      (w.conversationCounters conversation).turnCount + 1 := by
  have hkept : (s.deleteIntermediate c (s.rollUp c fid w)).conversationCounters =
      w.conversationCounters := by
    unfold LoopState.deleteIntermediate LoopState.rollUp
    split <;> split <;> rfl
  rw [LoopState.cleanUp, hfid]
  dsimp only
  rw [LoopState.countTurn, hconversation]
  dsimp only
  rw [if_pos (hc _)]
  simp [World.apply, (writeTurn_tables s _).2, hkept]

end CleanUp

/-- A row without token counts. -/
def uncountedRow : JobRow :=
  { id := 0, promptPreview := none, modelName := "m", providerType := .ollama, status := .completed
    error := none, createdAt := 0, startedAt := none, completedAt := none, apiKeyId := none
    accountId := none, latencyMs := none, ttftMs := none, promptTokens := none
    completionTokens := none, cachedTokens := none, source := .api, providerId := none
    apiFormat := .openaiCompat, requestPath := none, conversationId := none, queueTimeMs := none
    cancelledAt := none, messagesHash := none, messagesPrefixHash := none, failureReason := none
    imageKeys := none, mcpLoopId := none, hasToolCalls := false, resultPreview := none }

/-- Every job has such a row. -/
def uncountedWorld : World :=
  { World.init ⟨[], fun _ => none, fun _ => false, false⟩ with rows := fun _ => some uncountedRow }

/-- A call that submitted a job is rolled up, whatever the tables hold, exactly when no submit and no
round of it failed. -/
theorem rolled_up_iff (hc : ∀ x, c.succeeds x = true)
    (hsubmitted : ∀ w run, runLoopForcedJson b call messages c w = some run →
      run.state.firstJobId ≠ none) :
    (∀ w run, runLoopForcedJson b call messages c w = some run → RolledUp call w run) ↔
      Answered b call messages := by
  cases hprompt : buildForcedJsonSystemPrompt call.allTools with
  | none =>
    have hnone : ∀ w, runLoopForcedJson b call messages c w = none := fun w => by
      rw [runLoopForcedJson, hprompt]
      rfl
    refine iff_of_true (fun w run hrun => ?_) fun round s schema hreach => ?_
    · rw [hnone] at hrun
      cases hrun
    · obtain ⟨prompt, hsome, -⟩ := hreach
      rw [hprompt] at hsome
      cases hsome
  | some prompt =>
    have hrun : ∀ w, runLoopForcedJson b call messages c w =
        some ((runRounds b call (initialState prompt messages)).1.returned b call c w
          (runRounds b call (initialState prompt messages)).2) := fun w => by
      rw [runLoopForcedJson, hprompt]
      rfl
    rw [answered_iff hprompt]
    constructor
    · intro hall
      obtain ⟨hend, -⟩ | ⟨-, hstate, -, -, hworld, -⟩ := returned_cases b call c uncountedWorld
        (runRounds b call (initialState prompt messages)).1
        (runRounds b call (initialState prompt messages)).2
      · exact hend
      · exfalso
        obtain ⟨fid, hfid⟩ := Option.ne_none_iff_exists'.mp
          (hsubmitted _ _ (hrun uncountedWorld))
        have htotals := (hall _ _ (hrun uncountedWorld)).totals fid uncountedRow hfid rfl
        rw [hworld] at htotals
        have hrow := Option.some.inj htotals
        simp [uncountedRow] at hrow
    · intro hend w run hsome
      obtain rfl := Option.some.inj ((hrun w).symm.trans hsome)
      have hfirst := hsubmitted w _ hsome
      obtain ⟨-, hreturn⟩ | ⟨hfailed, -⟩ := returned_cases b call c w
        (runRounds b call (initialState prompt messages)).1
        (runRounds b call (initialState prompt messages)).2
      · obtain ⟨bound, hbooks⟩ := books_runRounds call (LoopState.books_start b prompt messages)
        rw [hreturn] at hfirst ⊢
        obtain ⟨fid, hfid⟩ := Option.ne_none_iff_exists'.mp hfirst
        refine ⟨fun id hid => ?_, fun fid' row hfid' hrow => ?_, fun conversation hconversation => ?_⟩
        · dsimp only at hid ⊢
          rw [cleanUp_rows hc hfid, if_pos hid]
        · obtain rfl : fid' = fid := Option.some.inj (hfid'.symm.trans hfid)
          have hnotIntermediate : fid' ∉ (runRounds b call
              (initialState prompt messages)).1.intermediateJobIds := by
            have hnodup := hbooks.nodup
            simp only at hfid
            rw [LoopState.jobIds, hfid] at hnodup
            exact (List.nodup_cons.mp hnodup).1
          dsimp only
          rw [cleanUp_rows hc hfid, if_neg hnotIntermediate, World.updateRow]
          dsimp only
          rw [Function.update_self, hrow, hbooks.promptTokens, hbooks.completionTokens]
          simp only [Option.map_some, Option.some.injEq, JobRow.mk.injEq, U32_MAX, I32_MAX, true_and,
            and_true]
          omega
        · exact cleanUp_turnCount hc hfid hconversation
      · exact absurd hend hfailed

/-- Two answered rounds. -/
theorem answered_call_rolled_up :
    ∃ run, runLoopForcedJson (sampleBridge toolThenFinal) (sampleCall 2) sampleMessages
      sampleCleanup sampleWorld = some run ∧ RolledUp (sampleCall 2) sampleWorld run := by
  have hanswered : Answered (sampleBridge toolThenFinal) (sampleCall 2) sampleMessages :=
    fun round s schema _ _ => ⟨⟨round, rfl⟩, _, rfl⟩
  refine ⟨_, rfl, (rolled_up_iff (fun _ => rfl) fun w run hrun => ?_).mpr hanswered _ _ rfl⟩
  obtain rfl := Option.some.inj hrun
  exact fun hnone => by cases hnone

/-- The second round fails: the conversation has no new turn. -/
theorem failed_round_not_rolled_up :
    ∃ b call messages c w run, (∀ x, c.succeeds x = true) ∧
      runLoopForcedJson b call messages c w = some run ∧ run.state.firstJobId ≠ none ∧
      ¬ RolledUp call w run := by
  let collect : ℕ → Except RoundError RoundResult := fun round =>
    if round = 0 then toolThenFinal 0 else .error .streamIdleTimeout
  refine ⟨sampleBridge collect, sampleCall 2, sampleMessages, sampleCleanup, sampleWorld, _,
    fun _ => rfl, rfl, (fun hnone => by cases hnone), fun hrolled => ?_⟩
  have hcount := hrolled.counted 9 rfl
  revert hcount
  decide +kernel

end Calls

end Veronex
