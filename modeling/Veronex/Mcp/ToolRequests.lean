import Veronex.Mcp.ForcedJson
import Veronex.Mcp.ResultCache
import Veronex.Mcp.SessionManager

/-! # The requests of a tool call

`call_tool` and `send` of `veronex-mcp/src/client.rs` as `execute_one` (`bridge.rs`) makes them, over
the sessions. What comes of a POST is chosen by the step: an error of reqwest, an answer of the
server, or neither before the time limit of `execute_one`. Whether the server has carried the call
out is chosen apart from it.

`requests_of_execution`: at most two requests, and the second only after an error `with_session`
retries after.
-/
namespace Veronex.Mcp
set_option autoImplicit false
open Concurrency

/-! ## One request -/

/-- What `call_tool` takes from `serde_json`. -/
structure ToolClient where
  /-- `{:?}` -/
  debug : Json → String
  fromValue : Json → Option McpContent

inductive Reply
  /-- An error of `send`: no connection, a reset, the time limit of the client. -/
  | failed (chain : List String)
  | notFound
  /-- The body breaks off or is no JSON. -/
  | unreadable (chain : List String)
  | json (v : Json)

structure Delivery where
  /-- The server has carried the call out. -/
  processed : Bool
  /-- `none`: the call is dropped first. -/
  reply : Option Reply

namespace ToolClient
variable (client : ToolClient)

/-- `call_tool`; an error is its chain of texts. -/
def callTool (url toolName : String) : Reply → Except (List String) McpToolResult
  | .failed chain | .unreadable chain => .error chain
  | .notFound => .error ["MCP " ++ SESSION_EXPIRED_MARKER ++ " (404) for " ++ url]
  | .json v =>
    match v.get "error" with
    | some err =>
      .error ["MCP protocol error from " ++ url ++ "/" ++ toolName ++ ": " ++ client.debug err]
    | none =>
      let result := (v.get "result").getD .null
      .ok {
        content := match result.get "content" with
          | some (.arr items) => items.filterMap client.fromValue
          | _ => []
        isError := match result.get "isError" with
          | some (.bool b) => b
          | _ => false }

/-- The error of the request is one `with_session` retries after. -/
def Retried (toolName : String) (d : Delivery) : Prop :=
  ∃ reply url chain, d.reply = some reply ∧ client.callTool url toolName reply = .error chain ∧
    retries chain = true

end ToolClient

/-! ## Calls of `execute_one` -/

/-- What `execute_one` finds before it calls the tool. -/
inductive Gate
  | unknownTool
  | aclDenied
  | circuitOpen
  | cacheHit
  | passed

/-- A call of `execute_one` that calls the tool. -/
structure Execution where
  /-- The cached definition. -/
  toolDef : Option McpTool
  rawName : String

structure ToolRequest where
  call : ℕ
  delivery : Delivery

structure ToolWorld where
  sessions : SessionWorld
  /-- Which calls of `with_session` are made by `execute_one`. -/
  executions : ℕ → Option Execution
  /-- The requests that have ended. -/
  requests : List ToolRequest

inductive ToolAction
  | executeOne (toolDef : Option McpTool) (namespaced : String) (gate : Gate)
  /-- A request of a call of `execute_one`. -/
  | request (k : ℕ) (d : Delivery)
  /-- Any other step of the sessions. -/
  | session (a : SessionAction)

namespace SessionCall

def sends : SessionCall → Bool
  | .call _ | .retry _ => true
  | _ => false

end SessionCall

namespace ToolWorld

def init : ToolWorld :=
  { sessions := .init, executions := fun _ => none, requests := [] }

section Steps
variable (client : ToolClient) (issues : Bool) (w : ToolWorld)

/-- The step of the sessions at which a request ends. `with_session` does not look at the outcome of
the retry. -/
def ended (e : Execution) (k : ℕ) (d : Delivery) : SessionCall → Option SessionAction
  | .call entry => some <| d.reply.elim (.drop k) fun reply =>
      .step k (match client.callTool entry.config.url e.rawName reply with
        | .ok _ => .ok
        | .error chain => .failed chain)
  | .retry _ => some (d.reply.elim (.drop k) fun _ => .step k .ok)
  | _ => none

/-- A step of the sessions that ends no request of `execute_one`. -/
def Apart : SessionAction → Prop
  | .step k _ | .drop k =>
    (w.executions k).isSome = true → ∀ c ∈ w.sessions.calls[k]?, c.sends = false
  | _ => True

instance (a : SessionAction) : Decidable (w.Apart a) :=
  match a with
  | .step k _ | .drop k => inferInstanceAs (Decidable ((w.executions k).isSome = true →
      ∀ c ∈ w.sessions.calls[k]?, c.sends = false))
  | .connect _ | .disconnect | .withSession => isTrue trivial

def step (w : ToolWorld) : ToolAction → Option ToolWorld
  | .executeOne toolDef namespaced gate =>
    match gate with
    | .unknownTool | .aclDenied | .circuitOpen => some w
    | .cacheHit => if toolDef.any McpTool.canCache then some w else none
    | .passed => (w.sessions.step issues .withSession).map fun sessions =>
      { w with
        sessions
        executions := Function.update w.executions w.sessions.calls.length
          (some { toolDef, rawName := (toolDef.map McpTool.name).getD (rawToolName namespaced) }) }
  | .request k d => do
    let e ← w.executions k
    let c ← w.sessions.calls[k]?
    let a ← ended client e k d c
    let sessions ← w.sessions.step issues a
    some { w with sessions, requests := w.requests ++ [⟨k, d⟩] }
  | .session a =>
    if w.Apart a then (w.sessions.step issues a).map fun sessions => { w with sessions } else none

end Steps

/-- The requests of a call, the first one first. -/
def sent (w : ToolWorld) (k : ℕ) : List Delivery :=
  (w.requests.filter fun r => r.call = k).map ToolRequest.delivery

/-! ## The calls of the sessions -/

end ToolWorld

namespace SessionCall

/-- Before the end of its first request, between the two, at the end. -/
inductive Phase
  | first
  | between
  | ended
  deriving DecidableEq

def phase : SessionCall → Phase
  | .connect _ | .get | .call _ => .first
  | .entry _ | .lock .. | .compare .. | .remove .. | .handshake .. | .fresh _ | .retry _ => .between
  | .finished => .ended

end SessionCall

namespace SessionWorld
variable {issues : Bool} {s s' : SessionWorld} {k : ℕ} {c : SessionCall} {answer : SessionAnswer}

/-- A call goes on within its phase, ends, or begins to retry. -/
theorem stepCall_calls (h : s.stepCall issues k answer c = some s') :
    ∃ c', s'.calls = s.calls.set k c' ∧ (c'.phase = c.phase ∨ c' = .finished ∨
      ∃ entry chain, c = .call entry ∧ answer = .failed chain ∧ retries chain = true ∧
        c' = .entry entry) := by
  cases c with
  | connect config =>
    cases answer with
    | ok | failed =>
      cases h
      exact ⟨.finished, rfl, .inr (.inl rfl)⟩
  | get =>
    simp only [stepCall] at h
    split at h
    · cases h
      exact ⟨_, rfl, .inl rfl⟩
    · cases h
      exact ⟨_, rfl, .inr (.inl rfl)⟩
  | call entry =>
    cases answer with
    | ok =>
      cases h
      exact ⟨_, rfl, .inr (.inl rfl)⟩
    | failed chain =>
      cases h
      refine ⟨_, rfl, .inr ?_⟩
      split
      · next hretries => exact .inr ⟨entry, chain, rfl, rfl, hretries, rfl⟩
      · exact .inl rfl
  | entry entry =>
    simp only [stepCall] at h
    split at h
    · cases h
      exact ⟨_, rfl, .inl rfl⟩
    · cases h
      exact ⟨_, rfl, .inl rfl⟩
  | lock entry m =>
    simp only [stepCall] at h
    split at h
    · cases h
    · cases h
      exact ⟨_, rfl, .inl rfl⟩
  | compare entry m =>
    cases h
    refine ⟨_, rfl, .inl ?_⟩
    split
    · rfl
    · rfl
  | remove entry m =>
    cases h
    exact ⟨_, rfl, .inl rfl⟩
  | handshake entry m =>
    cases answer with
    | ok =>
      cases h
      exact ⟨_, rfl, .inl rfl⟩
    | failed chain =>
      cases h
      exact ⟨_, rfl, .inr (.inl rfl)⟩
  | fresh m =>
    simp only [stepCall] at h
    split at h
    · cases h
      exact ⟨_, rfl, .inl rfl⟩
    · cases h
      exact ⟨_, rfl, .inr (.inl rfl)⟩
  | retry m =>
    cases h
    exact ⟨_, rfl, .inr (.inl rfl)⟩
  | finished => cases h

/-- The calls after a step: one goes on, or new ones are added. -/
theorem step_calls {a : SessionAction} (h : s.step issues a = some s') :
    (∃ new, s'.calls = s.calls ++ new) ∨
      ∃ k c c', s.calls[k]? = some c ∧ s'.calls = s.calls.set k c' ∧
        (c'.phase = c.phase ∧ (∃ answer, a = .step k answer) ∨
          c' = .finished ∧ ((∃ answer, a = .step k answer) ∨ a = .drop k) ∨
          ∃ entry chain, c = .call entry ∧ a = .step k (.failed chain) ∧ retries chain = true ∧
            c' = .entry entry) := by
  cases a with
  | connect config =>
    cases h
    exact .inl ⟨_, rfl⟩
  | withSession =>
    cases h
    exact .inl ⟨_, rfl⟩
  | disconnect =>
    cases h
    exact .inl ⟨[], (List.append_nil _).symm⟩
  | step k answer =>
    obtain ⟨c, hc, h⟩ := Option.bind_eq_some_iff.mp h
    obtain ⟨c', hcalls, hphase | hended | ⟨entry, chain, hcall, hanswer, hrest⟩⟩ := stepCall_calls h
    · exact .inr ⟨k, c, c', hc, hcalls, .inl ⟨hphase, answer, rfl⟩⟩
    · exact .inr ⟨k, c, c', hc, hcalls, .inr (.inl ⟨hended, .inl ⟨answer, rfl⟩⟩)⟩
    · exact .inr ⟨k, c, c', hc, hcalls, .inr (.inr ⟨entry, chain, hcall, hanswer ▸ rfl, hrest⟩)⟩
  | drop k =>
    obtain ⟨c, hc, h⟩ := Option.bind_eq_some_iff.mp h
    have hset : s' = s.setCall k .finished := by
      cases c with
      | connect | call | lock | handshake | retry =>
        cases h
        rfl
      | get | entry | compare | remove | fresh | finished => cases h
    exact .inr ⟨k, c, .finished, hc, by rw [hset]; rfl, .inr (.inl ⟨rfl, .inr rfl⟩)⟩

end SessionWorld

namespace ToolWorld
variable {client : ToolClient} {issues : Bool} {w w' : ToolWorld} {k : ℕ} {d : Delivery}

/-- What a request that ends makes of its call. -/
theorem request_calls {e : Execution} (he : w.executions k = some e)
    (h : w.step client issues (.request k d) = some w') :
    ∃ c c', w.sessions.calls[k]? = some c ∧ w'.sessions.calls = w.sessions.calls.set k c' ∧
      w'.executions = w.executions ∧ w'.requests = w.requests ++ [⟨k, d⟩] ∧
      (c.phase = .first ∧ c'.phase = .ended ∨ c.phase = .between ∧ c'.phase = .ended ∨
        c.phase = .first ∧ c'.phase = .between ∧ client.Retried e.rawName d) := by
  simp only [step, he, Option.bind_eq_bind, Option.bind_some] at h
  obtain ⟨c, hc, h⟩ := Option.bind_eq_some_iff.mp h
  obtain ⟨a, ha, h⟩ := Option.bind_eq_some_iff.mp h
  obtain ⟨sessions, hs, h⟩ := Option.bind_eq_some_iff.mp h
  obtain rfl : _ = w' := Option.some.inj h
  cases c with
  | call entry =>
    obtain rfl : _ = a := Option.some.inj ha
    cases hreply : d.reply with
    | none =>
      rw [hreply, Option.elim_none] at hs
      simp only [SessionWorld.step, hc, Option.bind_eq_bind, Option.bind_some] at hs
      obtain rfl : _ = sessions := Option.some.inj hs
      exact ⟨_, .finished, hc, rfl, rfl, rfl, .inl ⟨rfl, rfl⟩⟩
    | some reply =>
      rw [hreply, Option.elim_some] at hs
      simp only [SessionWorld.step, hc, Option.bind_eq_bind, Option.bind_some] at hs
      cases hcall : client.callTool entry.config.url e.rawName reply with
      | ok result =>
        rw [hcall] at hs
        obtain rfl : _ = sessions := Option.some.inj hs
        exact ⟨_, .finished, hc, rfl, rfl, rfl, .inl ⟨rfl, rfl⟩⟩
      | error chain =>
        rw [hcall] at hs
        obtain rfl : _ = sessions := Option.some.inj hs
        by_cases hretries : retries chain = true
        · refine ⟨_, .entry entry, hc, ?_, rfl, rfl, .inr (.inr ⟨rfl, rfl, ?_⟩)⟩
          · dsimp only [SessionWorld.setCall]
            rw [if_pos hretries]
          · exact ⟨reply, _, chain, hreply, hcall, hretries⟩
        · refine ⟨_, .finished, hc, ?_, rfl, rfl, .inl ⟨rfl, rfl⟩⟩
          dsimp only [SessionWorld.setCall]
          rw [if_neg hretries]
  | retry m =>
    obtain rfl : _ = a := Option.some.inj ha
    have hset : sessions = w.sessions.setCall k .finished := by
      cases hreply : d.reply with
      | none | some =>
        rw [hreply] at hs
        simp only [Option.elim_none, Option.elim_some, SessionWorld.step, hc, Option.bind_eq_bind,
          Option.bind_some] at hs
        exact (Option.some.inj hs).symm
    subst hset
    exact ⟨_, .finished, hc, rfl, rfl, rfl, .inr (.inl ⟨rfl, rfl⟩)⟩
  | _ => cases ha

/-- The requests of a call, by its phase. -/
def SentBy (client : ToolClient) (e : Execution) (phase : SessionCall.Phase)
    (sent : List Delivery) : Prop :=
  match phase with
  | .first => sent = []
  | .between => ∃ d, sent = [d] ∧ client.Retried e.rawName d
  | .ended => sent.length ≤ 2 ∧ ∀ d ∈ sent.dropLast, client.Retried e.rawName d

structure Counted (client : ToolClient) (w : ToolWorld) : Prop where
  known : ∀ k e, w.executions k = some e → k < w.sessions.calls.length
  bound : ∀ r ∈ w.requests, r.call < w.sessions.calls.length
  sent : ∀ k e c, w.executions k = some e → w.sessions.calls[k]? = some c →
    SentBy client e c.phase (w.sent k)

theorem SentBy.ends {e : Execution} {phase : SessionCall.Phase} {sent : List Delivery}
    (h : SentBy client e phase sent) : SentBy client e .ended sent := by
  cases phase with
  | first =>
    obtain rfl : sent = [] := h
    exact ⟨Nat.zero_le _, by rintro _ ⟨⟩⟩
  | between =>
    obtain ⟨d, rfl, -⟩ := h
    exact ⟨Nat.le_succ 1, by rintro _ ⟨⟩⟩
  | ended => exact h

theorem sent_request (j : ℕ) (h : w'.requests = w.requests ++ [⟨k, d⟩]) :
    w'.sent j = w.sent j ++ if k = j then [d] else [] := by
  unfold sent
  rw [h, List.filter_append, List.map_append]
  by_cases hj : k = j
  · simp [hj]
  · simp [hj]

theorem step_counted {a : ToolAction} (h : w.Counted client) (hs : w.step client issues a = some w') :
    w'.Counted client := by
  cases a with
  | executeOne toolDef namespaced gate =>
    cases gate with
    | unknownTool | aclDenied | circuitOpen =>
      obtain rfl : w = w' := Option.some.inj hs
      exact h
    | cacheHit =>
      obtain ⟨-, hs⟩ := Option.ite_none_right_eq_some.mp hs
      obtain rfl : w = w' := Option.some.inj hs
      exact h
    | passed =>
      obtain rfl : _ = w' := Option.some.inj hs
      have hlength : (w.sessions.calls ++ [SessionCall.get]).length =
          w.sessions.calls.length + 1 := by simp
      refine ⟨fun k e he => ?_, fun r hr => ?_, fun k e c he hc => ?_⟩
      · rw [hlength]
        by_cases hk : k = w.sessions.calls.length
        · omega
        · have hknown := h.known k e (by simpa [Function.update_of_ne hk] using he)
          omega
      · have hold := h.bound r hr
        rw [hlength]
        omega
      · by_cases hk : k = w.sessions.calls.length
        · subst hk
          obtain rfl : SessionCall.get = c := by simpa using hc
          have hnone : w.sent w.sessions.calls.length = [] := by
            refine List.map_eq_nil_iff.mpr (List.filter_eq_nil_iff.mpr fun r hr => ?_)
            have hold := h.bound r hr
            simp only [decide_eq_true_eq]
            omega
          exact hnone
        · have he' : w.executions k = some e := by simpa [Function.update_of_ne hk] using he
          have hknown := h.known k e he'
          refine h.sent k e c he' ?_
          rw [← hc]
          exact (List.getElem?_append_left hknown).symm
  | request k d =>
    cases he : w.executions k with
    | none => simp [step, he] at hs
    | some e =>
      obtain ⟨c, c', hc, hcalls, hexecutions, hrequests, hphase⟩ := request_calls he hs
      have hlength : w'.sessions.calls.length = w.sessions.calls.length := by
        rw [hcalls, List.length_set]
      have hk := h.known k e he
      refine ⟨fun j e' he' => ?_, fun r hr => ?_, fun j e' c'' he' hc'' => ?_⟩
      · rw [hlength]
        exact h.known j e' (hexecutions ▸ he')
      · rw [hlength]
        rcases List.mem_append.mp (hrequests ▸ hr) with hr | hr
        · exact h.bound r hr
        · rw [List.mem_singleton.mp hr]
          exact hk
      · rw [hexecutions] at he'
        rw [hcalls] at hc''
        rw [sent_request j hrequests]
        by_cases hj : k = j
        · subst hj
          obtain rfl : e = e' := Option.some.inj (he.symm.trans he')
          obtain rfl : c' = c'' := by simpa [List.getElem?_set_self hk] using hc''
          have hsent := h.sent k e c he hc
          rw [if_pos rfl]
          rcases hphase with ⟨hfirst, hended⟩ | ⟨hbetween, hended⟩ | ⟨hfirst, hbetween, hretried⟩
          · rw [hfirst] at hsent
            rw [hended, show w.sent k = [] from hsent]
            exact ⟨Nat.le_succ 1, by rintro _ ⟨⟩⟩
          · rw [hbetween] at hsent
            obtain ⟨d₀, hd₀, hretried⟩ := hsent
            rw [hended, hd₀]
            refine ⟨le_rfl, fun x hx => ?_⟩
            rw [List.mem_singleton.mp hx]
            exact hretried
          · rw [hfirst] at hsent
            rw [hbetween, show w.sent k = [] from hsent]
            exact ⟨d, rfl, hretried⟩
        · rw [if_neg hj, List.append_nil]
          refine h.sent j e' c'' he' ?_
          rw [← hc'', List.getElem?_set_ne hj]
  | session a =>
    obtain ⟨hapart, hs⟩ := Option.ite_none_right_eq_some.mp hs
    obtain ⟨sessions, hsession, rfl⟩ := Option.map_eq_some_iff.mp hs
    rcases SessionWorld.step_calls hsession with ⟨new, hcalls⟩ | ⟨k, c, c', hc, hcalls, hnext⟩
    · have hlength : w.sessions.calls.length ≤ sessions.calls.length := by
        rw [hcalls, List.length_append]
        omega
      refine ⟨fun j e he => (h.known j e he).trans_le hlength,
        fun r hr => (h.bound r hr).trans_le hlength, fun j e c he hc => ?_⟩
      refine h.sent j e c he ?_
      rw [← hc]
      dsimp only
      rw [hcalls, List.getElem?_append_left (h.known j e he)]
    · have hlength : sessions.calls.length = w.sessions.calls.length := by
        rw [hcalls, List.length_set]
      refine ⟨fun j e he => hlength ▸ h.known j e he, fun r hr => hlength ▸ h.bound r hr,
        fun j e c'' he hc'' => ?_⟩
      dsimp only at hc''
      rw [hcalls] at hc''
      by_cases hj : k = j
      · subst hj
        obtain rfl : c' = c'' := by simpa [List.getElem?_set_self (h.known k e he)] using hc''
        have hsent := h.sent k e c he hc
        rcases hnext with ⟨hphase, -⟩ | ⟨rfl, -⟩ | ⟨entry, chain, rfl, rfl, -⟩
        · rw [hphase]
          exact hsent
        · exact hsent.ends
        · have hsends := hapart (by rw [he]; rfl) _ hc
          cases hsends
      · refine h.sent j e c'' he ?_
        rw [← hc'', List.getElem?_set_ne hj]

/-- At most two requests are sent for a call of `execute_one`, the second one only after the first
came back as an error `with_session` retries after. So the server carries the call out at most once,
unless it had carried out such a first request. -/
theorem requests_of_execution (h : Run (step client issues) (fun _ _ => True) init w) {e : Execution}
    (he : w.executions k = some e) :
    (w.sent k).length ≤ 2 ∧ (∀ d ∈ (w.sent k).dropLast, client.Retried e.rawName d) ∧
      ((∀ d ∈ (w.sent k).dropLast, d.processed = false) →
        (w.sent k).countP Delivery.processed ≤ 1) := by
  have hcounted : w.Counted client :=
    h.invariant ⟨by rintro _ _ ⟨⟩, by rintro _ ⟨⟩, by rintro _ _ _ ⟨⟩⟩ fun _ _ _ _ hi _ hs =>
      step_counted hi hs
  have hk := hcounted.known k e he
  obtain ⟨hlength, hretried⟩ := (hcounted.sent k e _ he (List.getElem?_eq_getElem hk)).ends
  refine ⟨hlength, hretried, fun hnone => ?_⟩
  generalize w.sent k = sent at hlength hnone
  match sent with
  | [] => exact Nat.zero_le _
  | [d] => exact List.countP_le_length
  | [d, d'] =>
    have hd := hnone d (List.mem_singleton_self d)
    rw [List.countP_cons_of_neg (by simp [hd])]
    exact List.countP_le_length
  | _ :: _ :: _ :: _ => simp at hlength

/-! ## Two requests -/

/-- A tool that says nothing of itself. -/
def sendMail : McpTool where
  name := "send"
  description := ""
  inputSchema := .obj []
  readOnlyHint := false
  idempotentHint := false
  serverId := 5
  serverName := "mail"

/-- The first request of a call fails, a new session is made, and the second one succeeds. -/
def retriedCall (first : Delivery) : List ToolAction :=
  let config : ServerConfig := { serverName := "mail", url := "http://mail/mcp", timeoutSecs := 30 }
  .flatten [[.session (.connect config), .session (.step 0 .ok),
    .executeOne (some sendMail) "mcp_mail_send" .passed, .session (.step 1 .ok), .request 1 first],
    .replicate 6 (.session (.step 1 .ok)),
    [.request 1 ⟨true, some (.json (.obj [("result", .obj [])]))⟩]]

def refusedConnection : Delivery :=
  ⟨false, some (.failed ["error sending request for url (http://mail/mcp)", "tcp connect error"])⟩

/-- The server answers after the time limit of the client. -/
def lateAnswer : Delivery :=
  ⟨true, some (.failed ["error sending request for url (http://mail/mcp)", "operation timed out"])⟩

/-- An execution of the tool, with all that was sent for it. -/
def Shows (w : ToolWorld) (k sent processed : ℕ) : Prop :=
  ((w.executions k).bind Execution.toolDef).any (fun t => !t.idempotentHint) = true ∧
    (w.sent k).length = sent ∧ (w.sent k).countP Delivery.processed = processed

instance (w : ToolWorld) (k sent processed : ℕ) : Decidable (w.Shows k sent processed) :=
  inferInstanceAs (Decidable (_ ∧ _ ∧ _))

/-- No answer here has an error or any content. -/
def noContent : ToolClient := { debug := fun _ => "", fromValue := fun _ => none }

theorem requests_after_refused_connection : ∃ (w : ToolWorld) (e : Execution),
    Run (step noContent true) (fun _ _ => True) init w ∧ w.executions 1 = some e ∧
      (w.sent 1).length = 2 ∧ (∀ d ∈ (w.sent 1).dropLast, noContent.Retried e.rawName d) ∧
        (w.sent 1).countP Delivery.processed ≤ 1 := by
  have hexec : (exec (step noContent true) (fun _ _ => true) init
      (retriedCall refusedConnection)).any (fun w => decide (w.Shows 1 2 1 ∧
        ∀ d ∈ (w.sent 1).dropLast, d.processed = false)) = true := by decide
  obtain ⟨w, hrun, hw⟩ := Run.exists_of_exec (fun _ _ _ => trivial) hexec
  obtain ⟨⟨htool, hlength, -⟩, hunprocessed⟩ := of_decide_eq_true hw
  cases he : w.executions 1 with
  | none =>
    rw [he] at htool
    cases htool
  | some e =>
    obtain ⟨-, hretried, honce⟩ := requests_of_execution hrun he
    exact ⟨w, e, hrun, he, hlength, hretried, honce hunprocessed⟩

/-- The server carries out one call of the tool twice. -/
theorem requests_after_late_answer : ∃ w : ToolWorld,
    Run (step noContent true) (fun _ _ => True) init w ∧ w.Shows 1 2 2 := by
  have hexec : (exec (step noContent true) (fun _ _ => true) init
      (retriedCall lateAnswer)).any (fun w => decide (w.Shows 1 2 2)) = true := by decide
  obtain ⟨w, hrun, hw⟩ := Run.exists_of_exec (fun _ _ _ => trivial) hexec
  exact ⟨w, hrun, of_decide_eq_true hw⟩

end ToolWorld
end Veronex.Mcp
