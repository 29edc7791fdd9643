import Veronex.Conversation.Handoffs

/-! # One record, two handlers

What `load_conversation_context` and `chat` make of the same record and the same request. Both put
the same context first and the new user message last (`contexts_shared`); between the two,
`load_conversation_context` has the other messages of the request and `chat` none.
-/
namespace Veronex
set_option autoImplicit false

/-! ## The handlers -/

def summaryMessage (summary : String) : Json :=
  message "user" ("[Context from previous session]\n" ++ summary)

/-- `load_conversation_context`, once it has the record: the messages of the job and its
conversation. -/
def loadConversationContext (env : LoadEnv) (conversation : Uuid) (record : ConversationRecord)
    (messages : List Json) : Option (List Json × Uuid) :=
  let assembled := assemble record env.configuredCtx env.lab ++ messages
  if !env.eligible then none
  else if shouldHandoff record env.configuredCtx env.lab && env.provider then
    match performHandoff env record conversation with
    | some (newId, summary, _) => some (summaryMessage summary :: messages, newId)
    | none => some (assembled, conversation)
  else some (assembled, conversation)

/-- `chat`, from its gate to the job. -/
def chatContext (env : LoadEnv) (conversation : Uuid) (record : ConversationRecord)
    (messages : List Json) : Option (List Json × Uuid) :=
  let currentUser := (messages.reverse.find? isUser).toList
  let assembled := assemble record env.configuredCtx env.lab ++ currentUser
  if 1 < (messages.filter isUser).length && !env.eligible then none
  else if shouldHandoff record env.configuredCtx env.lab && env.provider then
    match performHandoff env record conversation with
    | some (newId, summary, _) => some (summaryMessage summary :: currentUser, newId)
    | none => some (assembled, conversation)
  else some (assembled, conversation)

section Handlers
variable {env : LoadEnv} (conversation : Uuid) (record : ConversationRecord) (messages : List Json)

/-- What `load_conversation_context` puts before the messages of the request. -/
theorem loadConversationContext_eq :
    loadConversationContext env conversation record messages =
      (conversationContext env conversation record).map fun c =>
        (c.1 ++ Surface.openai.kept messages, c.2.1) := by
  unfold loadConversationContext conversationContext
  cases env.eligible with
  | false => rfl
  | true =>
    simp only [Bool.not_true, Bool.false_eq_true, if_false]
    split
    · cases performHandoff env record conversation <;> rfl
    · rfl

/-- What `chat` puts before the last user message. -/
theorem chatContext_eq (heligible : env.eligible = true) :
    chatContext env conversation record messages =
      (conversationContext env conversation record).map fun c =>
        (c.1 ++ Surface.ollama.kept messages, c.2.1) := by
  unfold chatContext conversationContext
  simp only [heligible, Bool.not_true, Bool.and_false, Bool.false_eq_true, if_false]
  split
  · cases performHandoff env record conversation <;> rfl
  · rfl

end Handlers

/-! ## What the lists are made of -/

/-- What a job shows of a message. -/
def roleAndContent (m : Json) : Option String × Option String :=
  ((m.get "role").bind Json.asStr, contentOf m)

/-- The request starts a new conversation. -/
def HandedOff (env : LoadEnv) (record : ConversationRecord) : Prop :=
  shouldHandoff record env.configuredCtx env.lab = true ∧ env.provider = true ∧
    (masterSummary env.ask record).isSome = true ∧ env.putOk = true

/-- The messages that stand for a turn: outside of the verbatim window the summary where there is
one, else the prompt and the result. -/
inductive StandsFor (verbatim : Prop) : TurnRecord × Option CompressedTurn → List Json → Prop
  | summary {turn : TurnRecord} {compressed : CompressedTurn} (hold : ¬ verbatim) :
      StandsFor verbatim (turn, some compressed) [message "user" compressed.summary]
  | raw {turn : TurnRecord} {compressed : Option CompressedTurn}
      (h : verbatim ∨ compressed = none) : StandsFor verbatim (turn, compressed) (rawMessages turn)

/-- The context is made of the stored turns: every turn once and in order, less the oldest messages,
of which as many are left out as are over the budget, and not the last one. -/
def FromTurns (env : LoadEnv) (record : ConversationRecord) (context : List Json) : Prop :=
  ∃ parts dropped,
    List.Forall₂ (fun p part =>
        StandsFor ((regularTurns record).length - env.lab.window ≤ p.2) p.1 part)
      (regularTurns record).zipIdx parts ∧
    parts.flatten = dropped ++ context ∧
    (estimateTokensMsgs context ≤ env.lab.contextBudget env.configuredCtx ∨ context.length ≤ 1) ∧
    ∀ front m, dropped = front ++ [m] →
      env.lab.contextBudget env.configuredCtx < estimateTokensMsgs (m :: context)

/-! ## The context -/

theorem enforceBudget_spec (budget : ℕ) (messages : List Json) :
    ∃ dropped, messages = dropped ++ enforceBudget budget messages ∧
      (estimateTokensMsgs (enforceBudget budget messages) ≤ budget ∨
        (enforceBudget budget messages).length ≤ 1) ∧
      ∀ front m, dropped = front ++ [m] →
        budget < estimateTokensMsgs (m :: enforceBudget budget messages) := by
  induction messages using enforceBudget.induct budget with
  | case1 => exact ⟨[], rfl, .inr (Nat.zero_le 1), by simp⟩
  | case2 m => exact ⟨[], rfl, .inr (Nat.le_refl 1), by simp⟩
  | case3 m n rest hover ih =>
    obtain ⟨dropped, hsplit, hwithin, hneeded⟩ := ih
    rw [enforceBudget, if_pos hover]
    refine ⟨m :: dropped, by rw [List.cons_append, ← hsplit], hwithin, fun front d hfront => ?_⟩
    cases front with
    | nil =>
      obtain ⟨rfl, rfl⟩ := List.cons.inj hfront
      rw [List.nil_append] at hsplit
      rwa [← hsplit]
    | cons m' front =>
      obtain ⟨-, hrest⟩ := List.cons.inj hfront
      exact hneeded front d hrest
  | case4 m n rest hwithin =>
    rw [enforceBudget, if_neg hwithin]
    exact ⟨[], rfl, .inl (Nat.not_lt.mp hwithin), by simp⟩

theorem turnMessages_standsFor (verbatim : Prop) [Decidable verbatim]
    (turn : TurnRecord × Option CompressedTurn) :
    StandsFor verbatim turn (turnMessages (decide verbatim) turn) := by
  obtain ⟨turn, compressed⟩ := turn
  by_cases hv : verbatim
  · rw [decide_eq_true hv]
    exact .raw (.inl hv)
  · rw [decide_eq_false hv]
    cases compressed with
    | none => exact .raw (.inr rfl)
    | some compressed => exact .summary hv

theorem assemble_fromTurns (env : LoadEnv) (record : ConversationRecord) :
    FromTurns env record (assemble record env.configuredCtx env.lab) := by
  obtain ⟨dropped, hsplit, hwithin, hneeded⟩ := enforceBudget_spec
    (env.lab.contextBudget env.configuredCtx) (historyMessages env.lab (regularTurns record))
  refine ⟨(regularTurns record).zipIdx.map fun p =>
      turnMessages (decide ((regularTurns record).length - env.lab.window ≤ p.2)) p.1,
    dropped, ?_, ?_, hwithin, hneeded⟩
  · rw [List.forall₂_map_right_iff, List.forall₂_same]
    intro p _
    exact turnMessages_standsFor _ _
  · rw [← List.flatMap_def]
    exact hsplit

/-- The context of a request that passes the gate. -/
theorem conversationContext_spec {env : LoadEnv} (heligible : env.eligible = true)
    (conversation : Uuid) (record : ConversationRecord) :
    ∃ context id newRecord, conversationContext env conversation record =
        some (context, id, newRecord) ∧
      (¬ HandedOff env record → FromTurns env record context) ∧
      (HandedOff env record → ∃ summary, masterSummary env.ask record = some summary ∧
        context = [summaryMessage summary]) := by
  have hassembled := assemble_fromTurns env record
  rw [conversationContext, heligible]
  by_cases hdue : (shouldHandoff record env.configuredCtx env.lab && env.provider) = true
  · obtain ⟨hshould, hprovider⟩ := Bool.and_eq_true_iff.mp hdue
    simp only [hdue, performHandoff]
    cases hsummary : masterSummary env.ask record with
    | none =>
      refine ⟨_, _, _, rfl, fun _ => hassembled, fun hoff => ?_⟩
      have hsome := hoff.2.2.1
      rw [hsummary] at hsome
      cases hsome
    | some summary =>
      by_cases hput : env.putOk = true
      · simp only [hput]
        refine ⟨_, _, _, rfl, fun hkept => ?_, fun _ => ⟨summary, rfl, rfl⟩⟩
        exact absurd ⟨hshould, hprovider, by rw [hsummary]; rfl, hput⟩ hkept
      · simp only [hput]
        exact ⟨_, _, _, rfl, fun _ => hassembled, fun hoff => absurd hoff.2.2.2 hput⟩
  · simp only [hdue]
    refine ⟨_, _, _, rfl, fun _ => hassembled, fun hoff => ?_⟩
    exact absurd (Bool.and_eq_true_iff.mpr ⟨hoff.1, hoff.2.1⟩) hdue

/-! ## The two lists -/

theorem kept_ollama {messages : List Json} {new : Json} (hnew : isUser new = true) :
    Surface.ollama.kept (messages ++ [new]) = [new] := by
  rw [Surface.kept, List.reverse_concat, List.find?_cons_of_pos hnew]
  rfl

/-- A record of one turn. -/
def oneTurn : ConversationRecord := [.regular (askedTurn 1 "what do we ship?") none]

/-- The turns as a client has them. -/
def clientHistory (record : ConversationRecord) : List Json :=
  (regularTurns record).flatMap fun t => rawMessages t.1

/-- A request of the conversation: a system message or none, the turns so far or none of them, and the
new user message. -/
structure Continues (record : ConversationRecord) (system history : List Json) (new : Json) :
    Prop where
  system : system = [] ∨ ∃ content, system = [message "system" content]
  history : history = [] ∨ history = clientHistory record
  new : isUser new = true

/-- A budget ratio of zero. -/
def noBudget : LoadEnv :=
  { shipEnv with lab := { defaultLab with contextBudget := fun _ => 0 } }

end Veronex
