import Veronex.Conversation.Context

/-! # What is left of a handoff

The record a handoff stores, and what is assembled from it after any number of turns.
-/
namespace Veronex
set_option autoImplicit false

/-- The content of the message has the text in it. -/
def carries (text : String) (m : Json) : Prop :=
  ∃ content, contentOf m = some content ∧ text.toList.IsInfix content.toList

/-! ## The budget -/

theorem estimateTokensMsgs_cons (m : Json) (ms : List Json) :
    estimateTokensMsgs (m :: ms) = ((contentOf m).map estimateTokens).getD 0 + estimateTokensMsgs ms := by
  cases hm : contentOf m with
  | none => simp [estimateTokensMsgs, hm]
  | some content => simp [estimateTokensMsgs, hm]

theorem estimateTokensMsgs_le_append (before after : List Json) :
    estimateTokensMsgs after ≤ estimateTokensMsgs (before ++ after) := by
  induction before with
  | nil => exact le_rfl
  | cons m before ih =>
    rw [List.cons_append, estimateTokensMsgs_cons]
    omega

/-- A message stays when it is the last one, or when it and those after it are within the budget. -/
theorem exists_mem_enforceBudget {P : Json → Prop} (budget : ℕ) (ms : List Json) :
    (∃ m ∈ enforceBudget budget ms, P m) ↔ ∃ before m after, ms = before ++ m :: after ∧ P m ∧
      (after = [] ∨ estimateTokensMsgs (m :: after) ≤ budget) := by
  induction ms using enforceBudget.induct budget with
  | case1 => simp [enforceBudget]
  | case2 m =>
    simp only [enforceBudget, List.mem_singleton, exists_eq_left]
    constructor
    · intro hm
      exact ⟨[], m, [], rfl, hm, .inl rfl⟩
    · rintro ⟨before, m', after, hsplit, hm, -⟩
      have hmem : m' ∈ [m] := by simp [hsplit]
      rwa [← List.mem_singleton.mp hmem]
  | case3 m n rest hover ih =>
    rw [enforceBudget, if_pos hover, ih]
    constructor
    · rintro ⟨before, m', after, hsplit, hm, hkept⟩
      exact ⟨m :: before, m', after, by rw [hsplit, List.cons_append], hm, hkept⟩
    · rintro ⟨before, m', after, hsplit, hm, hkept⟩
      cases before with
      | nil =>
        obtain ⟨rfl, rfl⟩ := List.cons.inj hsplit
        have hbudget := hkept.resolve_left (List.cons_ne_nil _ _)
        omega
      | cons m₀ before =>
        obtain ⟨-, hrest⟩ := List.cons.inj hsplit
        exact ⟨before, m', after, hrest, hm, hkept⟩
  | case4 m n rest hwithin =>
    rw [enforceBudget, if_neg hwithin]
    constructor
    · rintro ⟨m', hmem, hm⟩
      obtain ⟨before, after, hsplit⟩ := List.append_of_mem hmem
      have hle := estimateTokensMsgs_le_append before (m' :: after)
      rw [← hsplit] at hle
      exact ⟨before, m', after, hsplit, hm, .inr (by omega)⟩
    · rintro ⟨before, m', after, hsplit, hm, -⟩
      exact ⟨m', by simp [hsplit], hm⟩

/-! ## The summary -/

/-- A later turn repeats the text, and the budget leaves room for what comes after it. -/
def Repeated (text : String) (budget : ℕ) (lab : LabSettings)
    (later : List (TurnRecord × Option CompressedTurn)) : Prop :=
  ∃ before m after, historyMessages lab later = before ++ m :: after ∧ carries text m ∧
    (after = [] ∨ estimateTokensMsgs (m :: after) ≤ budget)

variable {env : LoadEnv} {record newRecord : ConversationRecord} {conversation newId : Uuid}
  {summary : String}

theorem performHandoff_record
    (h : performHandoff env record conversation = some (newId, summary, newRecord)) :
    ∃ turn : HandoffTurn, newRecord = [.handoff turn] ∧ turn.masterSummary = summary := by
  rw [performHandoff] at h
  split at h
  · cases h
  · split at h
    · simp only [Option.some.injEq, Prod.mk.injEq] at h
      obtain ⟨-, rfl, rfl⟩ := h
      exact ⟨_, rfl, rfl⟩
    · cases h

/-- Nothing of a handoff turn is assembled. -/
theorem assemble_handoff (turn : HandoffTurn) (later : List (TurnRecord × Option CompressedTurn))
    (ctx : ℕ) (lab : LabSettings) :
    assemble ([.handoff turn] ++ later.map fun t => .regular t.1 t.2) ctx lab =
      enforceBudget (lab.contextBudget ctx) (historyMessages lab later) := by
  rw [assemble, regularTurns_append, regularTurns_map_regular]
  rfl

/-- The record of a handoff has one handoff turn, and its summary is in what is assembled only where
a later turn repeats it. -/
theorem summary_assembled_iff (lab : LabSettings)
    (h : performHandoff env record conversation = some (newId, summary, newRecord))
    (later : List (TurnRecord × Option CompressedTurn)) (ctx : ℕ) :
    ∃ turn : HandoffTurn, newRecord = [.handoff turn] ∧ turn.masterSummary = summary ∧
      ((∃ m ∈ assemble (newRecord ++ later.map fun t => .regular t.1 t.2) ctx lab,
          carries turn.masterSummary m) ↔
        Repeated turn.masterSummary (lab.contextBudget ctx) lab later) := by
  obtain ⟨turn, rfl, hsummary⟩ := performHandoff_record h
  refine ⟨turn, rfl, hsummary, ?_⟩
  rw [assemble_handoff]
  exact exists_mem_enforceBudget _ _

/-! ## A conversation that is handed off -/

def askedTurn (jobId : Uuid) (prompt : String) : TurnRecord :=
  { jobId, prompt, messages := none, toolCalls := none, result := some "ok".toList
    modelName := some "m", createdAt := 0, visionAnalysis := none }

def defaultLab : LabSettings where
  compressionModel := none
  contextBudget ctx := ctx * 60 / 100
  recentVerbatimWindow := 1
  handoffEnabled := true
  handoffThreshold ctx := ctx * 85 / 100

def shipEnv : LoadEnv where
  lab := defaultLab
  configuredCtx := 32768
  eligible := true
  provider := true
  model := "m"
  ask := fun _ => .content " ship on friday "
  newId := 9
  createdAt := ""
  putOk := true

/-- What the handoff of a conversation with one turn stores. -/
def shipRecord : ConversationRecord :=
  [.handoff { masterSummary := "ship on friday", summaryModel := "m", previousConversationId := 5
              previousTurnCount := 1, createdAt := "" }]

theorem performHandoff_ship :
    performHandoff shipEnv [.regular (askedTurn 0 "when do we ship?") none] 5 =
      some (9, "ship on friday", shipRecord) := by
  have hsummary : masterSummary shipEnv.ask [.regular (askedTurn 0 "when do we ship?") none] =
      some "ship on friday" := by decide +kernel
  rw [performHandoff, hsummary]
  rfl

/-- The user repeats the summary. -/
theorem repeated_summary_assembled :
    ∃ m ∈ assemble (shipRecord ++ [(askedTurn 1 "so we ship on friday?", none)].map
      fun t => .regular t.1 t.2) 32768 defaultLab, carries "ship on friday" m := by
  obtain ⟨turn, hrecord, hsummary, hiff⟩ := summary_assembled_iff defaultLab performHandoff_ship
    [(askedTurn 1 "so we ship on friday?", none)] 32768
  rw [hsummary] at hiff
  refine hiff.mpr ⟨[], message "user" "so we ship on friday?", [message "assistant" "ok"], ?_, ?_, ?_⟩
  · rfl
  · exact ⟨_, contentOf_message _ _, by decide +kernel⟩
  · exact .inr (by decide +kernel)

/-- A turn that says something else. -/
theorem summary_not_assembled :
    performHandoff shipEnv [.regular (askedTurn 0 "when do we ship?") none] 5 =
      some (9, "ship on friday", shipRecord) ∧
    ¬ ∃ m ∈ assemble (shipRecord ++ [(askedTurn 1 "and then?", none)].map fun t => .regular t.1 t.2)
      32768 defaultLab, carries "ship on friday" m := by
  refine ⟨performHandoff_ship, ?_⟩
  have hlist : assemble (shipRecord ++ [(askedTurn 1 "and then?", none)].map
      fun t => .regular t.1 t.2) 32768 defaultLab =
        [message "user" "and then?", message "assistant" "ok"] := by rfl
  rw [hlist]
  rintro ⟨m, hm, content, hcontent, hinfix⟩
  have hcases : content = "and then?" ∨ content = "ok" := by
    simp only [List.mem_cons, List.not_mem_nil, or_false] at hm
    rcases hm with rfl | rfl
    · exact .inl (Option.some.inj (hcontent.symm.trans (contentOf_message _ _)))
    · exact .inr (Option.some.inj (hcontent.symm.trans (contentOf_message _ _)))
  rcases hcases with rfl | rfl
  · exact absurd hinfix (by decide +kernel)
  · exact absurd hinfix (by decide +kernel)

end Veronex
