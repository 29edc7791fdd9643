import Veronex.Conversation.Handoffs

/-! # What a compressed turn counts for

`count_record_tokens` counts a turn for a handoff, `try_compress` attaches a summary of its prompt and
its result, and `assemble` sends one or the other.

`compression_counted_iff`: when a record counts for no more with the summary, and the turn for what is
sent of it.
-/
namespace Veronex
set_option autoImplicit false

section Attached
variable {front back : ConversationRecord} {turn : TurnRecord} {prior : Option CompressedTurn}
  {c : CompressedTurn} {lab : LabSettings}

/-- What the prompt or its compression counts for. -/
def promptTokens (turn : TurnRecord) (compressed : Option CompressedTurn) : ℕ :=
  compressed.elim (estimateTokens turn.prompt % 2 ^ 32) CompressedTurn.compressedTokens

def resultTokens (turn : TurnRecord) : ℕ :=
  turn.result.elim 0 fun result => estimateTokens (String.ofList result) % 2 ^ 32

/-- The turn is sent as it is. -/
def sentVerbatim (lab : LabSettings) (front back : ConversationRecord) : Bool :=
  (regularTurns front).length + 1 + (regularTurns back).length - lab.window ≤
    (regularTurns front).length

/-- What `assemble` makes of the turn, in tokens. -/
def sentTokens (lab : LabSettings) (front back : ConversationRecord) (turn : TurnRecord)
    (compressed : Option CompressedTurn) : ℕ :=
  estimateTokensMsgs (turnMessages (sentVerbatim lab front back) (turn, compressed))

/-- The sum of a record, before it is taken in `u32`. -/
def recordTokens (record : ConversationRecord) : ℕ := ((regularTurns record).map turnTokens).sum

theorem turnTokens_eq (turn : TurnRecord) (compressed : Option CompressedTurn) :
    turnTokens (turn, compressed) = promptTokens turn compressed + resultTokens turn := by
  unfold turnTokens promptTokens resultTokens
  cases compressed with
  | none =>
    cases turn.result with
    | none => rfl
    | some result => rfl
  | some c =>
    cases turn.result with
    | none => rfl
    | some result => rfl

theorem recordTokens_split (front back : ConversationRecord) (turn : TurnRecord)
    (compressed : Option CompressedTurn) :
    recordTokens (front ++ .regular turn compressed :: back) =
      recordTokens front + (promptTokens turn compressed + resultTokens turn) +
        recordTokens back := by
  simp only [recordTokens, regularTurns_append, regularTurns, List.map_append, List.map_cons,
    List.sum_append, List.sum_cons, turnTokens_eq]
  omega

/-- The compressor attaches the summary to the first turn of the job. -/
theorem setCompressed_split {jobId : Uuid} {record : ConversationRecord}
    (h : findTurn jobId record = some (turn, prior)) : ∃ front back,
      record = front ++ .regular turn prior :: back ∧
        setCompressed jobId c record = front ++ .regular turn (some c) :: back := by
  induction record with
  | nil => simp [findTurn] at h
  | cons t record ih =>
    cases t with
    | handoff t =>
      obtain ⟨front, back, hrecord, hset⟩ := ih h
      refine ⟨.handoff t :: front, back, by rw [hrecord, List.cons_append], ?_⟩
      rw [setCompressed, hset, List.cons_append]
    | regular t compressed =>
      rw [findTurn] at h
      by_cases hjob : t.jobId = jobId
      · rw [if_pos hjob] at h
        obtain ⟨rfl, rfl⟩ := Prod.mk.inj (Option.some.inj h)
        refine ⟨[], record, rfl, ?_⟩
        rw [setCompressed, if_pos hjob, List.nil_append]
      · rw [if_neg hjob] at h
        obtain ⟨front, back, hrecord, hset⟩ := ih h
        refine ⟨.regular t compressed :: front, back, by rw [hrecord, List.cons_append], ?_⟩
        rw [setCompressed, if_neg hjob, hset, List.cons_append]

/-- What `assemble` makes of the turn is sent in its place. -/
theorem historyMessages_split (lab : LabSettings) (front back : ConversationRecord)
    (turn : TurnRecord) (compressed : Option CompressedTurn) : ∃ before after,
      historyMessages lab (regularTurns (front ++ .regular turn compressed :: back)) =
        before ++ turnMessages (sentVerbatim lab front back) (turn, compressed) ++ after := by
  have hlength : (regularTurns (front ++ .regular turn compressed :: back)).length =
      (regularTurns front).length + 1 + (regularTurns back).length := by
    rw [regularTurns_append, regularTurns, List.length_append, List.length_cons]
    omega
  unfold historyMessages
  rw [hlength, regularTurns_append, regularTurns, List.zipIdx_append, List.zipIdx_cons,
    List.flatMap_append, List.flatMap_cons, Nat.zero_add]
  exact ⟨_, _, (List.append_assoc ..).symm⟩

/-! ## The counts -/

/-- The summary makes the record count for no more, starts no handoff, and counts for what is sent. -/
structure CompressionCounted (lab : LabSettings) (front back : ConversationRecord)
    (turn : TurnRecord) (prior : Option CompressedTurn) (c : CompressedTurn) : Prop where
  notMore : countRecordTokens (front ++ .regular turn (some c) :: back) ≤
    countRecordTokens (front ++ .regular turn prior :: back)
  noHandoff : ∀ (ctx : ℕ) (lab' : LabSettings),
    shouldHandoff (front ++ .regular turn prior :: back) ctx lab' = false →
      shouldHandoff (front ++ .regular turn (some c) :: back) ctx lab' = false
  asSent : turnTokens (turn, some c) = sentTokens lab front back turn (some c)

/-- Sums that differ by less than 2^32 are in order in `u32` exactly if they are so before, or if
only the larger one wraps. -/
theorem mod_le_mod_iff {a b rest : ℕ} (ha : a < 2 ^ 32) (hb : b < 2 ^ 32) :
    (rest + a) % 2 ^ 32 ≤ (rest + b) % 2 ^ 32 ↔
      (a ≤ b ↔ (rest + a) / 2 ^ 32 = (rest + b) / 2 ^ 32) := by
  by_cases hab : a ≤ b
  · simp only [hab, true_iff]
    omega
  · simp only [hab, false_iff]
    omega

theorem promptTokens_lt (hprior : ∀ c' ∈ prior, c'.compressedTokens < 2 ^ 32) :
    promptTokens turn prior < 2 ^ 32 := by
  cases prior with
  | none => exact Nat.mod_lt _ (by decide)
  | some c' => exact hprior c' rfl

theorem sentTokens_some (lab : LabSettings) (front back : ConversationRecord) (turn : TurnRecord)
    (c : CompressedTurn) :
    sentTokens lab front back turn (some c) =
      if sentVerbatim lab front back then
        estimateTokens turn.prompt +
          turn.result.elim 0 fun result => estimateTokens (String.ofList result)
      else estimateTokens c.summary := by
  unfold sentTokens
  cases sentVerbatim lab front back with
  | false => simp [turnMessages, estimateTokensMsgs]
  | true =>
    cases hresult : turn.result with
    | none => simp [turnMessages, rawMessages, estimateTokensMsgs, hresult]
    | some result => simp [turnMessages, rawMessages, estimateTokensMsgs, hresult]

/-- The summary is counted in the place of the prompt alone: it must not be longer than the prompt,
and with the result it must come to what is sent. -/
theorem compression_counted_iff (lab : LabSettings) (front back : ConversationRecord)
    (turn : TurnRecord) (prior : Option CompressedTurn) (c : CompressedTurn)
    (hc : c.compressedTokens < 2 ^ 32) (hprior : ∀ c' ∈ prior, c'.compressedTokens < 2 ^ 32) :
    CompressionCounted lab front back turn prior c ↔
      (c.compressedTokens ≤ promptTokens turn prior ↔
        recordTokens (front ++ .regular turn (some c) :: back) / 2 ^ 32 =
          recordTokens (front ++ .regular turn prior :: back) / 2 ^ 32) ∧
      c.compressedTokens + resultTokens turn =
        if sentVerbatim lab front back then
          estimateTokens turn.prompt +
            turn.result.elim 0 fun result => estimateTokens (String.ofList result)
        else estimateTokens c.summary := by
  have hrest : ∀ compressed : Option CompressedTurn,
      recordTokens (front ++ .regular turn compressed :: back) =
        recordTokens front + resultTokens turn + recordTokens back +
          promptTokens turn compressed := by
    intro compressed
    rw [recordTokens_split]
    omega
  have hnotMore : countRecordTokens (front ++ .regular turn (some c) :: back) ≤
      countRecordTokens (front ++ .regular turn prior :: back) ↔
        (c.compressedTokens ≤ promptTokens turn prior ↔
          recordTokens (front ++ .regular turn (some c) :: back) / 2 ^ 32 =
            recordTokens (front ++ .regular turn prior :: back) / 2 ^ 32) := by
    show recordTokens _ % 2 ^ 32 ≤ recordTokens _ % 2 ^ 32 ↔ _
    rw [hrest, hrest]
    exact mod_le_mod_iff hc (promptTokens_lt hprior)
  rw [← hnotMore, ← sentTokens_some lab front back turn c]
  constructor
  · intro h
    have hsent := h.asSent
    rw [turnTokens_eq] at hsent
    exact ⟨h.notMore, hsent⟩
  · rintro ⟨hle, hsent⟩
    refine ⟨hle, fun ctx lab' hbefore => ?_, ?_⟩
    · simp only [shouldHandoff, Bool.and_eq_false_iff, decide_eq_false_iff_not] at hbefore ⊢
      rcases hbefore with hoff | hbelow
      · exact .inl hoff
      · exact .inr (by omega)
    · rw [turnTokens_eq]
      exact hsent

end Attached

/-! ## Two turns -/

def turnOf (prompt : String) (result : Option String) : TurnRecord :=
  { jobId := 1, prompt, messages := none, toolCalls := none, result := result.map String.toList
    modelName := some "m", createdAt := 0, visionAnalysis := none }

/-- A summary of one token, of two. -/
def halved : CompressedTurn :=
  { summary := "abcd", originalTokens := 2, compressedTokens := 1, compressionModel := "m" }

/-- Every turn may be sent compressed; three tokens start a handoff. -/
def threeTokens : LabSettings :=
  { compressionModel := none, contextBudget := id, recentVerbatimWindow := 0, handoffEnabled := true
    handoffThreshold := fun _ => 3 }

/-- A turn without a result. -/
theorem unanswered_turn_counted :
    CompressionCounted threeTokens [] [] (turnOf "abcdefgh" none) none halved := by
  refine (compression_counted_iff threeTokens [] [] (turnOf "abcdefgh" none) none halved
    (by decide) (by simp)).mpr ⟨?_, ?_⟩
  · decide +kernel
  · decide +kernel

/-- The result of a compressed turn is counted beside the summary of it: two tokens become three. -/
theorem summary_starts_handoff :
    ¬ ∀ (lab : LabSettings) (front back : ConversationRecord) (turn : TurnRecord)
      (c : CompressedTurn), c.compressedTokens < 2 ^ 32 → c.compressedTokens ≤ c.originalTokens →
      CompressionCounted lab front back turn none c := by
  intro hall
  have hcounted := hall threeTokens [] [] (turnOf "hi" (some "abcdefgh")) halved (by decide)
    (by decide)
  have hafter := hcounted.noHandoff 1 threeTokens (by decide +kernel)
  revert hafter
  decide +kernel

end Veronex
