import Veronex.Telemetry.Columns
import Veronex.Telemetry.Consumer

/-! # Rows below a committed offset

An insert that is answered with a status of 400 to 499 has its whole buffer discarded, and the flush
goes on to the commit. No row is lost exactly as long as such an answer only meets rows that ClickHouse
cannot take anyway, or has taken already (`Spares`).
-/
namespace Veronex.Telemetry
set_option autoImplicit false
open Blocks Concurrency

namespace TableState
variable {s : TableState} {r : Reply} {row : Row} {rows : List Row} {insertable : Json → Prop}

/-- The row is accepted, or cannot be inserted. -/
def Settles (insertable : Json → Prop) (s : TableState) (row : Row) : Prop :=
  row ∈ s.accepted ∨ ¬ insertable row.value

/-- No row is discarded that could still be inserted. -/
def Kept (insertable : Json → Prop) (s : TableState) : Prop :=
  ∀ row ∈ s.parsed, row ∈ s.buffer ∨ s.Settles insertable row

theorem Settles.tryInsert (h : s.Settles insertable row) :
    (s.tryInsert r).Settles insertable row := by
  refine h.imp_left fun hrow => ?_
  rcases tryInsert_cases s r with heq | ⟨heq, -⟩ | ⟨-, heq⟩
  · rw [heq]
    exact hrow
  · rw [heq]
    exact hrow
  · rw [heq]
    exact List.mem_append_left _ hrow

theorem tryInsert_parsed (s : TableState) (r : Reply) : (s.tryInsert r).parsed = s.parsed := by
  rcases tryInsert_cases s r with heq | ⟨heq, -⟩ | ⟨-, heq⟩
  · rw [heq]
  · rw [heq]
    rfl
  · rw [heq]

theorem Kept.extend (h : s.Kept insertable) : (s.extend rows).Kept insertable := by
  intro row hrow
  rcases List.mem_append.mp hrow with hrow | hrow
  · exact (h row hrow).imp_left fun hbuffer => List.mem_append_left _ hbuffer
  · exact .inl (List.mem_append_right _ hrow)

/-- An insert discards nothing if the rows that are answered as bad data are settled. -/
theorem Kept.tryInsert (h : s.Kept insertable)
    (hspared : r.result = .badData → ∀ row ∈ s.buffer, s.Settles insertable row) :
    (s.tryInsert r).Kept insertable := by
  intro row hrow
  rw [tryInsert_parsed] at hrow
  rcases h row hrow with hbuffer | hsettled
  · rcases tryInsert_cases s r with heq | ⟨heq, hbad⟩ | ⟨-, heq⟩
    · rw [heq]
      exact .inl hbuffer
    · exact .inr (hspared hbad row hbuffer).tryInsert
    · rw [heq]
      exact .inl hbuffer
  · exact .inr hsettled.tryInsert

/-- Where the flush goes on, what was buffered is accepted or was answered as bad data. -/
theorem settles_of_goesOn (hgo : s.GoesOn r) (hrow : row ∈ s.buffer)
    (hspared : r.result = .badData → s.Settles insertable row) :
    (s.tryInsert r).Settles insertable row := by
  cases hresult : r.result with
  | badData => exact (hspared hresult).tryInsert
  | transient =>
    rcases hgo with hempty | hgo
    · simp [hempty] at hrow
    · exact absurd hresult hgo
  | ok =>
    have haccepts := Reply.accepts_of_ok hresult
    have hne : ¬ s.buffer.isEmpty := fun hempty => by
      rw [List.isEmpty_iff] at hempty
      simp [hempty] at hrow
    have hstate : (s.tryInsert r).accepted = s.accepted ++ s.buffer := by
      rw [TableState.tryInsert, if_neg hne, hresult]
      simp [deliver, haccepts]
    exact .inl (hstate ▸ List.mem_append_right _ hrow)

end TableState

namespace Consumer
variable {floats : Floats} {w w' : Consumer} {a : Action} {replies : Table → Reply}
  {insertable : Table → Json → Prop}

structure NothingLost (insertable : Table → Json → Prop) (w : Consumer) : Prop where
  /-- The rows below a committed offset are accepted, or cannot be inserted. -/
  committed : ∀ t, ∀ row ∈ (w.tables t).parsed, ∀ offset,
    w.committed row.origin.source = some offset → row.origin.offset < offset →
      (w.tables t).Settles (insertable t) row
  /-- No row is discarded because of another one, or of an answer that is not about the data. -/
  kept : ∀ t, (w.tables t).Kept (insertable t)

/-- A buffer that is answered with a status of 400 to 499 has no row that could be inserted and is not
accepted yet. -/
def Spares (insertable : Table → Json → Prop) (w : Consumer) (a : Action) : Prop :=
  ∀ replies, a.Flushes w replies → ∀ t, Reached replies Table.all w.tables t →
    (replies t).result = .badData →
      ∀ row ∈ (w.tables t).buffer, (w.tables t).Settles (insertable t) row

/-- Offsets are pending or committed only behind messages that have come. -/
def Behind (w : Consumer) : Prop :=
  ∀ p offset, w.pending p = some offset ∨ w.committed p = some offset → offset ≤ w.position p

theorem behind_init : init.Behind := fun p offset h => by simp [init] at h

theorem step_behind (h : w.Behind) (hs : w.step floats a = some w') : w'.Behind := by
  rcases step_cases hs with ⟨m, rfl, -, -, hposition, rfl⟩ | ⟨replies, full, stopped, -, rfl⟩ |
    ⟨-, full, stopped, rfl⟩
  · intro p offset hp
    simp only [receive] at hp ⊢
    by_cases hsource : p = m.source
    · subst hsource
      rw [Function.update_self] at hp ⊢
      rcases hp with hp | hp
      · cases hp
        exact le_rfl
      · exact (h m.source offset (.inr hp)).trans (hposition.trans (Nat.le_succ _))
    · rw [Function.update_of_ne hsource] at hp ⊢
      exact h p offset hp
  · intro p offset hp
    change offset ≤ (w.flush replies).position p
    rw [flush_position]
    rcases flush_cases w replies with ⟨-, heq⟩ | ⟨tables, heq, -⟩
    · rw [heq] at hp
      have hor : (w.pending p).or (w.committed p) = some offset := by simpa [commit] using hp
      rcases Option.or_eq_some_iff.mp hor with hpending | ⟨-, hcommitted⟩
      · exact h p offset (.inl hpending)
      · exact h p offset (.inr hcommitted)
    · rw [heq] at hp
      exact h p offset hp
  · exact h

theorem nothingLost_init : init.NothingLost insertable :=
  ⟨fun t row hrow => by simp [init, TableState.empty] at hrow,
    fun t row hrow => by simp [init, TableState.empty] at hrow⟩

theorem receive_nothingLost (hbehind : w.Behind) (h : w.NothingLost insertable) {m : Message}
    (hposition : w.position m.source ≤ m.offset) :
    (w.receive floats m).NothingLost insertable := by
  refine ⟨fun t row hrow offset hcommitted hlt => ?_, fun t => (h.kept t).extend⟩
  rcases List.mem_append.mp hrow with hrow | hrow
  · exact h.committed t row hrow offset hcommitted hlt
  · obtain ⟨hsource, hoffset⟩ := Message.origin_of_mem hrow
    have hle := hbehind row.origin.source offset (.inr hcommitted)
    rw [hsource] at hle
    omega

theorem flush_nothingLost (h : w.NothingLost insertable)
    (hspares : ∀ t, Reached replies Table.all w.tables t → (replies t).result = .badData →
      ∀ row ∈ (w.tables t).buffer, (w.tables t).Settles (insertable t) row) :
    (w.flush replies).NothingLost insertable := by
  rcases flush_cases w replies with ⟨hgo, heq⟩ | ⟨tables, heq, hreached, hrest⟩
  · have hsettles : ∀ t, ∀ row ∈ (w.tables t).parsed,
        ((w.tables t).tryInsert (replies t)).Settles (insertable t) row := by
      intro t row hrow
      rcases h.kept t row hrow with hbuffer | hsettled
      · exact TableState.settles_of_goesOn (hgo t) hbuffer fun hbad =>
          hspares t ⟨mem_all t, fun t' _ => hgo t'⟩ hbad row hbuffer
      · exact hsettled.tryInsert
    have hparsed : ∀ t, ((w.tables t).tryInsert (replies t)).clear.parsed = (w.tables t).parsed :=
      fun t => TableState.tryInsert_parsed ..
    rw [heq]
    exact ⟨fun t row hrow _ _ _ => hsettles t row (hparsed t ▸ hrow),
      fun t row hrow => .inr (hsettles t row (hparsed t ▸ hrow))⟩
  · rw [heq]
    refine ⟨fun t row hrow offset hcommitted hlt => ?_, fun t => ?_⟩
    · change row ∈ (tables t).parsed at hrow
      change (tables t).Settles (insertable t) row
      by_cases ht : Reached replies Table.all w.tables t
      · rw [hreached t ht] at hrow ⊢
        rw [TableState.tryInsert_parsed] at hrow
        exact (h.committed t row hrow offset hcommitted hlt).tryInsert
      · rw [hrest t ht] at hrow ⊢
        exact h.committed t row hrow offset hcommitted hlt
    · change (tables t).Kept (insertable t)
      by_cases ht : Reached replies Table.all w.tables t
      · rw [hreached t ht]
        exact (h.kept t).tryInsert (hspares t ht)
      · rw [hrest t ht]
        exact h.kept t

theorem step_nothingLost (hbehind : w.Behind) (h : w.NothingLost insertable)
    (ha : w.Spares insertable a) (hs : w.step floats a = some w') : w'.NothingLost insertable := by
  rcases step_cases hs with ⟨m, rfl, -, -, hposition, rfl⟩ | ⟨replies, full, stopped, hflush, rfl⟩ |
    ⟨-, full, stopped, rfl⟩
  · exact receive_nothingLost hbehind h hposition
  · have hflushed := flush_nothingLost h (ha replies hflush)
    exact ⟨hflushed.committed, hflushed.kept⟩
  · exact ⟨h.committed, h.kept⟩

/-- A buffer that is discarded is gone, whether or not the flush commits. -/
theorem flush_table_of_badData {t : Table} (ht : Reached replies Table.all w.tables t)
    (hbad : (replies t).result = .badData) :
    (w.flush replies).tables t = (w.tables t).clear := by
  have hclear := TableState.tryInsert_badData (w.tables t) hbad
  rcases flush_cases w replies with ⟨-, heq⟩ | ⟨tables, heq, hreached, -⟩
  · rw [heq]
    change ((w.tables t).tryInsert (replies t)).clear = _
    rw [hclear]
    rfl
  · rw [heq]
    exact (hreached t ht).trans hclear

theorem spares_of_nothingLost (htracked : w.Tracked) (hs : w.step floats a = some w')
    (h : w'.NothingLost insertable) : w.Spares insertable a := by
  intro replies hflush t ht hbad row hrow
  have hparsed := (htracked t).buffered row hrow
  rcases step_cases hs with ⟨m, rfl, -⟩ | ⟨replies', full, stopped, hflush', rfl⟩ | ⟨hnone, -⟩
  · exact absurd hflush id
  · obtain rfl : replies' = replies := by
      cases a with
      | receive m => exact absurd hflush id
      | kafkaError => exact absurd hflush id
      | flush r => exact hflush'.symm.trans hflush
      | tick r => exact hflush'.1.symm.trans hflush.1
      | stop r => exact hflush'.1.symm.trans hflush.1
    have hkept := h.kept t
    change ((w.flush replies').tables t).Kept (insertable t) at hkept
    rw [flush_table_of_badData ht hbad] at hkept
    rcases hkept row hparsed with hbuffer | hsettles
    · exact absurd hbuffer List.not_mem_nil
    · exact hsettles
  · exact absurd hflush (hnone replies)

/-- Nothing is lost as long as every step spares the rows that can be inserted, and the first step
that does not loses some. -/
theorem nothing_lost (h : Run (step floats) (Spares insertable) init w) :
    w.NothingLost insertable ∧ ∀ a w', w.step floats a = some w' →
      (w'.NothingLost insertable ↔ w.Spares insertable a) := by
  have hkept : w.Behind ∧ w.NothingLost insertable :=
    h.invariant (I := fun w => w.Behind ∧ w.NothingLost insertable)
      ⟨behind_init, nothingLost_init⟩ fun _ _ _ _ hx ha hs =>
        ⟨step_behind hx.1 hs, step_nothingLost hx.1 hx.2 ha hs⟩
  exact ⟨hkept.2, fun a w' hs => ⟨spares_of_nothingLost (run_tracked h) hs,
    fun ha => step_nothingLost hkept.1 hkept.2 ha hs⟩⟩

/-! ## Two rows -/

/-- The columns of the event tables take the row. -/
def columnsTake : Table → Json → Bool
  | .inferenceLogs, v => (readRow .inferenceLogs v).isSome
  | .auditEvents, v => (readRow .auditEvents v).isSome
  | .mcpToolCalls, v => (readRow .mcpToolCalls v).isSome
  | _, _ => true

/-- A row below a committed offset that its table would take, but never accepted. -/
def losesRow (w : Consumer) (t : Table) : Bool :=
  (w.tables t).parsed.any fun row =>
    columnsTake t row.value && decide (row.origin ∉ (w.tables t).accepted.map Row.origin) &&
      (w.committed row.origin.source).any fun offset => decide (row.origin.offset < offset)

theorem not_nothingLost_of_losesRow {t : Table} (h : w.losesRow t = true) :
    ¬ w.NothingLost fun t v => columnsTake t v = true := by
  intro hlost
  simp only [losesRow, List.any_eq_true, Bool.and_eq_true, decide_eq_true_eq] at h
  obtain ⟨row, hrow, ⟨htakes, haccepted⟩, hcommitted⟩ := h
  cases hoffset : w.committed row.origin.source with
  | none => simp [hoffset] at hcommitted
  | some offset =>
    have hlt : row.origin.offset < offset := by simpa [hoffset] using hcommitted
    rcases hlost.committed t row hrow offset hoffset hlt with hmem | hno
    · exact haccepted (List.mem_map_of_mem hmem)
    · exact hno htakes

/-- A completion, as it is sent. -/
def completionAt (offset : ℕ) (apiKeyId : Option EventId) : Action :=
  .receive ⟨"otel.audit.logs", 0, offset, some ⟨some (emit
    ⟨"inference.completed", 1712345678123456789, inferenceAttributes
      { eventTime := 1712345678123456789, requestId := 0x2a#128, apiKeyId, tenantId := "acme"
        modelName := "llama3.2", providerType := "ollama", promptTokens := 10
        completionTokens := 20, latencyMs := 150, finishReason := "stop", status := "success"
        errorMsg := none }⟩ "1712345678200000000"), none⟩⟩

/-- The insert into `inference_logs` is answered with this status, the others go through. -/
def inferenceAnswer (code : ℕ) : Table → Reply
  | .inferenceLogs => .status code
  | _ => .status 200

/-- A row without a key, and one that the table would take. -/
def mixedBatch : List Action :=
  [completionAt 0 none, completionAt 1 (some 7#128), .tick (inferenceAnswer 400)]

/-- ClickHouse has too many requests. -/
def tooManyRequests : List Action :=
  [completionAt 0 (some 7#128), .tick (inferenceAnswer 429)]

theorem exists_lost {actions : List Action}
    (h : (exec (step ⟨id, id⟩) (fun _ _ => true) init actions).any
      (fun w => w.losesRow .inferenceLogs) = true) :
    ∃ w, exec (step ⟨id, id⟩) (fun _ _ => true) init actions = some w ∧
      ¬ w.NothingLost fun t v => columnsTake t v = true := by
  cases hexec : exec (step ⟨id, id⟩) (fun _ _ => true) init actions with
  | none => simp [hexec] at h
  | some w => exact ⟨w, rfl, not_nothingLost_of_losesRow (by simpa [hexec] using h)⟩

/-- A row without a key takes the row after it along, and a row is lost to an answer of 429; both are
below the offset that is committed. -/
theorem completions_lost :
    (∃ w, exec (step ⟨id, id⟩) (fun _ _ => true) init mixedBatch = some w ∧
      ¬ w.NothingLost fun t v => columnsTake t v = true) ∧
    ∃ w, exec (step ⟨id, id⟩) (fun _ _ => true) init tooManyRequests = some w ∧
      ¬ w.NothingLost fun t v => columnsTake t v = true :=
  ⟨exists_lost (by decide +kernel), exists_lost (by decide +kernel)⟩

/-- No table that would take a row of its buffer answers with bad data. -/
def sparesTaken (w : Consumer) : Action → Bool
  | .receive _ | .kafkaError => true
  | .flush replies | .tick replies | .stop replies => Table.all.all fun t =>
      decide ((replies t).result ≠ .badData) ||
        (w.tables t).buffer.all fun row => !columnsTake t row.value

theorem spares_of_sparesTaken (h : w.sparesTaken a = true) :
    w.Spares (fun t v => columnsTake t v = true) a := by
  intro replies hflush t _ hbad row hrow
  have hall : (Table.all.all fun t => decide ((replies t).result ≠ .badData) ||
      (w.tables t).buffer.all fun row => !columnsTake t row.value) = true := by
    cases a with
    | receive m => exact absurd hflush id
    | kafkaError => exact absurd hflush id
    | flush r => exact hflush ▸ h
    | tick r => exact hflush.1 ▸ h
    | stop r => exact hflush.1 ▸ h
  have ht := List.all_eq_true.mp hall t (mem_all t)
  simp only [hbad, ne_eq, not_true_eq_false, decide_false, Bool.false_or, List.all_eq_true,
    Bool.not_eq_eq_eq_not, Bool.not_true] at ht
  exact .inr (by simp [ht row hrow])

/-- A row that nothing could be done about is discarded alone. -/
theorem completions_kept : ∃ w,
    Run (step ⟨id, id⟩) (Spares fun t v => columnsTake t v = true) init w ∧
    ((w.tables .inferenceLogs).accepted.length = 1 ∧
      (w.tables .inferenceLogs).parsed.length = 2) ∧
    w.NothingLost (fun t v => columnsTake t v = true) := by
  have hexec : (exec (step ⟨id, id⟩) sparesTaken init
      [completionAt 0 none, .tick (inferenceAnswer 400), completionAt 1 (some 7#128),
        .tick (inferenceAnswer 503), .tick (inferenceAnswer 200)]).any
      (fun w => decide ((w.tables .inferenceLogs).accepted.length = 1 ∧
        (w.tables .inferenceLogs).parsed.length = 2)) = true := by
    decide +kernel
  obtain ⟨w, hrun, hlength⟩ := Run.exists_of_exec (fun _ _ h => spares_of_sparesTaken h) hexec
  exact ⟨w, hrun, of_decide_eq_true hlength, (nothing_lost hrun).1⟩

end Consumer

end Veronex.Telemetry
