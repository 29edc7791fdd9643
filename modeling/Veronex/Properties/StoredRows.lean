import Veronex.Foundation.Trace
import Veronex.Telemetry.Consumer

/-! # Rows stored twice

A flush that stops at a table leaves the buffers before it as they are, although ClickHouse has stored
them. A retry of the same block is ignored; a retry with more rows stores the old ones once more. Rows
are stored once exactly as long as no row is added to a buffer that is stored (`Undisturbed`).
-/
namespace Veronex.Telemetry
set_option autoImplicit false
open Blocks Concurrency

namespace TableState
variable {s : TableState} {r : Reply} {position : Partition → ℕ} {rows : List Row}

/-- The origins of the rows that are stored. -/
def storedOrigins (s : TableState) : List Origin := s.store.keys Row.origin

structure Once (s : TableState) : Prop where
  stored : s.storedOrigins.Nodup
  buffered : (s.buffer.map Row.origin).Nodup
  settled : s.store.Settled blockText Row.origin s.buffer

theorem once_empty : empty.Once :=
  ⟨List.nodup_nil, List.nodup_nil, BlockStore.settled_nil⟩

theorem Once.clear (h : s.Once) : s.clear.Once :=
  ⟨h.stored, List.nodup_nil, BlockStore.settled_nil⟩

theorem Once.tryInsert (h : s.Once) : (s.tryInsert r).Once := by
  rcases tryInsert_cases s r with heq | ⟨heq, -⟩ | ⟨-, heq⟩
  · rw [heq]
    exact h
  · rw [heq]
    exact h.clear
  · rw [heq]
    exact ⟨BlockStore.nodup_insert h.stored h.buffered h.settled, h.buffered,
      BlockStore.settled_insert⟩

theorem Tracked.origin_notMem (h : s.Tracked position) {o : Origin}
    (ho : position o.source ≤ o.offset) : o ∉ s.parsed.map Row.origin := by
  intro hmem
  obtain ⟨row, hrow, rfl⟩ := List.mem_map.mp hmem
  exact absurd (h.past row hrow) (Nat.not_lt.mpr ho)

/-- Rows of the next message. -/
theorem Once.extend (h : s.Once) (ht : s.Tracked position)
    (hnext : ∀ row ∈ rows, position row.origin.source ≤ row.origin.offset)
    (hrows : (rows.map Row.origin).Nodup)
    (hsettled : rows ≠ [] → s.store.Settled blockText Row.origin (s.buffer ++ rows)) :
    (s.extend rows).Once := by
  refine ⟨h.stored, ?_, ?_⟩
  · change ((s.buffer ++ rows).map Row.origin).Nodup
    rw [List.map_append, List.nodup_append]
    refine ⟨h.buffered, hrows, fun a ha b hb heq => ?_⟩
    obtain ⟨old, hold, rfl⟩ := List.mem_map.mp ha
    obtain ⟨new, hnew, rfl⟩ := List.mem_map.mp hb
    have hfresh := ht.origin_notMem (hnext new hnew)
    exact hfresh (heq ▸ List.mem_map_of_mem (ht.buffered old hold))
  · by_cases hnil : rows = []
    · subst hnil
      change s.store.Settled blockText Row.origin (s.buffer ++ [])
      rw [List.append_nil]
      exact h.settled
    · exact hsettled hnil

/-- An accepted insert of rows of which one is stored, in a block that is new. -/
theorem not_nodup_tryInsert (h : ¬ s.store.Settled blockText Row.origin s.buffer) :
    ¬ (s.tryInsert (.status 200)).storedOrigins.Nodup := by
  have hne : ¬ s.buffer.isEmpty := by
    intro hempty
    rw [List.isEmpty_iff] at hempty
    rw [hempty] at h
    exact h BlockStore.settled_nil
  have hstore : (s.tryInsert (.status 200)).store = s.store.insert blockText s.buffer := by
    rw [tryInsert, if_neg hne]
    rfl
  rw [BlockStore.Settled, not_or] at h
  obtain ⟨hnew, hstored⟩ := h
  push Not at hstored
  obtain ⟨row, hrow, hmem⟩ := hstored
  rw [storedOrigins, hstore]
  exact BlockStore.not_nodup_insert hnew hrow hmem

end TableState

namespace Consumer
variable {floats : Floats} {w w' : Consumer} {a : Action}

/-- Each parsed row is stored at most once in its table. -/
def AtMostOnce (w : Consumer) : Prop := ∀ t, (w.tables t).storedOrigins.Nodup

/-- A message adds rows to a buffer only if none of its rows is stored yet, or if the block they make
is one that was accepted before. -/
def Undisturbed (floats : Floats) (w : Consumer) : Action → Prop
  | .receive m => ∀ t, m.rows floats t ≠ [] →
      (w.tables t).store.Settled blockText Row.origin ((w.tables t).buffer ++ m.rows floats t)
  | _ => True

instance : Decidable (w.Undisturbed floats a) :=
  match a with
  | .receive m => decidable_of_iff (∀ t ∈ Table.all, m.rows floats t ≠ [] →
      (w.tables t).store.Settled blockText Row.origin ((w.tables t).buffer ++ m.rows floats t))
      ⟨fun h t => h t (mem_all t), fun h t _ => h t⟩
  | .kafkaError | .flush _ | .tick _ | .stop _ => .isTrue trivial

theorem step_once (ht : w.Tracked) (h : ∀ t, (w.tables t).Once) (ha : w.Undisturbed floats a)
    (hs : w.step floats a = some w') (t : Table) : (w'.tables t).Once := by
  rcases step_cases hs with ⟨m, rfl, -, -, hposition, rfl⟩ | ⟨replies, full, stopped, -, rfl⟩ |
    ⟨-, full, stopped, rfl⟩
  · refine (h t).extend (ht t) (fun row hrow => ?_) (m.origins_nodup floats t) (ha t)
    obtain ⟨hsource, hoffset⟩ := Message.origin_of_mem hrow
    rw [hsource, hoffset]
    exact hposition
  · exact flush_tables (fun _ _ hs => hs.tryInsert) (fun _ hs => hs.clear) h t
  · exact h t

theorem run_once (h : Run (step floats) (Undisturbed floats) init w) (t : Table) :
    (w.tables t).Once := by
  refine h.invariant (fun _ => TableState.once_empty) (I := fun w => ∀ t, (w.tables t).Once) ?_ t
  exact fun x y b hx honce hb hs => step_once (run_tracked hx) honce hb hs

end Consumer

/-! ## Blocks that have grown -/

/-- The table whose rows the loop counts when a row is added to the other table. -/
def Table.counted : Table → Table
  | .otelMetricsGauge => .otelMetricsGauge
  | .otelTracesRaw => .otelTracesRaw
  | _ => .otelLogs

/-- Every record has its log row. -/
theorem Logs.rowsOf_counted {floats : Floats} {root : Json} {t : Table} :
    (Logs.rowsOf floats root).values t ≠ [] → (Logs.rowsOf floats root).values t.counted ≠ [] := by
  let Counted (out : LogRows) : Prop := out.values t ≠ [] → out.values t.counted ≠ []
  have hrecord : ∀ (out : LogRows) service lr,
      Counted (out.extend (recordRows floats service lr)) := by
    intro out service lr
    have hlog : (recordRows floats service lr).otelLogs ≠ [] := by
      unfold recordRows
      dsimp only
      split_ifs <;> exact List.cons_ne_nil _ _
    cases t <;> simp [Counted, LogRows.values, LogRows.extend, Table.counted, hlog]
  have hempty : Counted .empty := by
    cases t <;> exact fun h => absurd rfl h
  refine foldl_invariant (I := Counted) hempty (fun out rm hout => ?_) _
  refine foldl_invariant (I := Counted) hout (fun out sl hout => ?_) _
  exact foldl_invariant (I := Counted) hout (fun out lr _ => hrecord out _ lr) _

theorem Message.values_counted {floats : Floats} {m : Message} {t : Table}
    (h : m.values floats t ≠ []) : m.values floats t.counted ≠ [] := by
  unfold values at h ⊢
  cases hpayload : m.payload with
  | none => simp [hpayload] at h
  | some payload =>
    simp only [hpayload] at h ⊢
    by_cases hlogs : m.topic = "otel.audit.logs"
    · rw [if_pos hlogs] at h ⊢
      cases hjson : payload.json with
      | none => simp [Logs.parse, hjson] at h
      | some root =>
        simp only [Logs.parse, hjson, Option.map_some, Option.getD_some] at h ⊢
        exact Logs.rowsOf_counted h
    · rw [if_neg hlogs] at h ⊢
      cases t with
      | otelMetricsGauge | otelTracesRaw => exact h
      | otelLogs | inferenceLogs | auditEvents | mcpToolCalls =>
        by_cases hmetrics : m.topic = "otel.audit.metrics" <;> simp [hmetrics] at h

theorem Message.rows_counted {floats : Floats} {m : Message} {t : Table}
    (h : m.rows floats t ≠ []) : m.rows floats t.counted ≠ [] := by
  rw [rows, ne_eq, List.mapIdx_eq_nil_iff] at h ⊢
  exact values_counted h

namespace Consumer
variable {floats : Floats} {w w' : Consumer} {a : Action} {t : Table} {m : Message}

theorem length_counted_le_total (w : Consumer) (t : Table) :
    (w.tables t.counted).buffer.length ≤ w.total := by
  cases t <;> simp only [Table.counted, total] <;> omega

/-- A flush that goes through stores a row once more where the block has grown. -/
theorem flush_not_atMostOnce
    (h : ¬ (w.tables t).store.Settled blockText Row.origin (w.tables t).buffer) :
    ¬ (w.flush fun _ => .status 200).AtMostOnce := by
  have hgo : ∀ t, (w.tables t).GoesOn (.status 200) := fun _ => .inr (by decide)
  have htwice := TableState.not_nodup_tryInsert h
  intro honce
  have ht := honce t
  rcases flush_cases w fun _ => .status 200 with ⟨-, heq⟩ | ⟨tables, heq, hreached, -⟩
  · rw [heq] at ht
    exact htwice ht
  · rw [heq] at ht
    change (tables t).storedOrigins.Nodup at ht
    rw [hreached t ⟨mem_all t, fun t' _ => hgo t'⟩] at ht
    exact htwice ht

/-- A message that disturbs a stored buffer has its rows stored again by the next flush. -/
theorem exists_stored_twice (ha : ¬ w.Undisturbed floats a) (hs : w.step floats a = some w') :
    ∃ w'', Run (step floats) (Undisturbed floats) w' w'' ∧ ¬ w''.AtMostOnce := by
  cases a with
  | receive m =>
    obtain ⟨hstopped, -, -, rfl⟩ := step_receive hs
    simp only [Undisturbed, not_forall] at ha
    obtain ⟨t, hrows, hunsettled⟩ := ha
    have htwice := flush_not_atMostOnce (w := w.receive floats m) (t := t) hunsettled
    cases hfull : (w.receive floats m).full with
    | true =>
      have hs' : (w.receive floats m).step floats (.flush fun _ => .status 200) =
          some { (w.receive floats m).flush (fun _ => .status 200) with full := false } := by
        simp [step, hfull]
      exact ⟨_, .single (a := .flush fun _ => .status 200) trivial hs', htwice⟩
    | false =>
      have hlive : (w.receive floats m).stopped = false := hstopped
      have htotal : 0 < (w.receive floats m).total := by
        have hle := length_counted_le_total (w.receive floats m) t
        have hpos := List.length_pos_of_ne_nil (Message.rows_counted hrows)
        change ((w.tables t.counted).buffer ++ m.rows floats t.counted).length ≤ _ at hle
        rw [List.length_append] at hle
        omega
      have hs' : (w.receive floats m).step floats (.tick fun _ => .status 200) =
          some ((w.receive floats m).flush fun _ => .status 200) := by
        simp [step, hlive, hfull, flushSome, htotal]
      exact ⟨_, .single (a := .tick fun _ => .status 200) trivial hs', htwice⟩
  | kafkaError => exact absurd trivial ha
  | flush replies => exact absurd trivial ha
  | tick replies => exact absurd trivial ha
  | stop replies => exact absurd trivial ha

/-- Rows are stored at most once as long as no message disturbs a buffer that is stored; after the
first that does, the next flush stores some of them twice. -/
theorem rows_stored_once (h : Run (step floats) (Undisturbed floats) init w) :
    w.AtMostOnce ∧ ∀ a w', w.step floats a = some w' → ¬ w.Undisturbed floats a →
      ∃ w'', Run (step floats) (Undisturbed floats) w' w'' ∧ ¬ w''.AtMostOnce :=
  ⟨fun t => (run_once h t).stored, fun _ _ hs ha => exists_stored_twice ha hs⟩

def plainFloats : Floats := ⟨id, id⟩

/-- A batch with the memory of one server. -/
def memoryBatch (value : String) : Json :=
  .obj [("resourceMetrics", .arr [.obj [("scopeMetrics", .arr [.obj [("metrics", .arr [.obj
    [("name", .str "node_memory_MemFree_bytes"), ("gauge", .obj [("dataPoints", .arr [.obj
      [("timeUnixNano", .str "1712345678000000000"), ("asDouble", .num value)]])])]])]])]])]

def metricsAt (offset : ℕ) (value : String) : Action :=
  .receive ⟨"otel.audit.metrics", 0, offset, some ⟨some (memoryBatch value), none⟩⟩

def tracesAt (offset : ℕ) : Action :=
  .receive ⟨"otel.audit.traces", 0, offset, some ⟨none, some "{}"⟩⟩

/-- ClickHouse is gone by the time of the last insert. -/
def tracesFail : Table → Reply
  | .otelTracesRaw => .failed false
  | _ => .status 200

theorem memory_stored_once : ∃ w, Run (step plainFloats) (Undisturbed plainFloats) init w ∧
    (w.tables .otelMetricsGauge).storedOrigins.length = 2 ∧ w.AtMostOnce := by
  have hexec : (exec (step plainFloats) (fun w a => decide (w.Undisturbed plainFloats a)) init
      [metricsAt 0 "1.5", tracesAt 0, .tick tracesFail, .tick fun _ => .status 200,
        metricsAt 1 "2.5", .tick fun _ => .status 200]).any
      (fun w => decide ((w.tables .otelMetricsGauge).storedOrigins.length = 2)) = true := by
    decide +kernel
  obtain ⟨w, hrun, hlength⟩ := Run.exists_of_exec (fun _ _ h => of_decide_eq_true h) hexec
  exact ⟨w, hrun, of_decide_eq_true hlength, (rows_stored_once hrun).1⟩

/-- The flush stops at the traces; with the next metrics, those stored before are stored again. -/
theorem memory_stored_twice : ∃ w, Run (step plainFloats) (fun _ _ => True) init w ∧
    ¬ w.AtMostOnce := by
  have hexec : (exec (step plainFloats) (fun _ _ => true) init
      [metricsAt 0 "1.5", tracesAt 0, .tick tracesFail, metricsAt 1 "2.5",
        .tick fun _ => .status 200]).any
      (fun w => decide ¬ (w.tables .otelMetricsGauge).storedOrigins.Nodup) = true := by
    decide +kernel
  obtain ⟨w, hrun, htwice⟩ := Run.exists_of_exec (fun _ _ _ => trivial) hexec
  exact ⟨w, hrun, fun honce => of_decide_eq_true htwice (honce .otelMetricsGauge)⟩

end Consumer

end Veronex.Telemetry
