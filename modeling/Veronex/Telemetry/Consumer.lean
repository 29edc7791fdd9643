import Mathlib.Logic.Function.Basic
import Veronex.Foundation.BlockStore
import Veronex.Foundation.Transition
import Veronex.Telemetry.Handlers

/-! # The consumer loop

`veronex-consumer`: `run_consumer_loop` and `flush` of `main.rs`, and `ClickhouseClient::insert`. The
rows of a message are buffered by table; a flush inserts the six buffers in turn and commits the
offsets behind the last of them.

Outside the consumer are the messages, whose offsets grow within a partition, and ClickHouse, which
ignores a block with the bytes of one it has accepted. A row carries where it came from, so that equal
rows of two messages are told apart; the code has the value alone.
-/
namespace Veronex
set_option autoImplicit false
open Mcp (quoted serdeEscape)

mutual

/-- `serde_json::to_string` -/
def Json.text : Json → List Char
  | .null => "null".toList
  | .bool b => if b then "true".toList else "false".toList
  | .num text => text.toList
  | .str s => quoted serdeEscape s
  | .arr items => '[' :: (itemsText items ++ [']'])
  | .obj fields => '{' :: (fieldsText fields ++ ['}'])

def itemsText : List Json → List Char
  | [] => []
  | [v] => v.text
  | v :: w :: rest => v.text ++ ',' :: itemsText (w :: rest)

def fieldsText : List (String × Json) → List Char
  | [] => []
  | [p] => fieldText p
  | p :: q :: rest => fieldText p ++ ',' :: fieldsText (q :: rest)

def fieldText : String × Json → List Char
  | (key, v) => quoted serdeEscape key ++ ':' :: v.text

end

namespace Telemetry
open Blocks Concurrency

def MAX_BATCH : ℕ := 500

inductive Table
  | otelLogs
  | inferenceLogs
  | auditEvents
  | mcpToolCalls
  | otelMetricsGauge
  | otelTracesRaw
  deriving DecidableEq

/-- The order of the inserts. -/
def Table.all : List Table :=
  [.otelLogs, .inferenceLogs, .auditEvents, .mcpToolCalls, .otelMetricsGauge, .otelTracesRaw]

/-! ## Messages -/

abbrev Partition := String × ℕ

structure Message where
  topic : String
  partition : ℕ
  offset : ℕ
  payload : Option Payload

def Message.source (m : Message) : Partition := (m.topic, m.partition)

structure Origin where
  source : Partition
  offset : ℕ
  index : ℕ
  deriving DecidableEq

structure Row where
  origin : Origin
  value : Json

def LogRows.values (rows : LogRows) : Table → List Json
  | .otelLogs => rows.otelLogs
  | .inferenceLogs => rows.inferenceLogs
  | .auditEvents => rows.auditEvents
  | .mcpToolCalls => rows.mcpToolCalls
  | _ => []

namespace Message
variable (floats : Floats) (m : Message)

/-- The values that a message adds to the buffer of a table; none where parsing fails. -/
def values (t : Table) : List Json :=
  match m.payload with
  | none => []
  | some payload =>
    if m.topic = "otel.audit.logs" then ((Logs.parse floats payload).map (·.values t)).getD []
    else if m.topic = "otel.audit.metrics" then
      if t = .otelMetricsGauge then (Metrics.parse floats payload).getD [] else []
    else if m.topic = "otel.audit.traces" then
      if t = .otelTracesRaw then (Traces.parse payload).getD [] else []
    else []

def rows (t : Table) : List Row :=
  (m.values floats t).mapIdx fun i v => ⟨⟨m.source, m.offset, i⟩, v⟩

end Message

/-! ## Inserting -/

/-- What comes back of an insert: the status of an answer, or that the request failed on the way, be
it before or after ClickHouse was done with it. -/
inductive Reply
  | status (code : ℕ)
  | failed (done : Bool)

inductive InsertResult
  | ok
  | badData
  | transient
  deriving DecidableEq

/-- `ClickhouseClient::insert`, by the reply. -/
def Reply.result : Reply → InsertResult
  | .status code =>
    if 200 ≤ code ∧ code < 300 then .ok
    else if 400 ≤ code ∧ code < 500 then .badData
    else .transient
  | .failed _ => .transient

/-- ClickHouse accepted the block. -/
def Reply.accepts : Reply → Bool
  | .status code => 200 ≤ code ∧ code < 300
  | .failed done => done

theorem Reply.accepts_of_badData {r : Reply} (h : r.result = .badData) : r.accepts = false := by
  cases r with
  | status code =>
    simp only [Reply.result] at h
    split at h
    · cases h
    · next hcode => simpa [Reply.accepts] using hcode
  | failed done => cases h

theorem Reply.accepts_of_ok {r : Reply} (h : r.result = .ok) : r.accepts = true := by
  cases r with
  | status code =>
    simp only [Reply.result] at h
    split at h
    · next hcode => simpa [Reply.accepts] using hcode
    · split at h <;> cases h
  | failed done => cases h

/-- The body of an insert. -/
def blockText (rows : List Row) : List Char := ['\n'].intercalate (rows.map fun r => r.value.text)

/-- A table: the buffer of the consumer, and what ClickHouse has. -/
structure TableState where
  buffer : List Row
  store : BlockStore Row (List Char)
  /-- The rows of the blocks that were accepted, stored or ignored. -/
  accepted : List Row
  /-- All rows that were ever parsed. -/
  parsed : List Row

namespace TableState

def empty : TableState := ⟨[], .empty, [], []⟩

def extend (s : TableState) (rows : List Row) : TableState :=
  { s with buffer := s.buffer ++ rows, parsed := s.parsed ++ rows }

def clear (s : TableState) : TableState := { s with buffer := [] }

/-- ClickHouse takes the buffer, if it does. -/
def deliver (s : TableState) (r : Reply) : TableState :=
  if r.accepts then
    { s with store := s.store.insert blockText s.buffer, accepted := s.accepted ++ s.buffer }
  else s

/-- The flush goes on behind this table. -/
def GoesOn (s : TableState) (r : Reply) : Prop := s.buffer = [] ∨ r.result ≠ .transient

instance (s : TableState) (r : Reply) : Decidable (s.GoesOn r) :=
  decidable_of_iff (s.buffer.isEmpty = true ∨ r.result ≠ .transient) (by simp [GoesOn])

/-- `try_insert!` -/
def tryInsert (s : TableState) (r : Reply) : TableState :=
  if s.buffer.isEmpty then s
  else
    match r.result with
    | .ok | .transient => s.deliver r
    | .badData => (s.deliver r).clear

end TableState

/-! ## The loop -/

structure Consumer where
  tables : Table → TableState
  pending : Partition → Option ℕ
  /-- The batch has its size, and is flushed next. -/
  full : Bool
  stopped : Bool
  /-- The first offset that can still come. -/
  position : Partition → ℕ
  committed : Partition → Option ℕ

inductive Action
  | receive (m : Message)
  | kafkaError
  | flush (replies : Table → Reply)
  | tick (replies : Table → Reply)
  | stop (replies : Table → Reply)

/-- The inserts of a flush, until one of them fails, and whether all were made. -/
def insertAll (replies : Table → Reply) :
    List Table → (Table → TableState) → (Table → TableState) × Bool
  | [], tables => (tables, true)
  | t :: rest, tables =>
    let tables' := Function.update tables t ((tables t).tryInsert (replies t))
    if (tables t).GoesOn (replies t) then insertAll replies rest tables' else (tables', false)

namespace Consumer

def init : Consumer where
  tables _ := .empty
  pending _ := none
  full := false
  stopped := false
  position _ := 0
  committed _ := none

section
variable (w : Consumer)

/-- The rows the loop counts: those of the specialised log tables are left out. -/
def total : ℕ :=
  (w.tables .otelLogs).buffer.length + (w.tables .otelMetricsGauge).buffer.length +
    (w.tables .otelTracesRaw).buffer.length

def receive (floats : Floats) (m : Message) : Consumer :=
  let w' := { w with
    tables := fun t => (w.tables t).extend (m.rows floats t)
    pending := Function.update w.pending m.source (some (m.offset + 1))
    position := Function.update w.position m.source (m.offset + 1) }
  { w' with full := decide (MAX_BATCH ≤ w'.total) }

/-- The offsets are committed, and the buffers are cleared. -/
def commit : Consumer :=
  { w with
    tables := fun t => (w.tables t).clear
    pending := fun _ => none
    committed := fun p => (w.pending p).or (w.committed p) }

def flush (replies : Table → Reply) : Consumer :=
  let result := insertAll replies Table.all w.tables
  if result.2 then commit { w with tables := result.1 } else { w with tables := result.1 }

/-- A flush where there is something to flush. -/
def flushSome (replies : Table → Reply) : Consumer := if 0 < w.total then w.flush replies else w

end

def step (floats : Floats) (w : Consumer) : Action → Option Consumer
  | .receive m =>
    if w.stopped ∨ w.full ∨ m.offset < w.position m.source then none else some (w.receive floats m)
  | .kafkaError => if w.stopped ∨ w.full then none else some w
  | .flush replies => if w.full then some { w.flush replies with full := false } else none
  | .tick replies => if w.stopped ∨ w.full then none else some (w.flushSome replies)
  | .stop replies =>
    if w.stopped ∨ w.full then none else some { w.flushSome replies with stopped := true }

end Consumer

/-- The action makes a flush, with these replies. -/
def Action.Flushes (w : Consumer) (replies : Table → Reply) : Action → Prop
  | .receive _ | .kafkaError => False
  | .flush replies' => replies' = replies
  | .tick replies' | .stop replies' => replies' = replies ∧ 0 < w.total

/-! ## What a flush does to each table -/

section InsertAll
variable {replies : Table → Reply} {order : List Table} {tables : Table → TableState} {t : Table}

/-- The inserts before the table all let the flush go on. -/
def Reached (replies : Table → Reply) (order : List Table) (tables : Table → TableState)
    (t : Table) : Prop :=
  t ∈ order ∧ ∀ t' ∈ order.takeWhile (· ≠ t), (tables t').GoesOn (replies t')

theorem update_of_mem {t₁ : Table} (ht : t₁ ∉ order) (st : TableState) :
    ∀ t' ∈ order, Function.update tables t₁ st t' = tables t' := by
  intro t' ht'
  have hne : t' ≠ t₁ := fun heq => ht (heq ▸ ht')
  exact Function.update_of_ne hne ..

theorem insertAll_complete_iff (hnodup : order.Nodup) :
    (insertAll replies order tables).2 = true ↔ ∀ t ∈ order, (tables t).GoesOn (replies t) := by
  induction order generalizing tables with
  | nil => simp [insertAll]
  | cons t order ih =>
    obtain ⟨ht, hnodup⟩ := List.nodup_cons.mp hnodup
    rw [insertAll, List.forall_mem_cons]
    by_cases hgo : (tables t).GoesOn (replies t)
    · simp only [hgo, if_true, true_and]
      rw [ih hnodup]
      exact forall₂_congr fun t' ht' => by rw [update_of_mem ht _ t' ht']
    · simp [hgo]

theorem reached_cons {t₁ : Table} : Reached replies (t₁ :: order) tables t ↔
    t = t₁ ∨ t ≠ t₁ ∧ (tables t₁).GoesOn (replies t₁) ∧ Reached replies order tables t := by
  by_cases heq : t = t₁
  · simp [Reached, heq]
  · have hne : t₁ ≠ t := fun h => heq h.symm
    simp only [Reached, List.mem_cons, heq, false_or, ne_eq, hne, not_false_eq_true, decide_true,
      List.takeWhile_cons_of_pos, forall_eq_or_imp, true_and]
    tauto

theorem reached_congr {tables' : Table → TableState} (h : ∀ t' ∈ order, tables' t' = tables t') :
    Reached replies order tables' t ↔ Reached replies order tables t := by
  refine and_congr_right fun _ => forall₂_congr fun t' ht' => ?_
  rw [h t' ((List.takeWhile_sublist _).subset ht')]

/-- A flush inserts the buffer of each table it reaches, and leaves the others as they are. -/
theorem insertAll_apply (hnodup : order.Nodup) :
    (Reached replies order tables t →
      (insertAll replies order tables).1 t = (tables t).tryInsert (replies t)) ∧
    (¬ Reached replies order tables t → (insertAll replies order tables).1 t = tables t) := by
  induction order generalizing tables with
  | nil => simp [insertAll, Reached]
  | cons t₁ order ih =>
    obtain ⟨ht₁, hnodup⟩ := List.nodup_cons.mp hnodup
    have hsame : ∀ t' ∈ order, Function.update tables t₁ ((tables t₁).tryInsert (replies t₁)) t' =
        tables t' := update_of_mem ht₁ _
    rw [reached_cons, insertAll]
    by_cases hgo : (tables t₁).GoesOn (replies t₁)
    · have hrest := @ih (Function.update tables t₁ ((tables t₁).tryInsert (replies t₁))) hnodup
      rw [reached_congr hsame] at hrest
      simp only [hgo, if_true, true_and]
      by_cases heq : t = t₁
      · subst heq
        have hlater : ¬ Reached replies order tables t := fun h => ht₁ h.1
        simpa using hrest.2 hlater
      · have hother : Function.update tables t₁ ((tables t₁).tryInsert (replies t₁)) t =
            tables t := Function.update_of_ne heq ..
        simpa [heq, hother] using hrest
    · by_cases heq : t = t₁
      · subst heq
        simp [hgo]
      · simp [hgo, heq]

end InsertAll

theorem nodup_all : Table.all.Nodup := by decide

theorem mem_all (t : Table) : t ∈ Table.all := by cases t <;> decide

namespace Consumer
variable {floats : Floats} {w w' : Consumer} {a : Action} {replies : Table → Reply}

/-- Either the flush goes through all tables and commits, or it stops at one of them. -/
theorem flush_cases (w : Consumer) (replies : Table → Reply) :
    ((∀ t, (w.tables t).GoesOn (replies t)) ∧ w.flush replies =
      commit { w with tables := fun t => (w.tables t).tryInsert (replies t) }) ∨
    ∃ tables, w.flush replies = { w with tables } ∧
      (∀ t, Reached replies Table.all w.tables t →
        tables t = (w.tables t).tryInsert (replies t)) ∧
      ∀ t, ¬ Reached replies Table.all w.tables t → tables t = w.tables t := by
  have happly : ∀ t, (Reached replies Table.all w.tables t →
        (insertAll replies Table.all w.tables).1 t = (w.tables t).tryInsert (replies t)) ∧
      (¬ Reached replies Table.all w.tables t →
        (insertAll replies Table.all w.tables).1 t = w.tables t) :=
    fun t => insertAll_apply nodup_all
  by_cases hcomplete : (insertAll replies Table.all w.tables).2 = true
  · have hgo := fun t => (insertAll_complete_iff nodup_all).mp hcomplete t (mem_all t)
    have htables : (insertAll replies Table.all w.tables).1 =
        fun t => (w.tables t).tryInsert (replies t) := by
      funext t
      exact (happly t).1 ⟨mem_all t, fun t' _ => hgo t'⟩
    refine .inl ⟨hgo, ?_⟩
    rw [flush, if_pos hcomplete, htables]
  · refine .inr ⟨_, ?_, fun t => (happly t).1, fun t => (happly t).2⟩
    rw [flush, if_neg hcomplete]

/-- What every table keeps through an insert and through clearing, it keeps through a flush. -/
theorem flush_tables {I : TableState → Prop} (hinsert : ∀ s r, I s → I (s.tryInsert r))
    (hclear : ∀ s, I s → I s.clear) (h : ∀ t, I (w.tables t)) (t : Table) :
    I ((w.flush replies).tables t) := by
  rcases flush_cases w replies with ⟨-, heq⟩ | ⟨tables, heq, hreached, hrest⟩
  · rw [heq]
    exact hclear _ (hinsert _ _ (h t))
  · rw [heq]
    change I (tables t)
    by_cases ht : Reached replies Table.all w.tables t
    · rw [hreached t ht]
      exact hinsert _ _ (h t)
    · rw [hrest t ht]
      exact h t

theorem flush_position (w : Consumer) (replies : Table → Reply) :
    (w.flush replies).position = w.position := by
  rcases flush_cases w replies with ⟨-, heq⟩ | ⟨tables, heq, -⟩
  · rw [heq]
    rfl
  · rw [heq]

theorem step_receive {m : Message} (hs : w.step floats (.receive m) = some w') :
    w.stopped = false ∧ w.full = false ∧ w.position m.source ≤ m.offset ∧
      w' = w.receive floats m := by
  simp only [step] at hs
  split at hs
  · cases hs
  · next hlive =>
    simp only [not_or, Bool.not_eq_true, not_lt] at hlive
    cases hs
    exact ⟨hlive.1, hlive.2.1, hlive.2.2, rfl⟩

/-- A message is received, or the replies of a flush come in, or nothing but the flags changes. -/
theorem step_cases (hs : w.step floats a = some w') :
    (∃ m, a = .receive m ∧ w.stopped = false ∧ w.full = false ∧ w.position m.source ≤ m.offset ∧
      w' = w.receive floats m) ∨
    (∃ replies full stopped, a.Flushes w replies ∧
      w' = { w.flush replies with full, stopped }) ∨
    ((∀ replies, ¬ a.Flushes w replies) ∧ ∃ full stopped, w' = { w with full, stopped }) := by
  cases a with
  | receive m => exact .inl ⟨m, rfl, step_receive hs⟩
  | kafkaError =>
    simp only [step] at hs
    split at hs
    · cases hs
    · cases hs
      exact .inr (.inr ⟨fun _ h => h, w.full, w.stopped, rfl⟩)
  | flush replies =>
    simp only [step] at hs
    split at hs
    · cases hs
      exact .inr (.inl ⟨replies, false, _, rfl, rfl⟩)
    · cases hs
  | tick replies =>
    simp only [step] at hs
    split at hs
    · cases hs
    · cases hs
      by_cases htotal : 0 < w.total
      · refine .inr (.inl ⟨replies, (w.flush replies).full, (w.flush replies).stopped, ⟨rfl, htotal⟩,
          ?_⟩)
        rw [flushSome, if_pos htotal]
      · refine .inr (.inr ⟨fun _ h => htotal h.2, w.full, w.stopped, ?_⟩)
        rw [flushSome, if_neg htotal]
  | stop replies =>
    simp only [step] at hs
    split at hs
    · cases hs
    · cases hs
      by_cases htotal : 0 < w.total
      · refine .inr (.inl ⟨replies, (w.flush replies).full, true, ⟨rfl, htotal⟩, ?_⟩)
        rw [flushSome, if_pos htotal]
      · refine .inr (.inr ⟨fun _ h => htotal h.2, w.full, true, ?_⟩)
        rw [flushSome, if_neg htotal]

end Consumer

/-! ## Where the rows are -/

theorem Message.origin_of_mem {floats : Floats} {m : Message} {t : Table} {r : Row}
    (h : r ∈ m.rows floats t) : r.origin.source = m.source ∧ r.origin.offset = m.offset := by
  obtain ⟨i, hi, rfl⟩ := List.mem_mapIdx.mp h
  exact ⟨rfl, rfl⟩

/-- The rows of a message differ in their index. -/
theorem Message.origins_nodup (floats : Floats) (m : Message) (t : Table) :
    ((m.rows floats t).map Row.origin).Nodup := by
  refine List.pairwise_iff_getElem.mpr fun i j hi hj hlt heq => ?_
  simp only [Message.rows, List.getElem_map, List.getElem_mapIdx, Origin.mk.injEq, true_and] at heq
  omega

namespace TableState
variable {s : TableState} {r : Reply} {position : Partition → ℕ} {rows : List Row} {row : Row}

/-- What is buffered, stored or accepted was parsed, from an offset that is past. -/
structure Tracked (position : Partition → ℕ) (s : TableState) : Prop where
  buffered : ∀ row ∈ s.buffer, row ∈ s.parsed
  stored : ∀ row ∈ s.store.rows, row ∈ s.parsed
  past : ∀ row ∈ s.parsed, row.origin.offset < position row.origin.source

theorem tracked_empty : empty.Tracked position :=
  ⟨by simp [empty], by simp [empty, BlockStore.empty], by simp [empty]⟩

/-- A block of bad data is discarded. -/
theorem tryInsert_badData (s : TableState) (h : r.result = .badData) : s.tryInsert r = s.clear := by
  by_cases hempty : s.buffer.isEmpty
  · rw [tryInsert, if_pos hempty, clear, ← List.isEmpty_iff.mp hempty]
  · rw [tryInsert, if_neg hempty, h]
    simp [deliver, Reply.accepts_of_badData h]

/-- What an insert can make of a table. -/
theorem tryInsert_cases (s : TableState) (r : Reply) :
    s.tryInsert r = s ∨ s.tryInsert r = s.clear ∧ r.result = .badData ∨
      r.accepts ∧ s.tryInsert r = { s with
        store := s.store.insert blockText s.buffer, accepted := s.accepted ++ s.buffer } := by
  by_cases hbad : r.result = .badData
  · exact .inr (.inl ⟨tryInsert_badData s hbad, hbad⟩)
  · by_cases hempty : s.buffer.isEmpty
    · exact .inl (if_pos hempty)
    · have hdeliver : s.tryInsert r = s.deliver r := by
        rw [tryInsert, if_neg hempty]
        cases hresult : r.result with
        | badData => exact absurd hresult hbad
        | ok => rfl
        | transient => rfl
      rw [hdeliver, deliver]
      cases haccepts : r.accepts with
      | true => exact .inr (.inr ⟨rfl, rfl⟩)
      | false => exact .inl rfl

theorem Tracked.clear (h : s.Tracked position) : s.clear.Tracked position :=
  ⟨by simp [TableState.clear], h.stored, h.past⟩

theorem Tracked.tryInsert (h : s.Tracked position) : (s.tryInsert r).Tracked position := by
  rcases tryInsert_cases s r with heq | ⟨heq, -⟩ | ⟨-, heq⟩
  · rw [heq]
    exact h
  · rw [heq]
    exact h.clear
  · rw [heq]
    refine ⟨h.buffered, fun row hrow => ?_, h.past⟩
    rcases BlockStore.mem_rows_insert hrow with hrow | hrow
    · exact h.stored row hrow
    · exact h.buffered row hrow

/-- Rows of the next message of a partition. -/
theorem Tracked.extend (h : s.Tracked position) {source : Partition} {offset : ℕ}
    (hposition : position source ≤ offset)
    (hrows : ∀ row ∈ rows, row.origin.source = source ∧ row.origin.offset = offset) :
    (s.extend rows).Tracked (Function.update position source (offset + 1)) := by
  refine ⟨fun row hrow => ?_, fun row hrow => List.mem_append_left _ (h.stored row hrow),
    fun row hrow => ?_⟩
  · rcases List.mem_append.mp hrow with hrow | hrow
    · exact List.mem_append_left _ (h.buffered row hrow)
    · exact List.mem_append_right _ hrow
  · rcases List.mem_append.mp hrow with hrow | hrow
    · have hpast := h.past row hrow
      by_cases hsource : row.origin.source = source
      · rw [hsource] at hpast ⊢
        rw [Function.update_self]
        omega
      · rw [Function.update_of_ne hsource]
        exact hpast
    · obtain ⟨hsource, hoffset⟩ := hrows row hrow
      rw [hsource, hoffset, Function.update_self]
      omega

end TableState

namespace Consumer
variable {floats : Floats} {w w' : Consumer} {a : Action}

def Tracked (w : Consumer) : Prop := ∀ t, (w.tables t).Tracked w.position

theorem tracked_init : init.Tracked := fun _ => TableState.tracked_empty

theorem step_tracked (h : w.Tracked) (hs : w.step floats a = some w') : w'.Tracked := by
  rcases step_cases hs with ⟨m, rfl, -, -, hposition, rfl⟩ | ⟨replies, full, stopped, -, rfl⟩ |
    ⟨-, full, stopped, rfl⟩
  · exact fun t => (h t).extend hposition fun r hr => Message.origin_of_mem hr
  · intro t
    change ((w.flush replies).tables t).Tracked (w.flush replies).position
    rw [flush_position]
    exact flush_tables (fun _ _ hs => hs.tryInsert) (fun _ hs => hs.clear) h t
  · exact h

theorem run_tracked {ok : Consumer → Action → Prop} (h : Run (step floats) ok init w) :
    w.Tracked :=
  h.invariant tracked_init fun _ _ _ _ hx _ hs => step_tracked hx hs

end Consumer

end Telemetry

end Veronex
