import Veronex.Foundation.FixedDigits
import Veronex.Telemetry.Handlers
import Veronex.Telemetry.Ingest

/-! # Columns of the event tables

`docker/clickhouse/schema.sql`: the columns of the three tables that events go to, and what ClickHouse
reads in a column of each type. A low-cardinality string is a string.
-/
namespace Veronex.Telemetry
set_option autoImplicit false
open FixedDigits Agent

inductive EventTable
  | inferenceLogs
  | auditEvents
  | mcpToolCalls
  deriving DecidableEq

inductive ColumnType
  | dateTime64Ms
  | uuid
  | string
  | uint (bits : ℕ)

/-- The value of a column. -/
inductive Cell
  | time (ms : ℕ)
  | uuid (id : EventId)
  | text (s : String)
  | number (n : ℕ)
  deriving DecidableEq

def hexValue (c : Char) : Option ℕ :=
  if '0' ≤ c ∧ c ≤ '9' then some (c.toNat - '0'.toNat)
  else if 'a' ≤ c ∧ c ≤ 'f' then some (c.toNat - 'a'.toNat + 10)
  else if 'A' ≤ c ∧ c ≤ 'F' then some (c.toNat - 'A'.toNat + 10)
  else none

/-- The id that a text in groups of hexadecimal digits stands for. -/
def readEventId (text : String) : Option EventId :=
  (readGroups 16 hexValue '-' EVENT_ID_GROUPS text.toList).map (BitVec.ofNat 128)

namespace ColumnType

/-- The value that is read, if the column takes it. -/
def read : ColumnType → Json → Option Cell
  | dateTime64Ms, .num text => (parseU64 text.toList).map .time
  | uuid, .str s => (readEventId s).map .uuid
  | string, .str s => some (.text s)
  | uint bits, .num text => (parseUnsigned bits text.toList).map .number
  | _, _ => none

end ColumnType

def schema : EventTable → List (String × ColumnType)
  | .inferenceLogs =>
    [("event_time", .dateTime64Ms), ("api_key_id", .uuid), ("tenant_id", .string),
      ("request_id", .uuid), ("model_name", .string), ("prompt_tokens", .uint 32),
      ("completion_tokens", .uint 32), ("latency_ms", .uint 32), ("finish_reason", .string),
      ("status", .string)]
  | .auditEvents =>
    [("event_time", .dateTime64Ms), ("account_id", .uuid), ("account_name", .string),
      ("action", .string), ("resource_type", .string), ("resource_id", .string),
      ("resource_name", .string), ("ip_address", .string), ("details", .string)]
  | .mcpToolCalls =>
    [("event_time", .dateTime64Ms), ("request_id", .uuid), ("api_key_id", .uuid),
      ("tenant_id", .string), ("server_id", .uuid), ("server_slug", .string),
      ("tool_name", .string), ("namespaced_name", .string), ("outcome", .string),
      ("cache_hit", .uint 8), ("latency_ms", .uint 32), ("result_bytes", .uint 32),
      ("cap_charged", .uint 8), ("loop_round", .uint 8)]

def LogRows.eventRows (rows : LogRows) : EventTable → List Json
  | .inferenceLogs => rows.inferenceLogs
  | .auditEvents => rows.auditEvents
  | .mcpToolCalls => rows.mcpToolCalls

/-- The columns of a row, if it has all of them and each is valid. -/
def readRow (table : EventTable) (row : Json) : Option (List (String × Cell)) :=
  (schema table).mapM fun column =>
    ((row.get column.1).bind column.2.read).map fun cell => (column.1, cell)

theorem mapM_eq_some_iff_forall₂ {α β : Type} {f : α → Option β} {as : List α} {bs : List β} :
    as.mapM f = some bs ↔ List.Forall₂ (fun a b => f a = some b) as bs := by
  induction as generalizing bs with
  | nil => simp [eq_comm]
  | cons a as ih =>
    rw [List.mapM_cons]
    cases bs with
    | nil => cases f a <;> cases as.mapM f <;> simp
    | cons b bs =>
      rw [List.forall₂_cons, ← ih]
      cases f a <;> cases as.mapM f <;> simp

/-- A row is taken with these cells if each column reads the cell of its name. -/
theorem readRow_eq_some_iff {table : EventTable} {row : Json} {cells : List (String × Cell)} :
    readRow table row = some cells ↔
      List.Forall₂ (fun column cell => column.1 = cell.1 ∧
        (row.get column.1).bind column.2.read = some cell.2) (schema table) cells := by
  have hcolumn : (fun (column : String × ColumnType) (cell : String × Cell) =>
      (((row.get column.1).bind column.2.read).map fun c => (column.1, c)) = some cell) =
        fun column cell => column.1 = cell.1 ∧
          (row.get column.1).bind column.2.read = some cell.2 := by
    funext column cell
    cases (row.get column.1).bind column.2.read <;> simp [Prod.ext_iff]
  rw [readRow, mapM_eq_some_iff_forall₂, hcolumn]

/-! ## Reading what was written -/

theorem hexValue_digitChar : ∀ d < 16, hexValue (Nat.digitChar d) = some d := by decide

theorem digitChar_ne_hyphen : ∀ d < 16, Nat.digitChar d ≠ '-' := by decide

theorem readEventId_text (id : EventId) : readEventId id.text = some id := by
  have hlt : id.toNat < 16 ^ EVENT_ID_GROUPS.sum := id.isLt
  have hread := readGroups_writeGroups (by decide) hexValue_digitChar digitChar_ne_hyphen
    (by decide) hlt
  rw [readEventId, EventId.text, String.toList_ofList, hread, Option.map_some, BitVec.ofNat_toNat,
    BitVec.setWidth_eq]

@[simp] theorem read_uuid_text (id : EventId) :
    ColumnType.uuid.read (.str id.text) = some (.uuid id) := by
  simp [ColumnType.read, readEventId_text]

@[simp] theorem read_string (s : String) : ColumnType.string.read (.str s) = some (.text s) := rfl

theorem read_uint {bits n : ℕ} (h : n < 2 ^ bits) :
    (ColumnType.uint bits).read (.ofNat n) = some (.number n) := by
  change (parseUnsigned bits n.repr.toList).map Cell.number = _
  rw [parseUnsigned_repr h, Option.map_some]

theorem read_dateTime {ms : ℕ} (h : ms < 2 ^ 64) :
    ColumnType.dateTime64Ms.read (.ofNat ms) = some (.time ms) := by
  change (parseUnsigned 64 ms.repr.toList).map Cell.time = _
  rw [parseUnsigned_repr h, Option.map_some]

end Veronex.Telemetry
