import Mathlib.Data.List.Infix
import Veronex.Foundation.Pool
import Veronex.Inference.World

/-! # Conversation records and their writers

`application/ports/outbound/message_store.rs`, and the reads and writes of a record:
`finalize_job` and `persist_partial_conversation` (`runner.rs`), the consolidated turn of the MCP
bridge, `try_compress` (`context_compressor.rs`) and the request handlers that warm the cache. Every
call of the store, of Valkey and of the compression model may fail; without Valkey its calls all do.

`World.conversations` is the store of a deployment whose calls all succeed; here is what a record
goes through when they do not, and when its writers overlap.
-/
namespace Veronex
open Concurrency
set_option autoImplicit false

/-! ## Records -/

structure CompressedTurn where
  summary : String
  originalTokens : ℕ
  compressedTokens : ℕ
  compressionModel : String

structure HandoffTurn where
  masterSummary : String
  summaryModel : String
  previousConversationId : Uuid
  previousTurnCount : ℕ
  createdAt : String

/-- A turn. The field `compressed` of a `TurnRecord` is kept apart from the others. -/
inductive ConversationTurn
  | handoff (turn : HandoffTurn)
  | regular (turn : TurnRecord) (compressed : Option CompressedTurn)

/-- `ConversationRecord`, which is the list of its turns. -/
abbrev ConversationRecord := List ConversationTurn

/-- `conversations/{owner_id}/{conversation_id}`: the day is not in the path. -/
structure RecordKey where
  owner : Uuid
  conversation : Uuid
  deriving DecidableEq

/-- The turn without its compression. -/
def ConversationTurn.raw : ConversationTurn → ConversationTurn
  | .regular turn _ => .regular turn none
  | turn => turn

/-- The turns of a record without their compressions. -/
def rawTurns (record : ConversationRecord) : ConversationRecord := record.map ConversationTurn.raw

/-- The regular turn of a job that comes first, with its compression. -/
def findTurn (jobId : Uuid) : ConversationRecord → Option (TurnRecord × Option CompressedTurn)
  | [] => none
  | .handoff _ :: rest => findTurn jobId rest
  | .regular turn compressed :: rest =>
    if turn.jobId = jobId then some (turn, compressed) else findTurn jobId rest

/-- Compresses that turn. -/
def setCompressed (jobId : Uuid) (compressed : CompressedTurn) :
    ConversationRecord → ConversationRecord
  | [] => []
  | .handoff turn :: rest => .handoff turn :: setCompressed jobId compressed rest
  | .regular turn compressed' :: rest =>
    if turn.jobId = jobId then .regular turn (some compressed) :: rest
    else .regular turn compressed' :: setCompressed jobId compressed rest

@[simp] theorem length_rawTurns (record : ConversationRecord) :
    (rawTurns record).length = record.length := List.length_map ..

@[simp] theorem rawTurns_append (r s : ConversationRecord) :
    rawTurns (r ++ s) = rawTurns r ++ rawTurns s := List.map_append ..

@[simp] theorem rawTurns_setCompressed (jobId : Uuid) (compressed : CompressedTurn)
    (record : ConversationRecord) : rawTurns (setCompressed jobId compressed record) = rawTurns record := by
  induction record with
  | nil => rfl
  | cons turn rest ih =>
    cases turn with
    | handoff turn => exact congrArg (ConversationTurn.handoff turn :: ·) ih
    | regular turn compressed' =>
      simp only [setCompressed]
      split
      · rfl
      · exact congrArg (ConversationTurn.regular turn none :: ·) ih

@[simp] theorem length_setCompressed (jobId : Uuid) (compressed : CompressedTurn)
    (record : ConversationRecord) : (setCompressed jobId compressed record).length = record.length := by
  rw [← length_rawTurns, rawTurns_setCompressed, length_rawTurns]

/-- `text.len() / 4`, in bytes. -/
def estimateTokens (text : String) : ℕ := text.utf8ByteSize / 4

/-! ## The store and the cache -/

/-- The store and the Valkey cache of records. The owner beside a cached record is the one it was
read or written under; it is kept for the statements, the cache itself knows the conversation only. -/
structure RecordStore where
  stored : RecordKey → Option ConversationRecord
  cached : Uuid → Option (Uuid × ConversationRecord)

/-- What a call answers. -/
inductive Reply
  | ok
  | error
  /-- The compression model, with this content. -/
  | content (text : String)

namespace RecordStore

/-- The turns under a key. -/
def turns (s : RecordStore) (key : RecordKey) : ConversationRecord := (s.stored key).getD []

def put (s : RecordStore) (key : RecordKey) (record : ConversationRecord) : RecordStore :=
  { s with stored := Function.update s.stored key (some record) }

def setCache (s : RecordStore) (key : RecordKey) (record : ConversationRecord) : RecordStore :=
  { s with cached := Function.update s.cached key.conversation (some (key.owner, record)) }

def delCache (s : RecordStore) (conversation : Uuid) : RecordStore :=
  { s with cached := Function.update s.cached conversation none }

@[simp] theorem turns_put_self (s : RecordStore) (key : RecordKey) (record : ConversationRecord) :
    (s.put key record).turns key = record := by
  simp [turns, put]

theorem turns_put_of_ne (s : RecordStore) {key key' : RecordKey} (record : ConversationRecord)
    (h : key' ≠ key) : (s.put key record).turns key' = s.turns key' := by
  simp [turns, put, Function.update_of_ne h]

end RecordStore

/-! ## The writers that add a turn -/

inductive TurnSite
  | finalize
  | persist
  | bridge

inductive TurnWriterPc
  | get
  | put (record : ConversationRecord)
  /-- The finalizer caches what it has written. -/
  | setCache (record : ConversationRecord)
  /-- The finalizer starts the compression of its turn. -/
  | spawn
  /-- The bridge drops what is cached. -/
  | delCache
  | finished

structure TurnWriter where
  site : TurnSite
  owner : Uuid
  conversationId : Option Uuid
  turn : TurnRecord
  pc : TurnWriterPc

/-- `compress_turn`. -/
inductive CompressPc
  | readCache
  | get
  | summarize (record : ConversationRecord)
  | put (record : ConversationRecord)
  | delCache
  | finished

structure TurnCompressor where
  key : RecordKey
  jobId : Uuid
  model : String
  pc : CompressPc

namespace TurnWriter

def goto (a : TurnWriter) (pc : TurnWriterPc) : TurnWriter := { a with pc }

/-- `conversation_id.unwrap_or(job_id)` under the owner. -/
def key (a : TurnWriter) : RecordKey :=
  { owner := a.owner, conversation := a.conversationId.getD a.turn.jobId }

/-- What comes after a successful write. -/
def afterPut (a : TurnWriter) (record : ConversationRecord) : TurnWriterPc :=
  match a.site, a.conversationId with
  | .finalize, some _ => .setCache record
  | .bridge, some _ => .delCache
  | _, _ => .finished

/-- The next state of the store, of the writer, and the compression it starts. -/
def step (s : RecordStore) (a : TurnWriter) (model : String) (reply : Reply) :
    Option (RecordStore × TurnWriter × List TurnCompressor) :=
  match a.pc, reply with
  | .get, .ok => some (s, a.goto (.put (s.turns a.key)), [])
  -- a record that cannot be read counts as one without turns
  | .get, .error => some (s, a.goto (.put []), [])
  | .put record, .ok =>
    let record := record ++ [.regular a.turn none]
    some (s.put a.key record, a.goto (a.afterPut record), [])
  | .put _, .error => some (s, a.goto .finished, [])
  | .setCache record, .ok => some (s.setCache a.key record, a.goto .spawn, [])
  | .setCache _, .error => some (s, a.goto .spawn, [])
  | .spawn, .ok =>
    some (s, a.goto .finished, [{ key := a.key, jobId := a.turn.jobId, model, pc := .readCache }])
  -- compression is off, or there is no entry or no provider for it
  | .spawn, .error => some (s, a.goto .finished, [])
  | .delCache, .ok => some (s.delCache a.key.conversation, a.goto .finished, [])
  | .delCache, .error => some (s, a.goto .finished, [])
  | _, _ => none

end TurnWriter

namespace TurnCompressor

def goto (c : TurnCompressor) (pc : CompressPc) : TurnCompressor := { c with pc }

/-- Looks for the turn in the record that was loaded. -/
def found (c : TurnCompressor) (record : ConversationRecord) : TurnCompressor :=
  match findTurn c.jobId record with
  | some (_, none) => c.goto (.summarize record)
  | _ => c.goto .finished

/-- The record with the summary of the model; nothing is done with an empty one. -/
def compressed (c : TurnCompressor) (record : ConversationRecord) (text : String) : TurnCompressor :=
  match findTurn c.jobId record with
  | none => c.goto .finished
  | some (turn, _) =>
    let summary := String.ofList (trim text.toList)
    let result := String.ofList (turn.result.getD [])
    if summary = "" then c.goto .finished
    else c.goto (.put (setCompressed c.jobId
      { summary
        originalTokens := (estimateTokens turn.prompt + estimateTokens result) % 2 ^ 32
        compressedTokens := estimateTokens summary % 2 ^ 32
        compressionModel := c.model } record))

def step (s : RecordStore) (c : TurnCompressor) (reply : Reply) :
    Option (RecordStore × TurnCompressor) :=
  match c.pc, reply with
  | .readCache, .ok =>
    match s.cached c.key.conversation with
    | some (_, record) => some (s, c.found record)
    | none => some (s, c.goto .get)
  | .readCache, .error => some (s, c.goto .get)
  | .get, .ok =>
    match s.stored c.key with
    | some record => some (s, c.found record)
    | none => some (s, c.goto .finished)
  | .get, .error => some (s, c.goto .finished)
  | .summarize record, .content text => some (s, c.compressed record text)
  | .summarize _, .error => some (s, c.goto .finished)
  | .put record, .ok => some (s.put c.key record, c.goto .delCache)
  | .put _, .error => some (s, c.goto .finished)
  | .delCache, .ok => some (s.delCache c.key.conversation, c.goto .finished)
  | .delCache, .error => some (s, c.goto .finished)
  | _, _ => none

end TurnCompressor

/-! ## Readers -/

inductive ReaderPc
  | readCache
  | get
  | setCache (record : ConversationRecord)
  | finished

/-- A request handler that loads the record of its conversation. -/
structure RecordReader where
  key : RecordKey
  pc : ReaderPc

namespace RecordReader

def goto (r : RecordReader) (pc : ReaderPc) : RecordReader := { r with pc }

def step (s : RecordStore) (r : RecordReader) (reply : Reply) :
    Option (RecordStore × RecordReader) :=
  match r.pc, reply with
  | .readCache, .ok =>
    some (s, r.goto (if (s.cached r.key.conversation).isSome then .finished else .get))
  | .readCache, .error => some (s, r.goto .get)
  | .get, .ok =>
    match s.stored r.key with
    | some record => some (s, r.goto (.setCache record))
    | none => some (s, r.goto .finished)
  | .get, .error => some (s, r.goto .finished)
  | .setCache record, .ok => some (s.setCache r.key record, r.goto .finished)
  | .setCache _, .error => some (s, r.goto .finished)
  | _, _ => none

end RecordReader

/-! ## Together -/

inductive RecordTask
  | write (a : TurnWriter)
  | compress (c : TurnCompressor)
  | read (r : RecordReader)

def RecordTask.key : RecordTask → RecordKey
  | .write a => a.key
  | .compress c => c.key
  | .read r => r.key

structure RecordConfig where
  store : RecordStore
  tasks : List RecordTask

inductive RecordAction
  /-- A writer comes to its `get_conversation`. -/
  | write (site : TurnSite) (owner : Uuid) (conversationId : Option Uuid) (turn : TurnRecord)
  /-- A request handler loads a record; it looks into the cache for the current day only. -/
  | read (key : RecordKey) (today : Bool)
  /-- The next call of a task; `model` is the compression model of the settings. -/
  | run (k : ℕ) (model : String) (reply : Reply)
  /-- A cached record expires. -/
  | expire (conversation : Uuid)

/-- The next state of the store and of the task, and the tasks it starts. -/
def RecordTask.step (s : RecordStore) (model : String) (reply : Reply) :
    RecordTask → Option (RecordStore × RecordTask × List RecordTask)
  | .write a => (a.step s model reply).map fun m => (m.1, .write m.2.1, m.2.2.map .compress)
  | .compress c => (c.step s reply).map fun m => (m.1, .compress m.2, [])
  | .read r => (r.step s reply).map fun m => (m.1, .read m.2, [])

namespace RecordConfig

/-- Any records, an empty cache and no task. -/
def init (stored : RecordKey → Option ConversationRecord) : RecordConfig :=
  { store := { stored, cached := fun _ => none }, tasks := [] }

def step (c : RecordConfig) : RecordAction → Option RecordConfig
  | .write site owner conversationId turn =>
    some { c with tasks := c.tasks ++ [.write { site, owner, conversationId, turn, pc := .get }] }
  | .read key today =>
    some { c with tasks := c.tasks ++ [.read { key, pc := if today then .readCache else .get }] }
  | .run k model reply => do
    let t ← c.tasks[k]?
    let m ← t.step c.store model reply
    return { store := m.1, tasks := advance c.tasks k m.2.1 m.2.2 }
  | .expire conversation => some { c with store := c.store.delCache conversation }

end RecordConfig

end Veronex
