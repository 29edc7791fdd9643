import Veronex.Domain.Values
import Veronex.Persistence.TtlCache

/-! # API keys behind their cache

`CachingApiKeyRepo` (`infrastructure/outbound/persistence/caching_api_key_repo.rs`) over the statements
of `PostgresApiKeyRepository`, with the writes of `api_keys` that other parts make themselves:
`soft_delete_cascade` of the accounts, and the MCP budget of a key. The columns that no statement
reads or changes are left out.
-/
namespace Veronex
set_option autoImplicit false
open Concurrency

/-- 60 s, in ms. -/
def API_KEY_CACHE_TTL : ℕ := 60000

structure ApiKeyRow where
  id : Uuid
  keyHash : String
  keyPrefix : String
  tenantId : String
  isActive : Bool
  deletedAt : Option Millis
  tier : KeyTier
  mcpCapPoints : ℤ
  deriving DecidableEq

abbrev ApiKeyTable := List ApiKeyRow

/-- The time of a deletion is `NOW()`. -/
inductive KeyMutation
  | create (row : ApiKeyRow)
  | revoke (id : Uuid)
  | setActive (id : Uuid) (active : Bool)
  | setTier (id : Uuid) (tier : KeyTier)
  | updateFields (id : Uuid) (isActive : Option Bool) (tier : Option KeyTier)
  | softDelete (id : Uuid) (now : Millis)
  | softDeleteByTenant (tenantId : String) (now : Millis)
  | regenerate (id : Uuid) (newHash newPrefix : String)
  /-- `delete_account` -/
  | softDeleteCascade (tenantId : String) (now : Millis)
  /-- `toggle_key` -/
  | setMcpCapPoints (id : Uuid) (cap : ℤ)

namespace ApiKeyTable

/-- `WHERE deleted_at IS NULL` -/
def live (row : ApiKeyRow) : Bool := row.deletedAt.isNone

def update (table : ApiKeyTable) (p : ApiKeyRow → Bool) (f : ApiKeyRow → ApiKeyRow) : ApiKeyTable :=
  List.map (fun row => if p row then f row else row) table

/-- `key_hash` is unique. -/
def getByHash (table : ApiKeyTable) (keyHash : String) : Option ApiKeyRow :=
  List.find? (fun row => decide (row.keyHash = keyHash) && live row) table

def softDeleteByTenant (table : ApiKeyTable) (tenantId : String) (now : Millis) : ApiKeyTable :=
  table.update (fun row => decide (row.tenantId = tenantId) && live row)
    fun row => { row with deletedAt := some now }

def apply (table : ApiKeyTable) : KeyMutation → ApiKeyTable
  | .create row =>
    if List.any table fun r => r.id = row.id ∨ r.keyHash = row.keyHash then table else row :: table
  | .revoke id =>
    table.update (fun row => decide (row.id = id) && live row) fun row => { row with isActive := false }
  | .setActive id active =>
    table.update (fun row => decide (row.id = id) && live row)
      fun row => { row with isActive := active }
  | .setTier id tier =>
    table.update (fun row => decide (row.id = id) && live row) fun row => { row with tier }
  | .updateFields id isActive tier =>
    table.update (fun row => decide (row.id = id) && live row) fun row =>
      { row with isActive := isActive.getD row.isActive, tier := tier.getD row.tier }
  | .softDelete id now =>
    table.update (fun row => row.id = id) fun row => { row with deletedAt := some now }
  | .softDeleteByTenant tenantId now => table.softDeleteByTenant tenantId now
  | .regenerate id newHash newPrefix =>
    if List.any table fun r => r.id ≠ id ∧ r.keyHash = newHash then table
    else table.update (fun row => decide (row.id = id) && live row) fun row =>
      { row with keyHash := newHash, keyPrefix := newPrefix }
  | .softDeleteCascade tenantId now => table.softDeleteByTenant tenantId now
  | .setMcpCapPoints id cap => table.update (fun row => row.id = id) fun row =>
      { row with mcpCapPoints := cap }

end ApiKeyTable

/-- Whether the write goes through the repository with the cache and is one it clears the cache
after. -/
def KeyMutation.invalidates : KeyMutation → Bool
  | .revoke _ | .setActive .. | .setTier .. | .updateFields .. | .softDelete .. |
    .softDeleteByTenant .. | .regenerate .. => true
  | .create _ | .softDeleteCascade .. | .setMcpCapPoints .. => false

/-- `CachingApiKeyRepo`; `get_by_hash` is the read. -/
abbrev cachingApiKeyRepo : CachedTable where
  Key := String
  Value := Option ApiKeyRow
  Table := ApiKeyTable
  Mutation := KeyMutation
  ttl := API_KEY_CACHE_TTL
  fetch := ApiKeyTable.getByHash
  apply := ApiKeyTable.apply
  invalidates := KeyMutation.invalidates

namespace CacheWorld
variable {table : ApiKeyTable} {w : CacheWorld cachingApiKeyRepo}

/-- While every write that leaves the cache alone returns with nothing from before it cached,
`get_by_hash` gives a key as it has been since the mutations that had returned when it started. The
first such write that does not can be followed by a `get_by_hash` that gives what was before. -/
theorem get_by_hash_current (h : Run step Covered (init table) w) :
    (∀ hash since key, .got hash since key ∈ w.ops → w.Had since hash key) ∧
      ∀ k ok w', w.step (.run k ok) = some w' → ¬ w.Covered (.run k ok) → w'.ReadsStale :=
  ⟨fun _ _ _ hgot => reads_current h hgot, fun _ _ _ hs hnot => uncovered_stale (by decide) hs hnot⟩

def tenantKey : ApiKeyRow where
  id := 7
  keyHash := "h"
  keyPrefix := "vx_"
  tenantId := "alice"
  isActive := true
  deletedAt := none
  tier := .paid
  mcpCapPoints := 3

/-- No reply of a write that leaves the cache alone. -/
def noReply (w : CacheWorld cachingApiKeyRepo) : CacheStep cachingApiKeyRepo → Bool
  | .run k _ => w.ops[k]?.all fun
    | .reply _ => false
    | _ => true
  | _ => true

theorem covered_of_noReply (w : CacheWorld cachingApiKeyRepo) (a : CacheStep cachingApiKeyRepo)
    (h : w.noReply a = true) : w.Covered a := by
  cases a with
  | run k ok =>
    intro commit hk
    simp [noReply, hk] at h
  | _ => trivial

instance (w : CacheWorld cachingApiKeyRepo) (since : ℕ) (hash : String) (key : Option ApiKeyRow) :
    Decidable (w.Had since hash key) :=
  decidable_of_iff ((List.range (w.version + 1)).any (fun v =>
      decide (since ≤ v) && decide (ApiKeyTable.getByHash (w.states v) hash = key)) = true) <| by
    rw [List.any_eq_true]
    constructor
    · rintro ⟨v, hv, hkey⟩
      obtain ⟨hsince, hkey⟩ := (Bool.and_eq_true ..).mp hkey
      exact ⟨v, of_decide_eq_true hsince, Nat.le_of_lt_succ (List.mem_range.mp hv),
        of_decide_eq_true hkey⟩
    · rintro ⟨v, hsince, hv, hkey⟩
      exact ⟨v, List.mem_range.mpr (Nat.lt_succ_of_le hv),
        (Bool.and_eq_true ..).mpr ⟨decide_eq_true hsince, decide_eq_true hkey⟩⟩

/-- A read fills the cache, a mutation is made and returns, and then a read is made in `n` steps. -/
def readAround (m : KeyMutation) (n : ℕ) : List (CacheStep cachingApiKeyRepo) :=
  .flatten [[.get "h"], .replicate 4 (.run 0 true), [.mutate m, .run 1 true, .run 1 true, .get "h"],
    .replicate n (.run 2 true)]

/-- What the read at `k` gives of which key, and the mutations that had returned before it. -/
def answerOf (w : CacheWorld cachingApiKeyRepo) (k : ℕ) : Option (String × ℕ × Option ApiKeyRow) :=
  w.ops[k]?.bind fun
    | .got hash since key => some (hash, since, key)
    | _ => none

theorem got_of_answerOf {k : ℕ} {hash : String} {since : ℕ} {key : Option ApiKeyRow}
    (h : w.answerOf k = some (hash, since, key)) : .got hash since key ∈ w.ops := by
  obtain ⟨op, hop, hgot⟩ := Option.bind_eq_some_iff.mp h
  have hmem := List.mem_of_getElem? hop
  cases op with
  | got hash' since' key' =>
    obtain ⟨rfl, hrest⟩ := Prod.mk.inj (Option.some.inj hgot)
    obtain ⟨rfl, rfl⟩ := Prod.mk.inj hrest
    exact hmem
  | _ => cases hgot

theorem get_by_hash_after_revoke : ∃ w : CacheWorld cachingApiKeyRepo,
    Run step Covered (init [tenantKey]) w ∧
      .got "h" 1 (some { tenantKey with isActive := false }) ∈ w.ops ∧
        w.Had 1 "h" (some { tenantKey with isActive := false }) := by
  have hexec : (exec step noReply (init [tenantKey]) (readAround (.revoke 7) 4)).any
      (fun w => decide (w.answerOf 2 = some ("h", 1, some { tenantKey with isActive := false }))) =
        true := by decide
  obtain ⟨w, hrun, hw⟩ := Run.exists_of_exec covered_of_noReply hexec
  have hgot := got_of_answerOf (of_decide_eq_true hw)
  exact ⟨w, hrun, hgot, (get_by_hash_current hrun).1 _ _ _ hgot⟩

/-- The key of an account that has been deleted is still active for a read that starts after. -/
theorem get_by_hash_after_cascade : ∃ w : CacheWorld cachingApiKeyRepo,
    Run step (fun _ _ => True) (init [tenantKey]) w ∧ .got "h" 1 (some tenantKey) ∈ w.ops ∧
      ¬ w.Had 1 "h" (some tenantKey) := by
  have hexec : (exec step (fun _ _ => true) (init [tenantKey])
      (readAround (.softDeleteCascade "alice" 5) 1)).any
      (fun w => decide (w.answerOf 2 = some ("h", 1, some tenantKey) ∧
        ¬ w.Had 1 "h" (some tenantKey))) = true := by decide
  obtain ⟨w, hrun, hw⟩ := Run.exists_of_exec (fun _ _ _ => trivial) hexec
  obtain ⟨hanswer, hstale⟩ := of_decide_eq_true hw
  exact ⟨w, hrun, got_of_answerOf hanswer, hstale⟩

end CacheWorld
end Veronex
